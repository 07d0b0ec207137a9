import Mathlib

/-!
# Mailboxes

A caller sends messages to a server, each under an id. The server takes them in the order in which they were sent
and answers each under its id. Messages and answers may be lost, and an id may be used again.

Results: the rules of `Flushes P i`, which says that the answer to `i` comes after every message with `P` was taken.
-/

/-- The messages under way to the server, the first first, and the answers under way to the caller. -/
structure Mailbox (ι μ ρ : Type*) where
  queue : List (ι × μ)
  answers : List (ι × ρ)

namespace Mailbox

variable {ι μ ρ : Type*} {box box' : Mailbox ι μ ρ} {P : μ → Prop} {i j : ι} {m : μ} {r : ρ}

def empty : Mailbox ι μ ρ := ⟨[], []⟩

/-- The caller sends a message. -/
def send (i : ι) (m : μ) (box : Mailbox ι μ ρ) : Mailbox ι μ ρ := { box with queue := box.queue ++ [(i, m)] }

/-- The server takes the message `m` and answers it with `r`. -/
structure Serves (i : ι) (m : μ) (r : ρ) (box box' : Mailbox ι μ ρ) : Prop where
  queue : box.queue = (i, m) :: box'.queue
  answers : box'.answers = (i, r) :: box.answers

/-- Messages and answers are lost. -/
structure Loses (box box' : Mailbox ι μ ρ) : Prop where
  queue : box'.queue.Sublist box.queue
  answers : box'.answers ⊆ box.answers

/-- Every id under way satisfies `Q`. -/
structure Within (Q : ι → Prop) (box : Mailbox ι μ ρ) : Prop where
  queue : ∀ x ∈ box.queue, Q x.1
  answers : ∀ x ∈ box.answers, Q x.1

/-- No message with `P` is behind one of the id `i`, and none is under way once `i` is answered. -/
structure Flushes (P : μ → Prop) (i : ι) (box : Mailbox ι μ ρ) : Prop where
  behind : box.queue.Pairwise fun x y => x.1 = i → ¬ P y.2
  answered : ∀ r, (i, r) ∈ box.answers → ∀ x ∈ box.queue, ¬ P x.2

/-! ## 1. The ids under way -/

theorem mem_queue_send {x : ι × μ} : x ∈ (box.send i m).queue ↔ x ∈ box.queue ∨ x = (i, m) := by
  unfold send
  rw [List.mem_append, List.mem_singleton]

theorem Serves.mem_queue (h : Serves i m r box box') {x : ι × μ} (hx : x ∈ box'.queue) : x ∈ box.queue :=
  h.queue ▸ List.mem_cons_of_mem _ hx

theorem Serves.head_mem (h : Serves i m r box box') : (i, m) ∈ box.queue := h.queue ▸ List.mem_cons_self

theorem Serves.mem_answers (h : Serves i m r box box') {x : ι × ρ} :
    x ∈ box'.answers ↔ x = (i, r) ∨ x ∈ box.answers := by
  rw [h.answers, List.mem_cons]

variable {Q Q' : ι → Prop}

theorem Within.mono (h : Within Q box) (hQ : ∀ i, Q i → Q' i) : Within Q' box :=
  ⟨fun x hx => hQ _ (h.queue x hx), fun x hx => hQ _ (h.answers x hx)⟩

theorem Within.send (h : Within Q box) (hi : Q i) : Within Q (box.send i m) := by
  refine ⟨fun x hx => ?_, h.answers⟩
  rcases mem_queue_send.mp hx with hx | rfl
  · exact h.queue x hx
  · exact hi

theorem Within.serve (h : Within Q box) (hs : Serves i m r box box') : Within Q box' := by
  refine ⟨fun x hx => h.queue x (hs.mem_queue hx), fun x hx => ?_⟩
  rcases hs.mem_answers.mp hx with rfl | hx
  · exact h.queue _ hs.head_mem
  · exact h.answers x hx

theorem Within.lose (h : Within Q box) (hl : Loses box box') : Within Q box' :=
  ⟨fun x hx => h.queue x (hl.queue.mem hx), fun x hx => h.answers x (hl.answers hx)⟩

/-! ## 2. Messages that an answer follows -/

/-- An id that is not under way. -/
theorem Flushes.of_fresh (h : Within (· ≠ i) box) : Flushes P i box :=
  ⟨List.pairwise_of_forall_mem_list fun x hx _ _ hxi => absurd hxi (h.queue x hx),
    fun _ hr => absurd rfl (h.answers _ hr)⟩

/-- A message without `P` may always be sent. -/
theorem Flushes.send (h : Flushes P i box) (hm : ¬ P m) : Flushes P i (box.send j m) := by
  refine ⟨List.pairwise_append.mpr ⟨h.behind, List.pairwise_singleton _ _, fun x _ y hy _ => ?_⟩, fun r hr x hx => ?_⟩
  · rw [List.mem_singleton.mp hy]
    exact hm
  · rcases mem_queue_send.mp hx with hx | rfl
    · exact h.answered r hr x hx
    · exact hm

/-- Where `i` is answered now, nothing with `P` is behind it. -/
theorem Flushes.serve (h : Flushes P i box) (hs : Serves j m r box box') : Flushes P i box' := by
  have hcons := List.pairwise_cons.mp (hs.queue ▸ h.behind)
  refine ⟨hcons.2, fun r' hr x hx => ?_⟩
  rcases hs.mem_answers.mp hr with heq | hr
  · exact hcons.1 x hx (congrArg Prod.fst heq).symm
  · exact h.answered r' hr x (hs.mem_queue hx)

theorem Flushes.lose (h : Flushes P i box) (hl : Loses box box') : Flushes P i box' :=
  ⟨h.behind.sublist hl.queue, fun r hr x hx => h.answered r (hl.answers hr) x (hl.queue.mem hx)⟩

end Mailbox
