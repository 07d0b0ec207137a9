import Mathlib

/-!
# JSON values and their compact texts

A text is the list of its code points. The values are over any type of floats; `Finite` are those
without an infinity or a NaN, `Distinct` those whose objects have no key twice.

`dumps` writes a value without blanks, and `loads` reads such a text. Their floats are the whole
numbers and an infinity.

Results: `loads_dumps` (a value that is finite and distinct is read back from its text), `distinct_loads`.
-/

/-- The code points of a text. -/
abbrev Str := List ℕ

/-- The code points of a literal. -/
def String.str (s : String) : Str := s.toList.map (·.toNat)

inductive Json (F : Type) where
  | null
  | bool (b : Bool)
  | int (n : ℤ)
  | float (x : F)
  | str (s : Str)
  | array (items : List (Json F))
  | object (fields : List (Str × Json F))

namespace Json

variable {F : Type}

inductive Finite (finite : F → Prop) : Json F → Prop
  | null : Finite finite .null
  | bool (b : Bool) : Finite finite (.bool b)
  | int (n : ℤ) : Finite finite (.int n)
  | float {x : F} (h : finite x) : Finite finite (.float x)
  | str (s : Str) : Finite finite (.str s)
  | array {items : List (Json F)} (h : ∀ v ∈ items, Finite finite v) : Finite finite (.array items)
  | object {fields : List (Str × Json F)} (h : ∀ field ∈ fields, Finite finite field.2) :
      Finite finite (.object fields)

inductive Distinct : Json F → Prop
  | null : Distinct .null
  | bool (b : Bool) : Distinct (.bool b)
  | int (n : ℤ) : Distinct (.int n)
  | float (x : F) : Distinct (.float x)
  | str (s : Str) : Distinct (.str s)
  | array {items : List (Json F)} (h : ∀ v ∈ items, Distinct v) : Distinct (.array items)
  | object {fields : List (Str × Json F)} (keys : (fields.map Prod.fst).Nodup)
      (h : ∀ field ∈ fields, Distinct field.2) : Distinct (.object fields)

theorem finite_array {finite : F → Prop} {items : List (Json F)} :
    Finite finite (.array items) ↔ ∀ v ∈ items, Finite finite v :=
  ⟨fun h => by cases h; assumption, .array⟩

theorem distinct_array {items : List (Json F)} : Distinct (.array items) ↔ ∀ v ∈ items, Distinct v :=
  ⟨fun h => by cases h; assumption, .array⟩

/-! ## 1. Texts -/

def quote : ℕ := 34
def comma : ℕ := 44
def minus : ℕ := 45
def point : ℕ := 46
def colon : ℕ := 58
def backslash : ℕ := 92

/-- A float: a whole number, or the infinity. -/
abbrev Whole := Option ℤ

def hexDigit (d : ℕ) : ℕ := if d < 10 then 48 + d else 87 + d

def hexValue (c : ℕ) : ℕ := if c < 58 then c - 48 else c - 87

/-- The escapes of one character. -/
def shortEscapes : List (ℕ × ℕ) := [(34, 34), (92, 92), (8, 98), (12, 102), (10, 110), (13, 114), (9, 116)]

/-- The text of a character in a string. -/
def escape (c : ℕ) : Str :=
  match shortEscapes.find? (·.1 = c) with
  | some e => [backslash, e.2]
  | none => if c < 32 then [backslash, 117, 48, 48, hexDigit (c / 16), hexDigit (c % 16)] else [c]

def stringText (s : Str) : Str := quote :: (s.flatMap escape ++ [quote])

def natText (n : ℕ) : Str := if n = 0 then [48] else (Nat.digits 10 n).reverse.map (48 + ·)

def intText (n : ℤ) : Str := if n < 0 then minus :: natText n.natAbs else natText n.natAbs

/-- Items between brackets, with commas. -/
def enclose (opening closing : ℕ) (items : List Str) : Str := opening :: ([comma].intercalate items ++ [closing])

mutual

/-- The compact text of a value, which an infinity does not have. -/
def dumps : Json Whole → Option Str
  | .null => some "null".str
  | .bool true => some "true".str
  | .bool false => some "false".str
  | .int n => some (intText n)
  | .float none => none
  | .float (some n) => some (intText n ++ [point, 48])
  | .str s => some (stringText s)
  | .array items => (dumpItems items).map (enclose 91 93)
  | .object fields => (dumpFields fields).map (enclose 123 125)

def dumpItems : List (Json Whole) → Option (List Str)
  | [] => some []
  | v :: items => (dumps v).bind fun text => (dumpItems items).map (text :: ·)

def dumpFields : List (Str × Json Whole) → Option (List Str)
  | [] => some []
  | (key, v) :: fields => (dumps v).bind fun text => (dumpFields fields).map ((stringText key ++ colon :: text) :: ·)

end

/-! ## 2. Reading -/

/-- A reader gives back what it read, and the rest of the text. -/
abbrev Reader (α : Type) := Str → Option (α × Str)

/-- A string up to its closing quote. -/
def stringRest : Reader Str
  | [] => none
  | c :: cs =>
    if c = quote then some ([], cs)
    else if c = backslash then
      match cs with
      | [] => none
      | e :: cs =>
        if e = 117 then
          match cs with
          | a :: b :: c :: d :: cs =>
            (stringRest cs).map fun p =>
              ((((hexValue a * 16 + hexValue b) * 16 + hexValue c) * 16 + hexValue d) :: p.1, p.2)
          | _ => none
        else
          match shortEscapes.find? (·.2 = e) with
          | some short => (stringRest cs).map fun p => (short.1 :: p.1, p.2)
          | none => none
    else (stringRest cs).map fun p => (c :: p.1, p.2)

def isDigit (c : ℕ) : Bool := 48 ≤ c && c ≤ 57

def readNat (cs : Str) : Option (ℕ × Str) :=
  if cs.takeWhile isDigit = [] then none
  else some (Nat.ofDigits 10 ((cs.takeWhile isDigit).reverse.map (· - 48)), cs.dropWhile isDigit)

def readInt : Reader ℤ
  | [] => none
  | c :: cs =>
    if c = minus then (readNat cs).map fun p => (-(p.1 : ℤ), p.2) else (readNat (c :: cs)).map fun p => ((p.1 : ℤ), p.2)

def readNumber (cs : Str) : Option (Json Whole × Str) :=
  (readInt cs).map fun p => if p.2.take 2 = [point, 48] then (.float (some p.1), p.2.drop 2) else (.int p.1, p.2)

/-- Items with commas, up to a closing bracket. -/
def itemsRest {α : Type} (closing : ℕ) (item : Reader α) : ℕ → Reader (List α)
  | 0, _ => none
  | fuel + 1, cs =>
    match item cs with
    | some (x, c :: cs) =>
      if c = closing then some ([x], cs)
      else if c = comma then (itemsRest closing item fuel cs).map fun p => (x :: p.1, p.2)
      else none
    | _ => none

/-- No items, or some. -/
def enclosed {α : Type} (closing : ℕ) (item : Reader α) (fuel : ℕ) : Reader (List α)
  | [] => none
  | c :: cs => if c = closing then some ([], cs) else itemsRest closing item fuel (c :: cs)

/-- A key, a colon and a value. -/
def readField (value : Reader (Json Whole)) : Reader (Str × Json Whole)
  | [] => none
  | c :: cs =>
    if c = quote then
      match stringRest cs with
      | some (key, c :: cs) => if c = colon then (value cs).map fun p => ((key, p.1), p.2) else none
      | _ => none
    else none

/-- `d[key] = value`. -/
def assign {α : Type} (d : List (Str × α)) (field : Str × α) : List (Str × α) :=
  if field.1 ∈ d.map Prod.fst then d.map fun f => if f.1 = field.1 then field else f else d ++ [field]

def readValue : ℕ → Reader (Json Whole)
  | 0, _ => none
  | _, [] => none
  | fuel + 1, c :: cs =>
    if c = quote then (stringRest cs).map fun p => (.str p.1, p.2)
    else if c = 91 then (enclosed 93 (readValue fuel) fuel cs).map fun p => (.array p.1, p.2)
    else if c = 123 then
      (enclosed 125 (readField (readValue fuel)) fuel cs).map fun p => (.object (p.1.foldl assign []), p.2)
    else if (c :: cs).take 4 = "null".str then some (.null, (c :: cs).drop 4)
    else if (c :: cs).take 4 = "true".str then some (.bool true, (c :: cs).drop 4)
    else if (c :: cs).take 5 = "false".str then some (.bool false, (c :: cs).drop 5)
    else readNumber (c :: cs)

/-- The value of a compact text. -/
def loads (text : Str) : Option (Json Whole) :=
  match readValue text.length text with
  | some (v, []) => some v
  | _ => none

/-! ## 3. Reading what was written -/

namespace JsonLemmas

/-- What follows a value does not go on with a number. -/
def Delimited (rest : Str) : Prop := ∀ c ∈ rest.head?, isDigit c = false ∧ c ≠ point

theorem hexValue_hexDigit {d : ℕ} (h : d < 16) : hexValue (hexDigit d) = d := by
  unfold hexValue hexDigit
  split <;> split <;> omega

theorem stringRest_escape (c : ℕ) (cs : Str) :
    stringRest (escape c ++ cs) = (stringRest cs).map fun p => (c :: p.1, p.2) := by
  unfold escape
  split
  · next e he =>
    have hmem := List.mem_of_find?_eq_some he
    have hc := List.find?_some he
    simp only [shortEscapes, List.mem_cons, List.not_mem_nil, or_false] at hmem
    rcases hmem with rfl | rfl | rfl | rfl | rfl | rfl | rfl <;>
      simp only [decide_eq_true_eq] at hc <;> subst hc <;>
      rw [List.cons_append, stringRest.eq_def] <;> rfl
  next hnone =>
  have hplain : c ≠ quote ∧ c ≠ backslash := by
    constructor <;> rintro rfl <;> simp [shortEscapes, quote, backslash] at hnone
  split
  · next hlt =>
    have hc : ((hexValue 48 * 16 + hexValue 48) * 16 + hexValue (hexDigit (c / 16))) * 16 +
        hexValue (hexDigit (c % 16)) = c := by
      rw [hexValue_hexDigit (by omega), hexValue_hexDigit (by omega), show hexValue 48 = 0 from rfl]
      omega
    calc stringRest (backslash :: 117 :: 48 :: 48 :: hexDigit (c / 16) :: hexDigit (c % 16) :: cs)
        = (stringRest cs).map fun p => ((((hexValue 48 * 16 + hexValue 48) * 16 + hexValue (hexDigit (c / 16))) * 16 +
            hexValue (hexDigit (c % 16))) :: p.1, p.2) := by rw [stringRest.eq_def]; rfl
      _ = (stringRest cs).map fun p => (c :: p.1, p.2) := by rw [hc]
  · rw [List.singleton_append, stringRest.eq_def]
    simp only [if_neg hplain.1, if_neg hplain.2]

theorem stringRest_text (s rest : Str) : stringRest (s.flatMap escape ++ quote :: rest) = some (s, rest) := by
  induction s with
  | nil => rw [List.flatMap_nil, List.nil_append, stringRest.eq_def]; rfl
  | cons c s ih =>
    rw [List.flatMap_cons, List.append_assoc, stringRest_escape, ih]
    rfl

theorem natText_digits (n : ℕ) : natText n ≠ [] ∧ ∀ c ∈ natText n, isDigit c = true := by
  unfold natText
  split
  · simp [isDigit]
  next hn =>
  constructor
  · simpa using Nat.digits_ne_nil_iff_ne_zero.mpr hn
  · intro c hc
    obtain ⟨d, hd, rfl⟩ := List.mem_map.mp hc
    have := Nat.digits_lt_base (by norm_num) (List.mem_reverse.mp hd)
    simp only [isDigit, Bool.and_eq_true, decide_eq_true_eq]
    omega

theorem ofDigits_natText (n : ℕ) : Nat.ofDigits 10 ((natText n).reverse.map (· - 48)) = n := by
  unfold natText
  split
  · next hn => simp [hn]
  · rw [← List.map_reverse, List.reverse_reverse, List.map_map]
    have hid : ((· - 48) ∘ (48 + ·) : ℕ → ℕ) = id := by
      funext d
      simp
    rw [hid, List.map_id, Nat.ofDigits_digits]

theorem readNat_text (n : ℕ) {rest : Str} (hrest : ∀ c ∈ rest.head?, isDigit c = false) :
    readNat (natText n ++ rest) = some (n, rest) := by
  obtain ⟨hne, hdigits⟩ := natText_digits n
  have htake : (natText n ++ rest).takeWhile isDigit = natText n := by
    rw [List.takeWhile_append_of_pos hdigits]
    cases rest with
    | nil => simp
    | cons c rest => rw [List.takeWhile_cons_of_neg (by simp [hrest c rfl]), List.append_nil]
  have hdrop : (natText n ++ rest).dropWhile isDigit = rest := by
    rw [List.dropWhile_append_of_pos hdigits]
    cases rest with
    | nil => rfl
    | cons c rest => rw [List.dropWhile_cons_of_neg (by simp [hrest c rfl])]
  rw [readNat, htake, hdrop, if_neg hne, ofDigits_natText]

theorem readInt_text (n : ℤ) (rest : Str) (hrest : ∀ c ∈ rest.head?, isDigit c = false) :
    readInt (intText n ++ rest) = some (n, rest) := by
  unfold intText
  split
  · next hneg =>
    rw [List.cons_append, readInt, if_pos rfl, readNat_text _ hrest]
    simp only [Option.map_some, Option.some_inj, Prod.mk.injEq, and_true]
    omega
  · next hpos =>
    obtain ⟨hne, hdigits⟩ := natText_digits n.natAbs
    have hread := readNat_text n.natAbs hrest
    obtain ⟨c, cs, hcs⟩ := List.exists_cons_of_ne_nil hne
    have hc : c ≠ minus := by
      rintro rfl
      exact absurd (hdigits minus (hcs ▸ List.mem_cons_self)) (by decide)
    rw [hcs, List.cons_append] at hread ⊢
    rw [readInt, if_neg hc, hread]
    simp only [Option.map_some, Option.some_inj, Prod.mk.injEq, and_true]
    omega

/-- Items that are read back one by one are read back together. -/
theorem itemsRest_texts {α : Type} {closing : ℕ} {item : Reader α} (text : α → Str) (rest : Str)
    (hclosing : closing ≠ comma) (fuel : ℕ) {x : α} {xs : List α}
    (hitem : ∀ y ∈ x :: xs, ∀ cs, (cs.head? = some comma ∨ cs.head? = some closing) → item (text y ++ cs) = some (y, cs))
    (hfuel : xs.length < fuel) :
    itemsRest closing item fuel ([comma].intercalate ((x :: xs).map text) ++ closing :: rest) = some (x :: xs, rest) := by
  induction xs generalizing x fuel with
  | nil =>
    obtain ⟨fuel, rfl⟩ := Nat.exists_eq_add_of_lt hfuel
    rw [List.map_singleton, List.intercalate_singleton, itemsRest,
      hitem x List.mem_cons_self _ (.inr rfl)]
    simp only [if_pos]
  | cons y xs ih =>
    obtain ⟨fuel, rfl⟩ := Nat.exists_eq_succ_of_ne_zero (Nat.ne_zero_of_lt hfuel)
    have hrest := ih fuel (fun z hz => hitem z (List.mem_cons_of_mem _ hz)) (Nat.lt_of_succ_lt_succ hfuel)
    have htext : [comma].intercalate ((x :: y :: xs).map text) ++ closing :: rest =
        text x ++ comma :: ([comma].intercalate ((y :: xs).map text) ++ closing :: rest) := by
      simp [List.intercalate]
    rw [htext, itemsRest, hitem x List.mem_cons_self _ (.inl rfl)]
    simp only [if_neg hclosing.symm, if_true, hrest, Option.map_some]

theorem enclosed_texts {α : Type} (opening : ℕ) {closing : ℕ} {item : Reader α} (text : α → Str) (rest : Str)
    (hclosing : closing ≠ comma) {fuel : ℕ} {xs : List α}
    (hhead : ∀ x ∈ xs, ∃ c cs, text x = c :: cs ∧ c ≠ closing)
    (hitem : ∀ y ∈ xs, ∀ cs, (cs.head? = some comma ∨ cs.head? = some closing) → item (text y ++ cs) = some (y, cs))
    (hfuel : xs.length ≤ fuel) :
    ∃ cs, enclose opening closing (xs.map text) ++ rest = opening :: cs ∧
      enclosed closing item fuel cs = some (xs, rest) := by
  refine ⟨[comma].intercalate (xs.map text) ++ closing :: rest, by simp [enclose], ?_⟩
  cases xs with
  | nil =>
    rw [List.map_nil, List.intercalate_nil, List.nil_append, enclosed, if_pos rfl]
  | cons x xs =>
    have hread := itemsRest_texts text rest hclosing fuel hitem hfuel
    obtain ⟨c, cs, hx, hc⟩ := hhead x List.mem_cons_self
    have htext : ∃ tail, [comma].intercalate ((x :: xs).map text) ++ closing :: rest = c :: tail := by
      cases xs <;> simp [List.intercalate, hx]
    obtain ⟨tail, htail⟩ := htext
    rw [htail] at hread ⊢
    rw [enclosed, if_neg hc, hread]

theorem intercalate_length (texts : List Str) (hne : ∀ t ∈ texts, t ≠ []) :
    texts.length ≤ ([comma].intercalate texts).length ∧ ∀ t ∈ texts, t.length ≤ ([comma].intercalate texts).length := by
  induction texts with
  | nil => exact ⟨le_rfl, nofun⟩
  | cons t texts ih =>
    obtain ⟨hlength, hmem⟩ := ih fun u hu => hne u (List.mem_cons_of_mem _ hu)
    have ht := List.length_pos_iff.mpr (hne t List.mem_cons_self)
    cases texts with
    | nil =>
      rw [List.intercalate_singleton]
      exact ⟨ht, fun u hu => by rw [List.mem_singleton.mp hu]⟩
    | cons u texts =>
      have htotal : ([comma].intercalate (t :: u :: texts)).length =
          t.length + 1 + ([comma].intercalate (u :: texts)).length := by
        simp [List.intercalate]
        omega
      rw [htotal]
      refine ⟨by rw [List.length_cons]; omega, fun x hx => ?_⟩
      rcases List.mem_cons.mp hx with rfl | hx
      · omega
      · have := hmem x hx
        omega

theorem foldl_assign {α : Type} {fields d : List (Str × α)} (hnodup : ((d ++ fields).map Prod.fst).Nodup) :
    fields.foldl assign d = d ++ fields := by
  induction fields generalizing d with
  | nil => exact (List.append_nil d).symm
  | cons field fields ih =>
    have hnew : field.1 ∉ d.map Prod.fst := by
      rw [List.map_append, List.nodup_append'] at hnodup
      exact fun h => hnodup.2.2 h (List.mem_map_of_mem List.mem_cons_self)
    have hstep : assign d field = d ++ [field] := if_neg hnew
    rw [List.foldl_cons, hstep, ih (by simpa using hnodup), List.append_assoc, List.singleton_append]

theorem nodup_assign {α : Type} {d : List (Str × α)} (field : Str × α) (h : (d.map Prod.fst).Nodup) :
    ((assign d field).map Prod.fst).Nodup := by
  unfold assign
  split
  · have hkeys : (d.map fun f => if f.1 = field.1 then field else f).map Prod.fst = d.map Prod.fst := by
      rw [List.map_map]
      refine List.map_congr_left fun f _ => ?_
      rw [Function.comp_apply]
      split
      · next heq => exact heq.symm
      · rfl
    rw [hkeys]
    exact h
  · next hnew =>
    rw [List.map_append, List.nodup_append']
    exact ⟨h, List.nodup_singleton _, by simpa using hnew⟩

theorem mem_assign {α : Type} {d : List (Str × α)} {field f : Str × α} (h : f ∈ assign d field) : f = field ∨ f ∈ d := by
  unfold assign at h
  split at h
  · obtain ⟨g, hg, rfl⟩ := List.mem_map.mp h
    split
    · exact .inl rfl
    · exact .inr hg
  · rcases List.mem_append.mp h with h | h
    · exact .inr h
    · exact .inl (List.mem_singleton.mp h)

theorem dumpItems_eq {items : List (Json Whole)} {text : Json Whole → Str}
    (h : ∀ v ∈ items, dumps v = some (text v)) : dumpItems items = some (items.map text) := by
  induction items with
  | nil => rfl
  | cons v items ih =>
    rw [dumpItems, h v List.mem_cons_self, ih fun u hu => h u (List.mem_cons_of_mem _ hu)]
    rfl

theorem dumpFields_eq {fields : List (Str × Json Whole)} {text : Json Whole → Str}
    (h : ∀ f ∈ fields, dumps f.2 = some (text f.2)) :
    dumpFields fields = some (fields.map fun f => stringText f.1 ++ colon :: text f.2) := by
  induction fields with
  | nil => rfl
  | cons f fields ih =>
    rw [dumpFields, h f List.mem_cons_self, ih fun u hu => h u (List.mem_cons_of_mem _ hu)]
    rfl

/-- A text that is read back as the value, whatever follows it. -/
structure ReadBack (v : Json Whole) (text : Str) : Prop where
  dumped : dumps v = some text
  head : ∃ c cs, text = c :: cs ∧ c ≠ 93
  read : ∀ fuel rest, text.length ≤ fuel → Delimited rest → readValue fuel (text ++ rest) = some (v, rest)

theorem delimited_of_head {closing : ℕ} (hclosing : closing = 93 ∨ closing = 125) {rest : Str}
    (h : rest.head? = some comma ∨ rest.head? = some closing) : Delimited rest := by
  intro c hc
  rw [Option.mem_def] at hc
  have hc' : c = comma ∨ c = 93 ∨ c = 125 := by
    rcases h with h | h <;> rw [h] at hc <;> cases hc
    · exact .inl rfl
    · exact .inr hclosing
  rcases hc' with rfl | rfl | rfl <;> decide

theorem intText_head (n : ℤ) : ∃ c cs, intText n = c :: cs ∧ (isDigit c = true ∨ c = minus) := by
  unfold intText
  obtain ⟨hne, hdigits⟩ := natText_digits n.natAbs
  split
  · exact ⟨minus, _, rfl, .inr rfl⟩
  · obtain ⟨c, cs, hcs⟩ := List.exists_cons_of_ne_nil hne
    exact ⟨c, cs, hcs, .inl (hdigits c (hcs ▸ List.mem_cons_self))⟩

theorem readValue_number {c : ℕ} (hc : isDigit c = true ∨ c = minus) (fuel : ℕ) (cs : Str) :
    readValue (fuel + 1) (c :: cs) = readNumber (c :: cs) := by
  have hrange : 45 ≤ c ∧ c ≤ 57 := by
    rcases hc with hc | rfl
    · simp only [isDigit, Bool.and_eq_true, decide_eq_true_eq] at hc
      omega
    · decide
  have hword : ∀ {w : String} (k : ℕ), (∃ d ds, w.str = d :: ds ∧ 57 < d) → (c :: cs).take (k + 1) ≠ w.str := by
    rintro w k ⟨d, ds, hw, hd⟩ heq
    rw [List.take_succ_cons, hw] at heq
    have := (List.cons.inj heq).1
    omega
  rw [readValue, if_neg (by unfold quote; omega), if_neg (by omega), if_neg (by omega),
    if_neg (hword 3 ⟨_, _, rfl, by decide⟩), if_neg (hword 3 ⟨_, _, rfl, by decide⟩),
    if_neg (hword 4 ⟨_, _, rfl, by decide⟩)]

theorem readBack_int (n : ℤ) : ReadBack (.int n) (intText n) := by
  obtain ⟨c, cs, hcs, hc⟩ := intText_head n
  refine ⟨by rw [dumps], ⟨c, cs, hcs, ?_⟩, fun fuel rest hfuel hrest => ?_⟩
  · rintro rfl
    rcases hc with hc | hc <;> exact absurd hc (by decide)
  · obtain ⟨fuel, rfl⟩ := Nat.exists_eq_succ_of_ne_zero (n := fuel) (by rw [hcs, List.length_cons] at hfuel; omega)
    have hread := readInt_text n rest fun d hd => (hrest d hd).1
    rw [hcs, List.cons_append] at hread ⊢
    have hno : rest.take 2 ≠ [point, 48] := by
      intro heq
      cases rest with
      | nil => simp at heq
      | cons d rest => exact (hrest d rfl).2 (List.cons.inj heq).1
    rw [readValue_number hc, readNumber, hread]
    simp only [Option.map_some, if_neg hno]

theorem readBack_float (n : ℤ) : ReadBack (.float (some n)) (intText n ++ [point, 48]) := by
  obtain ⟨c, cs, hcs, hc⟩ := intText_head n
  refine ⟨by rw [dumps], ⟨c, cs ++ [point, 48], by rw [hcs]; rfl, ?_⟩, fun fuel rest hfuel hrest => ?_⟩
  · rintro rfl
    rcases hc with hc | hc <;> exact absurd hc (by decide)
  · obtain ⟨fuel, rfl⟩ := Nat.exists_eq_succ_of_ne_zero (n := fuel)
      (by rw [List.length_append, hcs, List.length_cons] at hfuel; omega)
    have hread := readInt_text n ([point, 48] ++ rest) fun d hd => by
      cases hd
      rfl
    rw [List.append_assoc]
    rw [hcs, List.cons_append] at hread ⊢
    rw [readValue_number hc, readNumber, hread]
    rfl

theorem readBack_str (s : Str) : ReadBack (.str s) (stringText s) := by
  refine ⟨by rw [dumps], ⟨quote, _, rfl, by decide⟩, fun fuel rest hfuel _ => ?_⟩
  obtain ⟨fuel, rfl⟩ := Nat.exists_eq_succ_of_ne_zero (n := fuel) (by
    rw [stringText, List.length_cons] at hfuel
    omega)
  have htext : stringText s ++ rest = quote :: (s.flatMap escape ++ quote :: rest) := by simp [stringText]
  rw [htext, readValue, if_pos rfl, stringRest_text]
  rfl

theorem readBack_word {v : Json Whole} {text : Str} (hdumped : dumps v = some text)
    (hv : v = .null ∧ text = "null".str ∨ v = .bool true ∧ text = "true".str ∨ v = .bool false ∧ text = "false".str) :
    ReadBack v text := by
  refine ⟨hdumped, ?_, fun fuel rest hfuel _ => ?_⟩
  · rcases hv with ⟨-, rfl⟩ | ⟨-, rfl⟩ | ⟨-, rfl⟩ <;> exact ⟨_, _, rfl, by decide⟩
  · obtain ⟨fuel, rfl⟩ := Nat.exists_eq_succ_of_ne_zero (n := fuel) (by
      rintro rfl
      rcases hv with ⟨-, rfl⟩ | ⟨-, rfl⟩ | ⟨-, rfl⟩ <;> exact absurd hfuel (by decide))
    rcases hv with ⟨rfl, rfl⟩ | ⟨rfl, rfl⟩ | ⟨rfl, rfl⟩ <;> rfl

theorem readBack_array {items : List (Json Whole)} (text : Json Whole → Str)
    (h : ∀ v ∈ items, ReadBack v (text v)) : ReadBack (.array items) (enclose 91 93 (items.map text)) := by
  have hne : ∀ t ∈ items.map text, t ≠ [] := by
    intro t ht
    obtain ⟨v, hv, rfl⟩ := List.mem_map.mp ht
    obtain ⟨c, cs, hcs, -⟩ := (h v hv).head
    exact hcs ▸ List.cons_ne_nil c cs
  obtain ⟨hlength, hmem⟩ := intercalate_length _ hne
  rw [List.length_map] at hlength
  refine ⟨by rw [dumps, dumpItems_eq fun v hv => (h v hv).dumped]; rfl, ⟨91, _, rfl, by decide⟩,
    fun fuel rest hfuel _ => ?_⟩
  rw [enclose, List.length_cons, List.length_append] at hfuel
  obtain ⟨fuel, rfl⟩ := Nat.exists_eq_succ_of_ne_zero (n := fuel) (by omega)
  obtain ⟨cs, hcs, hread⟩ := @enclosed_texts (Json Whole) 91 93 (readValue fuel) text rest
    (by decide) fuel items (fun v hv => (h v hv).head)
    (fun v hv cs hcs => by
      have := hmem (text v) (List.mem_map_of_mem hv)
      exact (h v hv).read fuel cs (by omega) (delimited_of_head (.inl rfl) hcs)) (by omega)
  rw [hcs, readValue, if_neg (by decide), if_pos rfl, hread]
  rfl

theorem readBack_object {fields : List (Str × Json Whole)} (text : Json Whole → Str)
    (hkeys : (fields.map Prod.fst).Nodup) (h : ∀ f ∈ fields, ReadBack f.2 (text f.2)) :
    ReadBack (.object fields) (enclose 123 125 (fields.map fun f => stringText f.1 ++ colon :: text f.2)) := by
  have hne : ∀ t ∈ fields.map (fun f => stringText f.1 ++ colon :: text f.2), t ≠ [] := by
    intro t ht
    obtain ⟨f, -, rfl⟩ := List.mem_map.mp ht
    exact List.cons_ne_nil _ _
  obtain ⟨hlength, hmem⟩ := intercalate_length _ hne
  rw [List.length_map] at hlength
  refine ⟨by rw [dumps, dumpFields_eq fun f hf => (h f hf).dumped]; rfl, ⟨123, _, rfl, by decide⟩,
    fun fuel rest hfuel _ => ?_⟩
  rw [enclose, List.length_cons, List.length_append] at hfuel
  obtain ⟨fuel, rfl⟩ := Nat.exists_eq_succ_of_ne_zero (n := fuel) (by omega)
  obtain ⟨cs, hcs, hread⟩ := @enclosed_texts (Str × Json Whole) 123 125 (readField (readValue fuel))
    (fun f => stringText f.1 ++ colon :: text f.2) rest (by decide) fuel fields (fun f _ => ⟨quote, _, rfl, by decide⟩)
    (fun f hf cs hcs => by
      have hlt := hmem _ (List.mem_map_of_mem hf)
      rw [List.length_append, List.length_cons] at hlt
      have hv := (h f hf).read fuel cs (by omega) (delimited_of_head (.inr rfl) hcs)
      have htext : stringText f.1 ++ colon :: text f.2 ++ cs =
          quote :: (f.1.flatMap escape ++ quote :: colon :: (text f.2 ++ cs)) := by simp [stringText]
      rw [htext, readField, if_pos rfl, stringRest_text]
      simp only [if_true, hv, Option.map_some]) (by omega)
  rw [hcs, readValue, if_neg (by decide), if_neg (by decide), if_pos rfl, hread, Option.map_some,
    foldl_assign (by simpa using hkeys), List.nil_append]

/-- Every value that is finite and distinct is read back. -/
theorem readBack {v : Json Whole} (hfinite : Finite (·.isSome = true) v) (hdistinct : Distinct v) :
    ReadBack v ((dumps v).getD []) := by
  induction hfinite with
  | null => exact readBack_word rfl (.inl ⟨rfl, rfl⟩)
  | bool b =>
    cases b with
    | true => exact readBack_word rfl (.inr (.inl ⟨rfl, rfl⟩))
    | false => exact readBack_word rfl (.inr (.inr ⟨rfl, rfl⟩))
  | int n => exact readBack_int n
  | @float x hx =>
    obtain ⟨n, rfl⟩ := Option.isSome_iff_exists.mp hx
    exact readBack_float n
  | str s => exact readBack_str s
  | array _ ih =>
    cases hdistinct with
    | array hd =>
      have hread := readBack_array (fun v => (dumps v).getD []) fun v hv => ih v hv (hd v hv)
      rw [hread.dumped]
      exact hread
  | object _ ih =>
    cases hdistinct with
    | object hkeys hd =>
      have hread := readBack_object (fun v => (dumps v).getD []) hkeys fun f hf => ih f hf (hd f hf)
      rw [hread.dumped]
      exact hread

theorem mem_itemsRest {α : Type} {closing : ℕ} {item : Reader α} {P : α → Prop}
    (hitem : ∀ cs x rest, item cs = some (x, rest) → P x) (fuel : ℕ) {cs rest : Str} {xs : List α}
    (h : itemsRest closing item fuel cs = some (xs, rest)) : ∀ x ∈ xs, P x := by
  induction fuel generalizing cs xs with
  | zero => cases h
  | succ fuel ih =>
    rw [itemsRest] at h
    split at h
    · next x c cs' hx =>
      split at h
      · cases h
        exact fun y hy => List.mem_singleton.mp hy ▸ hitem _ _ _ hx
      split at h
      · obtain ⟨⟨ys, r⟩, hys, heq⟩ := Option.map_eq_some_iff.mp h
        cases heq
        exact List.forall_mem_cons.mpr ⟨hitem _ _ _ hx, ih hys⟩
      · cases h
    · cases h

theorem mem_enclosed {α : Type} {closing : ℕ} {item : Reader α} {P : α → Prop}
    (hitem : ∀ cs x rest, item cs = some (x, rest) → P x) {fuel : ℕ} {cs rest : Str} {xs : List α}
    (h : enclosed closing item fuel cs = some (xs, rest)) : ∀ x ∈ xs, P x := by
  cases cs with
  | nil => cases h
  | cons c cs =>
    rw [enclosed] at h
    split at h
    · cases h
      exact nofun
    · exact mem_itemsRest hitem fuel h

/-- A dictionary that is built from pairs. -/
theorem distinct_assigned {fields : List (Str × Json F)} (h : ∀ f ∈ fields, Distinct f.2) :
    Distinct (.object (fields.foldl assign [])) := by
  have hbuilt : ∀ {d : List (Str × Json F)}, (d.map Prod.fst).Nodup → (∀ f ∈ d, Distinct f.2) →
      ((fields.foldl assign d).map Prod.fst).Nodup ∧ ∀ f ∈ fields.foldl assign d, Distinct f.2 := by
    induction fields with
    | nil => exact fun hnodup hd => ⟨hnodup, hd⟩
    | cons field fields ih =>
      intro d hnodup hd
      refine ih (fun f hf => h f (List.mem_cons_of_mem _ hf)) (nodup_assign field hnodup) fun f hf => ?_
      rcases mem_assign hf with rfl | hf
      · exact h f List.mem_cons_self
      · exact hd f hf
  obtain ⟨hnodup, hall⟩ := hbuilt (d := []) List.nodup_nil fun f hf => absurd hf List.not_mem_nil
  exact .object hnodup hall

theorem distinct_readNumber {cs rest : Str} {v : Json Whole} (h : readNumber cs = some (v, rest)) : Distinct v := by
  obtain ⟨p, -, heq⟩ := Option.map_eq_some_iff.mp h
  split at heq
  · cases heq
    exact .float _
  · cases heq
    exact .int _

theorem distinct_readValue (fuel : ℕ) : ∀ (cs : Str) (v : Json Whole) (rest : Str),
    readValue fuel cs = some (v, rest) → Distinct v := by
  induction fuel with
  | zero => exact fun _ _ _ h => by cases h
  | succ fuel ih =>
    intro cs v rest h
    cases cs with
    | nil => cases h
    | cons c cs =>
      rw [readValue] at h
      split at h
      · obtain ⟨p, -, heq⟩ := Option.map_eq_some_iff.mp h
        cases heq
        exact .str _
      split at h
      · obtain ⟨⟨xs, r⟩, hxs, heq⟩ := Option.map_eq_some_iff.mp h
        cases heq
        exact .array (mem_enclosed ih hxs)
      split at h
      · obtain ⟨⟨xs, r⟩, hxs, heq⟩ := Option.map_eq_some_iff.mp h
        cases heq
        refine distinct_assigned (mem_enclosed (fun cs f r hf => ?_) hxs)
        cases cs with
        | nil => cases hf
        | cons c cs =>
          rw [readField] at hf
          split at hf
          · split at hf
            · split at hf
              · obtain ⟨q, hq, heq⟩ := Option.map_eq_some_iff.mp hf
                cases heq
                exact ih _ _ _ hq
              · cases hf
            · cases hf
          · cases hf
      split at h
      · cases h
        exact .null
      split at h
      · cases h
        exact .bool _
      split at h
      · cases h
        exact .bool _
      · exact distinct_readNumber h

end JsonLemmas

open JsonLemmas in
theorem loads_dumps {v : Json Whole} (hfinite : Finite (·.isSome = true) v) (hdistinct : Distinct v) :
    ∃ text, dumps v = some text ∧ loads text = some v := by
  have h := readBack hfinite hdistinct
  have hread := h.read _ [] le_rfl nofun
  rw [List.append_nil] at hread
  exact ⟨_, h.dumped, by rw [loads, hread]⟩

theorem distinct_loads {text : Str} {v : Json Whole} (h : loads text = some v) : Distinct v := by
  unfold loads at h
  split at h
  · next hread =>
    cases h
    exact JsonLemmas.distinct_readValue _ _ _ _ hread
  · cases h

end Json
