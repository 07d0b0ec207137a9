import Csms.Lib.Encoding
import Csms.Payments.Vnpay

/-!
# What a VNPAY signature binds (`payments/vnpay_gateway.py`)

The signature of a query covers one text: its parameters, sorted by key and form-encoded. The
encoding can be read back, so that two queries under one signature carry the same parameters.

Results: `quotePlus_inj`, `urlencode_inj`, `signature_binds`.
-/

namespace Csms.Payments

open Csms.Wallets

/-! ## 1. Quoting -/

namespace QuotingLemmas

open Encoding

/-- A byte stands for itself, for a space, or for its two hexadecimal digits. -/
theorem quoteByte_cases (b : UInt8) :
    (∃ c, quoteByte b = [c] ∧ c.toNat = b.toNat ∧ c ∉ ['+', '%', '&', '=']) ∨
      (quoteByte b = ['+'] ∧ b.toNat = 32) ∨
        quoteByte b = ['%', hexDigit (b.toNat / 16), hexDigit (b.toNat % 16)] := by
  have hb : b.toNat < 256 := UInt8.toNat_lt b
  have hvalue : (Char.ofNat b.toNat).toNat = b.toNat := by
    have : Nat.isValidChar b.toNat := Or.inl (by omega)
    simp [Char.ofNat, this]
  simp only [quoteByte]
  split
  · next hplain =>
    refine Or.inl ⟨_, rfl, hvalue, fun hmem => ?_⟩
    rcases List.mem_cons.mp hmem with h | hmem
    · rw [h] at hplain
      exact absurd hplain (by decide)
    rcases List.mem_cons.mp hmem with h | hmem
    · rw [h] at hplain
      exact absurd hplain (by decide)
    rcases List.mem_cons.mp hmem with h | hmem
    · rw [h] at hplain
      exact absurd hplain (by decide)
    · rw [List.mem_singleton.mp hmem] at hplain
      exact absurd hplain (by decide)
  split
  · next hspace =>
    refine Or.inr (Or.inl ⟨rfl, ?_⟩)
    rw [← hvalue, beq_iff_eq.mp hspace]
    rfl
  · exact Or.inr (Or.inr rfl)

theorem hexDigit_inj : ∀ m < 16, ∀ n < 16, hexDigit m = hexDigit n → m = n := by
  decide +kernel

theorem hexDigit_ne : ∀ n < 16, hexDigit n ≠ '&' ∧ hexDigit n ≠ '=' := by
  decide +kernel

/-- The first character tells the three kinds of words apart. -/
theorem readable_quoteByte : Readable quoteByte where
  ne_nil b := by
    rcases quoteByte_cases b with ⟨c, h, -⟩ | ⟨h, -⟩ | h <;> simp [h]
  head {a b rest rest'} heq := by
    have ha : a.toNat < 256 := UInt8.toNat_lt a
    have hb : b.toNat < 256 := UInt8.toNat_lt b
    apply UInt8.toNat_inj.mp
    rcases quoteByte_cases a with ⟨c, h, hc, hplain⟩ | ⟨h, hc⟩ | h <;>
      rcases quoteByte_cases b with ⟨d, h', hd, hplain'⟩ | ⟨h', hd⟩ | h' <;>
      rw [h, h'] at heq <;>
      simp only [List.cons_append, List.nil_append, List.cons.injEq] at heq
    · rw [← hc, ← hd, heq.1]
    · exact absurd (heq.1 ▸ List.mem_cons_self) hplain
    · exact absurd (heq.1 ▸ List.mem_cons_of_mem _ List.mem_cons_self) hplain
    · exact absurd (heq.1 ▸ List.mem_cons_self) hplain'
    · rw [hc, hd]
    · exact absurd heq.1 (by decide)
    · exact absurd (heq.1 ▸ List.mem_cons_of_mem _ List.mem_cons_self) hplain'
    · exact absurd heq.1 (by decide)
    · have hhigh := hexDigit_inj _ (by omega) _ (by omega) heq.2.1
      have hlow := hexDigit_inj _ (by omega) _ (by omega) heq.2.2.1
      omega

theorem toList_quotePlus (s : String) :
    (quotePlus s).toList = (s.toList.flatMap String.utf8EncodeChar).flatMap quoteByte := by
  rw [quotePlus, String.toList_ofList, List.flatMap_assoc]

theorem quotePlus_inj {s t : String} (h : quotePlus s = quotePlus t) : s = t := by
  have hlist := congrArg String.toList h
  rw [toList_quotePlus, toList_quotePlus] at hlist
  exact String.toList_inj.mp (utf8_inj (readable_quoteByte.flatMap_inj hlist))

/-- Neither separator occurs in a quoted text. -/
theorem notMem_quotePlus {s : String} {c : Char} (hc : c = '&' ∨ c = '=') : c ∉ (quotePlus s).toList := by
  rw [toList_quotePlus]
  intro hmem
  obtain ⟨b, -, hmem⟩ := List.mem_flatMap.mp hmem
  have hb : b.toNat < 256 := UInt8.toNat_lt b
  rcases quoteByte_cases b with ⟨d, h, -, hplain⟩ | ⟨h, -⟩ | h <;> rw [h] at hmem
  · rw [List.mem_singleton.mp hmem] at hc
    rcases hc with rfl | rfl
    · exact hplain (by decide)
    · exact hplain (by decide)
  · rw [List.mem_singleton.mp hmem] at hc
    exact absurd hc (by decide)
  · have hhigh := hexDigit_ne (b.toNat / 16) (by omega)
    have hlow := hexDigit_ne (b.toNat % 16) (by omega)
    rcases hc with rfl | rfl
    · simp [Ne.symm hhigh.1, Ne.symm hlow.1] at hmem
    · simp [Ne.symm hhigh.2, Ne.symm hlow.2] at hmem

/-! ## 2. Form encoding -/

/-- One parameter of the signed text. -/
def part (item : String × String) : List Char :=
  (quotePlus item.1).toList ++ '=' :: (quotePlus item.2).toList

theorem part_inj {item item' : String × String} (h : part item = part item') : item = item' := by
  obtain ⟨hkey, -, hvalue⟩ := (List.append_cons_inj_of_notMem (notMem_quotePlus (Or.inr rfl))
    (notMem_quotePlus (Or.inr rfl))).mp h
  exact Prod.ext (quotePlus_inj (String.toList_inj.mp hkey)) (quotePlus_inj (String.toList_inj.mp hvalue))

theorem part_separate (item : String × String) : '&' ∉ part item ∧ part item ≠ [] := by
  refine ⟨fun hmem => ?_, by simp [part]⟩
  rcases List.mem_append.mp hmem with hmem | hmem
  · exact notMem_quotePlus (Or.inl rfl) hmem
  rcases List.mem_cons.mp hmem with hmem | hmem
  · exact absurd hmem (by decide)
  · exact notMem_quotePlus (Or.inl rfl) hmem

theorem toList_urlencode (items : List (String × String)) :
    (urlencode items).toList = ['&'].intercalate (items.map part) := by
  rw [urlencode, String.toList_intercalate, List.map_map]
  exact congrArg _ (List.map_congr_left fun item _ => by simp [part])

theorem urlencode_inj {items items' : List (String × String)} (h : urlencode items = urlencode items') :
    items = items' := by
  have hlist := congrArg String.toList h
  rw [toList_urlencode, toList_urlencode] at hlist
  have hseparate : ∀ (items : List (String × String)), ∀ p ∈ items.map part, '&' ∉ p ∧ p ≠ [] := by
    intro items p hp
    obtain ⟨item, -, rfl⟩ := List.mem_map.mp hp
    exact part_separate item
  exact List.map_injective_iff.mpr (fun _ _ => part_inj)
    (intercalate_inj (hseparate items) (hseparate items') hlist)

end QuotingLemmas

open QuotingLemmas

/-! ## 3. Queries under one signature -/

/-- The parameters that a signature covers. -/
def parameters (items : List (String × String)) : List (String × String) :=
  items.filter fun p => p.1 ≠ "vnp_SecureHash" ∧ p.1 ≠ "vnp_SecureHashType"

/-- The text that is signed. -/
def signedText (items : List (String × String)) : String := urlencode (sortedItems (parameters items))

def secureHash (items : List (String × String)) : String := (items.lookup "vnp_SecureHash").getD ""

/-- `verify_query` does not object to the signature, nor to the shape of what is signed. -/
def VnpayGateway.Accepts (adapter : VnpayGateway) (items : List (String × String)) : Prop :=
  ∀ message, adapter.verify_query items ≠ .error (.invalidWebhookSignature message)

namespace SignatureLemmas

open VnpayLemmas

theorem collect_nodup {items params : List (String × String)} (h : collect items = some params) :
    (items.map Prod.fst).Nodup := by
  have hfold : ∀ {items before after : List (String × String)},
      items.foldlM (fun params item =>
        if (params.lookup item.1).isSome ∨ ¬ "vnp_".isPrefixOf item.1 ∨ 512 < item.2.length then none
        else some (params ++ [item])) before = some after →
      (before.map Prod.fst).Nodup → ((before ++ items).map Prod.fst).Nodup := by
    intro items
    induction items with
    | nil =>
      intro before after _ hbefore
      simpa using hbefore
    | cons item items ih =>
      intro before after h hbefore
      rw [List.foldlM_cons] at h
      split at h
      · cases h
      · next hitem =>
        have hnew : item.1 ∉ before.map Prod.fst := by
          intro hmem
          obtain ⟨p, hp, heq⟩ := List.mem_map.mp hmem
          exact hitem (.inl (List.lookup_isSome_iff.mpr ⟨p, hp, beq_iff_eq.mpr heq.symm⟩))
        have hnext : ((before ++ [item]).map Prod.fst).Nodup := by
          rw [List.map_append]
          exact hbefore.append (List.nodup_singleton _) (by simpa using hnew)
        simpa using ih h hnext
  exact hfold h List.nodup_nil

/-- With distinct keys, the order of the parameters does not matter to a lookup. -/
theorem lookup_perm {params params' : List (String × String)} (hperm : params.Perm params')
    (hnodup : (params.map Prod.fst).Nodup) (name : String) : params.lookup name = params'.lookup name := by
  induction hperm with
  | nil => rfl
  | cons p _ ih =>
    rw [List.lookup_cons, List.lookup_cons, ih (List.nodup_cons.mp hnodup).2]
  | swap p q l =>
    have hne : q.1 ≠ p.1 := fun h => (List.nodup_cons.mp hnodup).1 (by simp [h])
    rw [List.lookup_cons, List.lookup_cons, List.lookup_cons, List.lookup_cons]
    by_cases hq : name = q.1
    · rw [hq, beq_self_eq_true, beq_eq_false_iff_ne.mpr hne]
    · rw [beq_eq_false_iff_ne.mpr hq]
  | trans h _ ih ih' => rw [ih hnodup, ih' ((h.map Prod.fst).nodup_iff.mp hnodup)]

theorem authenticatedResult_congr {adapter : VnpayGateway} {params params' : List (String × String)}
    (h : ∀ name, params.lookup name = params'.lookup name) :
    adapter.authenticatedResult params = adapter.authenticatedResult params' := by
  simp only [VnpayGateway.authenticatedResult, h]

/-- What is checked before the signed parameters are read. -/
theorem accepts_spec {adapter : VnpayGateway} {items : List (String × String)} (h : adapter.Accepts items) :
    (items.map Prod.fst).Nodup ∧ adapter.hmac (signedText items) = (secureHash items).toLower ∧
      adapter.verify_query items = match adapter.authenticatedResult (parameters items) with
        | none => .error (.invalidWebhookPayload "Invalid authenticated VNPAY result")
        | some event => .ok event := by
  unfold VnpayGateway.Accepts VnpayGateway.verify_query at h
  unfold VnpayGateway.verify_query
  split at h
  · exact absurd rfl (h _)
  next params hparams =>
  obtain rfl := collect_eq_some hparams
  simp only at h ⊢
  split at h
  · exact absurd rfl (h _)
  next hsigned =>
  have hsigned := Bool.of_not_eq_false hsigned
  refine ⟨collect_nodup hparams, beq_iff_eq.mp (Bool.and_eq_true_iff.mp hsigned).2, ?_⟩
  rw [if_neg (by rw [hsigned]; decide)]
  rfl

theorem accepts_of_ok {adapter : VnpayGateway} {items : List (String × String)} {event : GatewayEvent}
    (h : adapter.verify_query items = .ok event) : adapter.Accepts items := by
  intro message herror
  rw [h] at herror
  cases herror

end SignatureLemmas

open SignatureLemmas

/-- Two accepted queries whose hashes differ in letter case at most carry the same parameters, each
once, and give the same result. -/
theorem signature_binds {adapter : VnpayGateway} {items items' : List (String × String)}
    (accepted : adapter.Accepts items) (accepted' : adapter.Accepts items')
    (hash : (secureHash items).toLower = (secureHash items').toLower)
    (injective : adapter.hmac (signedText items) = adapter.hmac (signedText items') →
      signedText items = signedText items') :
    (items.map Prod.fst).Nodup ∧ (items'.map Prod.fst).Nodup ∧ (parameters items).Perm (parameters items') ∧
      adapter.verify_query items = adapter.verify_query items' := by
  obtain ⟨hnodup, hhmac, hresult⟩ := accepts_spec accepted
  obtain ⟨hnodup', hhmac', hresult'⟩ := accepts_spec accepted'
  have htext : signedText items = signedText items' := injective ((hhmac.trans hash).trans hhmac'.symm)
  have hperm : (parameters items).Perm (parameters items') :=
    calc (parameters items).Perm (sortedItems (parameters items)) := (List.perm_insertionSort _ _).symm
      _ = sortedItems (parameters items') := urlencode_inj htext
      List.Perm _ (parameters items') := List.perm_insertionSort _ _
  have hparameters : ((parameters items).map Prod.fst).Nodup :=
    hnodup.sublist (List.filter_sublist.map _)
  refine ⟨hnodup, hnodup', hperm, ?_⟩
  rw [hresult, hresult', authenticatedResult_congr (lookup_perm hperm hparameters)]

namespace OneSignature

def hash : String :=
  "d70ba40b2e482b89076cddabfac0da0a69d76c3a4221e3447434a358496eb3e2" ++
  "052e7207d7c89c87b6d0b99a18752141912247edff71afbf7525e38bcf3fe48e"

/-- HMAC-SHA512 under a secret, at one text. -/
def adapter : VnpayGateway where
  tmn_code := "CSMS0001"
  hmac := fun text =>
    if text = "vnp_Amount=5000000&vnp_OrderInfo=n%E1%BA%A1p+v%C3%AD+%26+50%25&vnp_ResponseCode=00" ++
      "&vnp_TmnCode=CSMS0001&vnp_TransactionNo=14422574&vnp_TransactionStatus=00&vnp_TxnRef=topup1" then
      hash
    else ""

def items : List (String × String) :=
  [("vnp_TmnCode", "CSMS0001"), ("vnp_Amount", "5000000"), ("vnp_ResponseCode", "00"),
    ("vnp_TransactionStatus", "00"), ("vnp_TransactionNo", "14422574"), ("vnp_TxnRef", "topup1"),
    ("vnp_OrderInfo", "nạp ví & 50%"), ("vnp_SecureHash", hash)]

/-- The same parameters backwards, with the type of the hash. -/
def reordered : List (String × String) := ("vnp_SecureHashType", "SHA512") :: items.reverse

def payment : GatewayEvent where
  gateway_transaction_id := "vnpay:14422574"
  order_id := "topup1"
  amount_vnd := 50000
  status := .succeeded
  reason := none
  ids_ok := VnpayLemmas.sample_ids
  amount_ok := fifty_thousand
  reason_ok := GatewayEvent.no_reason

theorem verified : adapter.verify_query items = .ok payment := by decide +kernel

theorem verified_reordered : adapter.verify_query reordered = .ok payment := by decide +kernel

end OneSignature

open OneSignature

theorem signature_binds_reordered :
    (parameters items).Perm (parameters reordered) ∧ adapter.verify_query items = adapter.verify_query reordered :=
  (signature_binds (accepts_of_ok verified) (accepts_of_ok verified_reordered) rfl (by decide +kernel)).2.2

end Csms.Payments
