import Csms.Lib.Outcome
import Csms.Wallet.Topup

/-!
# The two channels of VNPAY (`payments/vnpay_gateway.py`, `payments/vnpay_query.py`)

VNPAY reports a payment through the query of an IPN and through the answer to a QueryDR request.
Both are signed with HMAC-SHA512, over differently built texts, and both become a `GatewayEvent`.

Results: `verify_query_event`, `query_transaction_event`: the fields an event is built from.
-/

namespace Csms.Payments

open Csms.Wallets

/-! ## 1. Texts -/

/-- `re.fullmatch` of a class of characters, `low` to `high` times. -/
def fullmatch (char : Char → Bool) (low high : ℕ) (s : String) : Bool :=
  low ≤ s.length && s.length ≤ high && s.toList.all char

def isDigit (c : Char) : Bool := '0' ≤ c && c ≤ '9'

def isHex (c : Char) : Bool := isDigit c || ('a' ≤ c && c ≤ 'f') || ('A' ≤ c && c ≤ 'F')

def isAlphanumeric (c : Char) : Bool := isDigit c || ('a' ≤ c && c ≤ 'z') || ('A' ≤ c && c ≤ 'Z')

/-- `int` of a text of digits. -/
def int (s : String) : ℕ := s.toList.foldl (fun n c => 10 * n + (c.toNat - 48)) 0

def hexDigit (n : ℕ) : Char := if n < 10 then Char.ofNat (48 + n) else Char.ofNat (55 + n)

/-- One byte of `quote_plus`. -/
def quoteByte (b : UInt8) : List Char :=
  let c := Char.ofNat b.toNat
  if isAlphanumeric c || c == '_' || c == '.' || c == '-' || c == '~' then [c]
  else if c == ' ' then ['+']
  else ['%', hexDigit (b.toNat / 16), hexDigit (b.toNat % 16)]

/-- `urllib.parse.quote_plus`. -/
def quotePlus (s : String) : String :=
  String.ofList (s.toList.flatMap fun c => (String.utf8EncodeChar c).flatMap quoteByte)

/-- `urllib.parse.urlencode`. -/
def urlencode (items : List (String × String)) : String :=
  "&".intercalate (items.map fun item => quotePlus item.1 ++ "=" ++ quotePlus item.2)

/-- `sorted(params.items())`; no key occurs twice. -/
def sortedItems (params : List (String × String)) : List (String × String) :=
  params.insertionSort fun a b => a.1 ≤ b.1

/-! ## 2. Events -/

inductive PaymentError where
  | invalidWebhookSignature (message : String)
  | invalidWebhookPayload (message : String)
  | validationError
  | decodeError
  deriving DecidableEq, Repr

/-- The validation of a `GatewayEvent`. -/
def gatewayEvent? (gateway_transaction_id order_id : String) (amount_vnd : ℤ) (status : PaymentStatus)
    (reason : Option String) : Option GatewayEvent :=
  if h : (validIdentifier gateway_transaction_id = true ∧ validIdentifier order_id = true) ∧
      (0 < amount_vnd ∧ amount_vnd ≤ MAX_VND) ∧ ∀ r ∈ reason, r.length ≤ 500 then
    some ⟨gateway_transaction_id, order_id, amount_vnd, status, reason, h.1, h.2.1, h.2.2⟩
  else none

/-- The reference of a transaction. A failed attempt may have the number 0, which is no reference. -/
def transactionReference (transaction order : String) : String :=
  "vnpay:" ++ if int transaction ≠ 0 then toString (int transaction) else "failed:" ++ order

/-- The adapter; `hmac` is HMAC-SHA512 under its secret, in hexadecimal. -/
structure VnpayGateway where
  tmn_code : String
  hmac : String → String

def VnpayGateway._signature (adapter : VnpayGateway) (params : List (String × String)) : String :=
  adapter.hmac (urlencode (sortedItems params))

/-- A signature that was supplied, against the one expected. -/
def signed (expected supplied : String) : Bool :=
  fullmatch isHex 128 128 supplied && expected == supplied.toLower

/-! ## 3. `verify_query` -/

/-- The parameters of a query; a repeated, foreign or long one is ambiguous. -/
def collect (items : List (String × String)) : Option (List (String × String)) :=
  items.foldlM (fun params item =>
    if (params.lookup item.1).isSome ∨ ¬ "vnp_".isPrefixOf item.1 ∨ 512 < item.2.length then none
    else some (params ++ [item])) []

/-- The body of the `try` in `verify_query`; whatever it raises becomes the same exception. -/
def VnpayGateway.authenticatedResult (adapter : VnpayGateway) (params : List (String × String)) :
    Option GatewayEvent := do
  let merchant ← params.lookup "vnp_TmnCode"
  guard (merchant = adapter.tmn_code)
  guard ((params.lookup "vnp_CurrCode").getD "VND" = "VND")
  let amount ← params.lookup "vnp_Amount"
  let code ← params.lookup "vnp_ResponseCode"
  let state ← params.lookup "vnp_TransactionStatus"
  let transaction ← params.lookup "vnp_TransactionNo"
  guard (fullmatch isDigit 1 12 amount ∧ int amount % 100 = 0)
  guard (fullmatch isDigit 2 2 code ∧ fullmatch isDigit 2 2 state)
  guard (fullmatch isDigit 1 15 transaction)
  guard (code = "00" ↔ state = "00")
  guard (¬ (code = "00" ∧ int transaction = 0))
  let order ← params.lookup "vnp_TxnRef"
  guard (fullmatch isAlphanumeric 1 100 order)
  gatewayEvent? (transactionReference transaction order) order (int amount / 100 : ℕ)
    (if code = "00" then .succeeded else if code = "24" then .cancelled else .failed)
    (if code = "00" then none else some ("VNPAY response " ++ code))

def VnpayGateway.verify_query (adapter : VnpayGateway) (items : List (String × String)) :
    Except PaymentError GatewayEvent :=
  match collect items with
  | none => .error (.invalidWebhookSignature "Ambiguous VNPAY parameters")
  | some params =>
    let supplied := (params.lookup "vnp_SecureHash").getD ""
    let params := params.filter fun p => p.1 ≠ "vnp_SecureHash" ∧ p.1 ≠ "vnp_SecureHashType"
    if signed (adapter._signature params) supplied = false then
      .error (.invalidWebhookSignature "Invalid VNPAY signature")
    else
      match adapter.authenticatedResult params with
      | none => .error (.invalidWebhookPayload "Invalid authenticated VNPAY result")
      | some event => .ok event

/-! ## 4. `query_transaction` -/

/-- The body of an answer: no JSON, some other value, or an object, whose values are texts or not. -/
inductive QueryBody where
  | malformed | other | object (fields : List (String × Option String))
  deriving DecidableEq, Repr

structure QueryResult where
  request_id : String
  response_code : String
  transaction_status : Option String
  event : Option GatewayEvent
  deriving DecidableEq

def RESPONSE_FIELDS : List String :=
  ["vnp_ResponseId", "vnp_Command", "vnp_ResponseCode", "vnp_Message", "vnp_TmnCode", "vnp_TxnRef",
    "vnp_Amount", "vnp_BankCode", "vnp_PayDate", "vnp_TransactionNo", "vnp_TransactionType",
    "vnp_TransactionStatus", "vnp_OrderInfo", "vnp_PromotionCode", "vnp_PromotionAmount"]

/-- `data.get(field, "")`. -/
def field (data : List (String × String)) (name : String) : String := (data.lookup name).getD ""

/-- `signature`: fixed order of the fields, and pipes. -/
def VnpayGateway.signature (adapter : VnpayGateway) (fields : List String) (data : List (String × String)) :
    String :=
  adapter.hmac ("|".intercalate (fields.map (field data)))

/-- The fields of an answer, each one a text of at most 512 characters. -/
def QueryBody.data : QueryBody → Except PaymentError (List (String × String))
  | .malformed => .error .decodeError
  | .other => .error (.invalidWebhookPayload "Invalid QueryDR response")
  | .object fields =>
    if ¬ (fields.map (·.1)).Nodup then .error (.invalidWebhookPayload "Duplicate QueryDR field")
    else
      match fields.mapM fun f => f.2.bind fun v => if 512 < v.length then none else some (f.1, v) with
      | none => .error (.invalidWebhookPayload "Invalid QueryDR response")
      | some data => .ok data

/-- The transaction of an answer whose query succeeded. -/
def transactionResult (request_id order : String) (data : List (String × String)) :
    Except PaymentError QueryResult :=
  let amount := field data "vnp_Amount"
  let state := field data "vnp_TransactionStatus"
  let transaction := field data "vnp_TransactionNo"
  if data.lookup "vnp_TransactionType" ≠ some "01" ∨ fullmatch isDigit 1 12 amount = false ∨
      int amount = 0 ∨ int amount % 100 ≠ 0 ∨ fullmatch isDigit 2 2 state = false ∨
      fullmatch isDigit 1 15 transaction = false then
    .error (.invalidWebhookPayload "Invalid QueryDR transaction")
  else if state ≠ "00" ∧ state ≠ "02" then .ok ⟨request_id, "00", some state, none⟩
  else if state = "00" ∧ int transaction = 0 then
    .error (.invalidWebhookPayload "Missing successful QueryDR transaction")
  else
    match gatewayEvent? (transactionReference transaction order) order (int amount / 100 : ℕ)
        (if state = "00" then .succeeded else .failed)
        (if state = "00" then none else some "VNPAY QueryDR transaction status 02") with
    | none => .error .validationError
    | some event => .ok ⟨request_id, "00", some state, some event⟩

/-- `query_transaction` on the body of the answer to the request `request_id`. -/
def query_transaction (adapter : VnpayGateway) (request_id order : String) (body : QueryBody) :
    Except PaymentError QueryResult := do
  let data ← body.data
  if signed (adapter.signature RESPONSE_FIELDS data) (field data "vnp_SecureHash") = false then
    throw (.invalidWebhookSignature "Invalid QueryDR signature")
  else if data.lookup "vnp_TmnCode" ≠ some adapter.tmn_code ∨ data.lookup "vnp_TxnRef" ≠ some order ∨
      data.lookup "vnp_Command" ≠ some "querydr" then
    throw (.invalidWebhookPayload "QueryDR response identity mismatch")
  else if fullmatch isAlphanumeric 1 32 (field data "vnp_ResponseId") = false then
    throw (.invalidWebhookPayload "Invalid QueryDR response ID")
  else if fullmatch isDigit 2 2 (field data "vnp_ResponseCode") = false then
    throw (.invalidWebhookPayload "Invalid QueryDR response code")
  else if field data "vnp_ResponseCode" ≠ "00" then
    return ⟨request_id, field data "vnp_ResponseCode", none, none⟩
  else transactionResult request_id order data

/-! ## 5. What an event is built from -/

namespace VnpayLemmas

theorem gatewayEvent?_eq_some {gid order : String} {amount : ℤ} {status : PaymentStatus}
    {reason : Option String} {e : GatewayEvent} (h : gatewayEvent? gid order amount status reason = some e) :
    e.gateway_transaction_id = gid ∧ e.order_id = order ∧ e.amount_vnd = amount ∧ e.status = status := by
  unfold gatewayEvent? at h
  split at h
  · cases h
    exact ⟨rfl, rfl, rfl, rfl⟩
  · cases h

theorem collect_eq_some {items params : List (String × String)} (h : collect items = some params) :
    params = items := by
  have hfold : ∀ {items before after : List (String × String)},
      items.foldlM (fun params item =>
        if (params.lookup item.1).isSome ∨ ¬ "vnp_".isPrefixOf item.1 ∨ 512 < item.2.length then none
        else some (params ++ [item])) before = some after → after = before ++ items := by
    intro items
    induction items with
    | nil =>
      intro before after h
      cases h
      simp
    | cons item items ih =>
      intro before after h
      rw [List.foldlM_cons] at h
      split at h
      · cases h
      · rw [ih h, List.append_assoc, List.singleton_append]
  simpa using hfold h

theorem lookup_filter {items : List (String × String)} {test : String × String → Bool} {name : String}
    (h : ∀ v, test (name, v) = true) : (items.filter test).lookup name = items.lookup name := by
  induction items with
  | nil => rfl
  | cons item items ih =>
    obtain ⟨key, value⟩ := item
    rw [List.filter_cons]
    by_cases hkey : name = key
    · subst hkey
      rw [if_pos (h value), List.lookup_cons_self, List.lookup_cons_self]
    · have hne : (name == key) = false := beq_eq_false_iff_ne.mpr hkey
      rw [List.lookup_cons, hne, ← ih]
      split
      · rw [List.lookup_cons, hne]
      · rfl

/-- The identifiers of the examples. -/
theorem sample_ids : validIdentifier "vnpay:14422574" = true ∧ validIdentifier "topup1" = true := by decide

end VnpayLemmas

open VnpayLemmas

/-- The event is that of the transaction `transaction` of the order `order`. -/
structure EventOf (order amount transaction state : String) (e : GatewayEvent) : Prop where
  order_id : e.order_id = order
  amount : e.amount_vnd = (int amount / 100 : ℕ)
  reference : e.gateway_transaction_id = transactionReference transaction order
  success : e.status = .succeeded ↔ state = "00"

theorem verify_query_event {adapter : VnpayGateway} {items : List (String × String)} {e : GatewayEvent}
    (h : adapter.verify_query items = .ok e) :
    ∃ order amount transaction state, items.lookup "vnp_TxnRef" = some order ∧
      items.lookup "vnp_Amount" = some amount ∧ items.lookup "vnp_TransactionNo" = some transaction ∧
      items.lookup "vnp_TransactionStatus" = some state ∧ EventOf order amount transaction state e := by
  unfold VnpayGateway.verify_query at h
  split at h
  · cases h
  next params hparams =>
  rw [collect_eq_some hparams] at h
  simp only at h
  split at h
  · cases h
  split at h
  · cases h
  next event hevent =>
  cases h
  have hlookup : ∀ name, name ≠ "vnp_SecureHash" → name ≠ "vnp_SecureHashType" →
      (items.filter fun p => decide (p.1 ≠ "vnp_SecureHash" ∧ p.1 ≠ "vnp_SecureHashType")).lookup name =
        items.lookup name := fun name h1 h2 => lookup_filter fun v => by simp [h1, h2]
  simp only [VnpayGateway.authenticatedResult, Option.bind_eq_bind, Option.bind_eq_some_iff, Option.guard_eq_some',
    hlookup _ (by decide : "vnp_TxnRef" ≠ _) (by decide), hlookup _ (by decide : "vnp_Amount" ≠ _) (by decide),
    hlookup _ (by decide : "vnp_TransactionNo" ≠ _) (by decide),
    hlookup _ (by decide : "vnp_TransactionStatus" ≠ _) (by decide)] at hevent
  obtain ⟨merchant, -, -, -, -, -, amount, hamount, code, -, state, hstate, transaction, htransaction, -, -,
    -, -, -, -, -, hagree, -, -, order, horder, -, -, hevent⟩ := hevent
  obtain ⟨hid, hord, hamt, hstatus⟩ := gatewayEvent?_eq_some hevent
  refine ⟨order, amount, transaction, state, horder, hamount, htransaction, hstate, hord, hamt, hid, ?_⟩
  rw [hstatus, ← hagree]
  split
  · next h => simp [h]
  · next h => split <;> simp [h]

theorem query_transaction_event {adapter : VnpayGateway} {request_id order : String} {body : QueryBody}
    {result : QueryResult} {e : GatewayEvent}
    (h : query_transaction adapter request_id order body = .ok result) (he : result.event = some e) :
    ∃ data, body.data = .ok data ∧ data.lookup "vnp_TxnRef" = some order ∧
      EventOf order (field data "vnp_Amount") (field data "vnp_TransactionNo")
        (field data "vnp_TransactionStatus") e := by
  unfold query_transaction at h
  obtain ⟨data, hdata, h⟩ := Outcome.bind_eq_ok.mp h
  split at h
  · cases h
  split at h
  · cases h
  next hidentity =>
  split at h
  · cases h
  split at h
  · cases h
  split at h
  · cases h
    cases he
  simp only [transactionResult] at h
  split at h
  · cases h
  split at h
  · cases h
    cases he
  split at h
  · cases h
  split at h
  · cases h
  next event hevent =>
  cases h
  cases he
  obtain ⟨hid, hord, hamt, hstatus⟩ := gatewayEvent?_eq_some hevent
  simp only [not_or, not_not] at hidentity
  refine ⟨data, hdata, hidentity.2.1, hord, hamt, hid, ?_⟩
  rw [hstatus]
  split
  · next h => simp [h]
  · next h => simp [h]

end Csms.Payments
