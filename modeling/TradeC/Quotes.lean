import TradeC.Replies
import TradeC.Message
import TradeC.Price
import TradeC.Lib.Decimal
import Mathlib.Data.List.TakeWhile

/-! The texts that `quote_handler` of a transaction server and `connection_handler` of the load balancer
    exchange.

    All of them go through buffers of 200 bytes. The load balancer splits a request at `|` and copies the
    fields; the transaction server splits a reply at `,` in its buffer, where the pointers that a reply with
    few fields does not set stay those of an earlier one. -/

namespace TradeC.Quotes
open Decimal

/-- `sprintf` to a buffer of 200 bytes, and the bytes that are then sent of it, up to the NUL. There is no
    result where it would write behind the buffer. -/
def sprintf (text : CStr) : Option (List Char) :=
  if text.length < 200 then some (text ++ [nul]) else none

/-- The buffer after a `recv` of at most 200 bytes. -/
def recv (buf bytes : List Char) : List Char :=
  bytes.take 200 ++ buf.drop (bytes.take 200).length

/-! ### The transaction server -/

/-- What is sent after the transaction number and the command, up to the newline. -/
def requestLine (stockID : StockID) (userID : UserID) : CStr :=
  stockID.str ++ ',' :: userID.str ++ ['\n']

def quoteRequest (transID userCmd : CStr) (stockID : StockID) (userID : UserID) : CStr :=
  "QCR|".toList ++ transID ++ '|' :: userCmd ++ '|' :: requestLine stockID userID

/-- `request[1] = 'N'`, for the request that is sent where no load balancer has the quote. -/
def sent (new : Bool) (request : List Char) : List Char := if new then request.set 1 'N' else request

def isspace (c : Char) : Bool := c = ' ' || (8 < ord c && ord c < 14)

/-- `strtoll(s, NULL, 10)`. -/
def strtoll (s : CStr) : ℤ :=
  let n : ℤ :=
    match s.dropWhile isspace with
    | '-' :: s => -(val (s.takeWhile Char.isDigit) : ℤ)
    | '+' :: s => val (s.takeWhile Char.isDigit)
    | s => val (s.takeWhile Char.isDigit)
  max (-2 ^ 63) (min n (2 ^ 63 - 1))

/-- What a quote sets of a `stock`. -/
structure Stock where
  price : ℤ
  ts : ℤ
  key : CStr

/-- `response`, where the pointers of `quoteResponse` point to in it, and `stockObj`. -/
structure Client where
  response : List Char
  quoteResponse : List (Option ℕ)
  stockObj : Stock

namespace Client
variable (w : ℤ → ℤ)

/-- `quoteResponse[i]` as a string. -/
def str (c : Client) (i : ℕ) : Option CStr :=
  ((c.quoteResponse[i]?).join).map (cstr c.response)

/-- `recv` and the `delimSepNoCpy` that gives `respLen`. There is no result where the string does not end
    in the buffer, or a pointer would be written behind `quoteResponse`. -/
def receive (c : Client) (bytes : List Char) : Option (Client × ℕ) :=
  let buf := recv c.response bytes
  let text := cstr buf 0
  let fields := delimSepNoCpy (some text) ','
  if nul ∉ buf ∨ 5 < fields.length then none
  else
    some (⟨text.map (fun x => if x = ',' then nul else x) ++ buf.drop text.length,
      (offsets fields 0).map some ++ c.quoteResponse.drop fields.length, c.stockObj⟩, fields.length)

/-- The assignments to `stockObj`, whose `key` has 57 bytes; no result where NULL would be read. -/
def quote (c : Client) : Option Client :=
  match c.str 0, c.str 3, c.str 4 with
  | some price, some ts, some key =>
    if key.length < 57 then some { c with stockObj := ⟨str2price w price, strtoll ts, key⟩ } else none
  | _, _, _ => none

/-- The loop over the load balancers, with what comes back from each of them, `none` where a call of the
    network fails; and `isCached`. -/
def qcr (c : Client) : List (Option (List Char)) → Option (Client × Bool)
  | [] => some (c, false)
  | none :: replies => c.qcr replies
  | some bytes :: replies =>
    (c.receive bytes).bind fun (c, respLen) =>
      if respLen = 5 then (c.quote w).map fun c => (c, true) else c.qcr replies

/-- The reply to the request for a new quote, whose number of fields is not looked at. -/
def qnr (c : Client) (bytes : List Char) : Option Client :=
  (c.receive bytes).bind fun (c, _) => c.quote w

end Client

/-! ### The load balancer -/

def quoteTo : ℤ := 28000

def charLim : ℤ := 26

/-- `quote_contents`, once a quote has been stored in it. -/
structure QuoteContents where
  price : CStr
  sym : CStr
  user : CStr
  ts : ℤ
  key : CStr

/-- The `%llu` conversion. -/
def llu (x : ℤ) : CStr := Nat.toDigits 10 (x % 2 ^ 64).toNat

def QuoteContents.text (q : QuoteContents) : CStr :=
  q.price ++ ',' :: q.sym ++ ',' :: q.user ++ ',' :: llu q.ts ++ ',' :: q.key

/-- What is read from a connection; a string of `messageSep` is `none` until a message sets it. -/
structure Conn where
  clientMessage : List Char
  messageSep : List (Option CStr)

/-- The strings of `messageSep`. -/
structure Message where
  internalCmd : CStr
  transID : CStr
  userCmd : CStr
  request : CStr

/-- `recv` and `delimSep`, which copies the fields. There is no result where the string does not end in the
    buffer, or a pointer would be written behind `messageSep`. -/
def Conn.receive (c : Conn) (bytes : List Char) : Option Conn :=
  let buf := recv c.clientMessage bytes
  let fields := delimSepNoCpy (some (cstr buf 0)) '|'
  if nul ∉ buf ∨ 4 < fields.length then none
  else some ⟨buf, fields.map some ++ c.messageSep.drop fields.length⟩

def Conn.message (c : Conn) : Option Message :=
  match c.messageSep with
  | some internalCmd :: some transID :: some userCmd :: some request :: _ =>
    some ⟨internalCmd, transID, userCmd, request⟩
  | _ => none

/-- The slot of the cache for a request; no result where the request is shorter than what is read of it, or
    there is no such slot. -/
def quoteAddress (request : CStr) : Option ℕ :=
  match request ++ [nul] with
  | a :: b :: c :: _ =>
    let coord (x : Char) := (ord x - 65).tmod charLim
    let k := (coord a * charLim + coord b) * charLim + coord c
    if 0 ≤ k ∧ k < charLim ^ 3 then some k.toNat else none
  | _ => none

/-- What the handler does for a message: a reply, or a request to the quote server first. -/
inductive Answer where
  | reply (text : CStr)
  | qenq (request transID : CStr) (quoteAddress : ℕ)

def Answer.bytes : Answer → Option (List Char)
  | .reply text => sprintf text
  | .qenq .. => none

/-- The quote of a slot, if it was stored less than `quoteTo` before; the slots start with zeroes. -/
def cached (now : ℤ) (slot : Option QuoteContents) : Bool :=
  now - slot.elim 0 QuoteContents.ts < quoteTo

/-- `connection_handler`, after the message has been taken apart; no result where NULL would be printed. -/
def answer (now : ℤ) (cache : ℕ → Option QuoteContents) (m : Message) : Option Answer :=
  (quoteAddress m.request).bind fun k =>
    let reply := (cache k).map fun q => Answer.reply q.text
    if m.internalCmd.take 3 = "QCR".toList then
      if cached now (cache k) then reply else some (.reply "NOT".toList)
    else if m.internalCmd.take 3 = "QNR".toList then
      if cached now (cache k) then reply else some (.qenq m.request m.transID k)
    else some (.reply "ERR".toList)

/-- The quote of the slot is sent, and taken for what it is. -/
def Quoted (w : ℤ → ℤ) (q : QuoteContents) : Prop :=
  ∃ bytes, sprintf q.text = some bytes ∧ ∀ c : Client,
    (∀ replies, ∃ c', c.qcr w (some bytes :: replies) = some (c', true) ∧
      c'.stockObj = ⟨str2price w q.price, q.ts, q.key⟩) ∧
    ∃ c', c.qnr w bytes = some c' ∧ c'.stockObj = ⟨str2price w q.price, q.ts, q.key⟩

/-- The request as it is split, sent first or for a new quote. -/
def message (new : Bool) (transID userCmd : CStr) (stockID : StockID) (userID : UserID) : Message :=
  ⟨if new then "QNR".toList else "QCR".toList, transID, userCmd, requestLine stockID userID⟩

/-- What both sides do for a quote. -/
structure RoundTrip (w : ℤ → ℤ) (transID userCmd : CStr) (stockID : StockID) (userID : UserID)
    (q : QuoteContents) : Prop where
  request : ∃ bytes, sprintf (quoteRequest transID userCmd stockID userID) = some bytes ∧
    ∀ new (c : Conn), (c.receive (sent new bytes)).bind Conn.message =
      some (message new transID userCmd stockID userID)
  answered : ∃ k, quoteAddress (requestLine stockID userID) = some k ∧ ∀ now cache, cache k = some q →
    cached now (cache k) = true → ∀ new,
      answer now cache (message new transID userCmd stockID userID) = some (.reply q.text)
  quoted : Quoted w q
  missed : ∃ k, quoteAddress (requestLine stockID userID) = some k ∧ ∀ now cache,
    cached now (cache k) = false → ∃ bytes,
      (answer now cache (message false transID userCmd stockID userID)).bind Answer.bytes = some bytes ∧
      ∀ (c : Client) replies, ∃ c' : Client, c.qcr w (some bytes :: replies) = c'.qcr w replies ∧
        c'.stockObj = c.stockObj

/-! ### Numbers -/

theorem strtoll_digits {s : CStr} (hne : s ≠ []) (hs : s.all Char.isDigit) (hmax : val s < 2 ^ 63) :
    strtoll s = val s := by
  obtain ⟨c, cs, rfl⟩ := List.exists_cons_of_ne_nil hne
  have hall : ∀ x ∈ c :: cs, x.isDigit = true := List.all_eq_true.mp hs
  have hc := hall c List.mem_cons_self
  have hspace : ¬ isspace c = true := by
    obtain ⟨hord, hlo, -⟩ := ord_digit hc
    simp only [isspace, hord, Bool.or_eq_true, Bool.and_eq_true, decide_eq_true_eq]
    rintro (rfl | h)
    · exact absurd hc (by decide)
    · omega
  have htake : (c :: cs).takeWhile Char.isDigit = c :: cs := List.takeWhile_eq_self_iff.mpr hall
  rw [strtoll, List.dropWhile_cons_of_neg hspace]
  split
  · rename_i h
    rw [(List.cons.inj h).1] at hc
    exact absurd hc (by decide)
  · rename_i h
    rw [(List.cons.inj h).1] at hc
    exact absurd hc (by decide)
  · rw [htake]
    omega

/-- What is printed unsigned is read signed, up to the greatest `long long`. -/
theorem strtoll_llu {x : ℤ} (h₀ : 0 ≤ x) (hmax : x < 2 ^ 63) : strtoll (llu x) = x := by
  have hval : val (llu x) = x.toNat := by
    rw [llu, val_toDigits, Int.emod_eq_of_lt h₀ (by omega)]
  have hread : strtoll (llu x) = val (llu x) :=
    strtoll_digits Nat.toDigits_ne_nil (all_isDigit_toDigits _) (by omega)
  rw [hread, hval]
  omega

theorem llu_ne {d : Char} (hd : d.isDigit = false) (x : ℤ) : ∀ c ∈ llu x, c ≠ d := by
  rintro c hc rfl
  have hdigit := List.all_eq_true.mp (all_isDigit_toDigits _) c hc
  rw [hd] at hdigit
  exact Bool.noConfusion hdigit

/-! ### Texts in the buffers -/

theorem sprintf_eq_some {text : CStr} {bytes : List Char} :
    sprintf text = some bytes ↔ text.length < 200 ∧ bytes = text ++ [nul] := by
  unfold sprintf
  split_ifs with h
  · simp [h, eq_comm]
  · simp [h]

/-- A text is found in the buffer, whatever was there. -/
theorem recv_text (buf : List Char) {text : CStr} (hlen : text.length < 200) :
    ∃ r, recv buf (text ++ [nul]) = text ++ nul :: r := by
  have htake : (text ++ [nul]).take 200 = text ++ [nul] := by
    refine List.take_of_length_le ?_
    rw [List.length_append, List.length_singleton]
    omega
  refine ⟨buf.drop (text ++ [nul]).length, ?_⟩
  rw [recv, htake, List.append_assoc]
  rfl

theorem delimSep_eq {text : CStr} (hne : text ≠ []) (delim : Char) :
    delimSepNoCpy (some text) delim = Web.explode delim text := by
  cases text with
  | nil => exact absurd rfl hne
  | cons x s => rfl

theorem Conn.receive_text (c : Conn) {text : CStr} (hlen : text.length < 200) (hne : text ≠ [])
    (hnul : ∀ x ∈ text, x ≠ nul) (hfields : (Web.explode '|' text).length ≤ 4) : ∃ buf,
    c.receive (text ++ [nul]) = some ⟨buf, (Web.explode '|' text).map some ++
      c.messageSep.drop (Web.explode '|' text).length⟩ := by
  obtain ⟨r, hr⟩ := recv_text c.clientMessage hlen
  have htext : cstr (text ++ nul :: r) 0 = text := cstr_eq (p := []) rfl rfl hnul
  refine ⟨text ++ nul :: r, ?_⟩
  rw [Conn.receive, hr, htext, delimSep_eq hne, if_neg]
  rintro (h | h)
  · exact h (by simp)
  · omega

/-- What `delimSepNoCpy` leaves in the buffer, and the fields that are found through the pointers. -/
theorem Client.receive_fields (c : Client) {bytes text r : List Char}
    (hr : recv c.response bytes = text ++ nul :: r) (hne : text ≠ []) (hnul : ∀ x ∈ text, x ≠ nul)
    (hfields : (Web.explode ',' text).length ≤ 5) : ∃ c' : Client,
    c.receive bytes = some (c', (Web.explode ',' text).length) ∧ c'.stockObj = c.stockObj ∧
      ∀ i < (Web.explode ',' text).length, c'.str i = (Web.explode ',' text)[i]? := by
  have htext : cstr (text ++ nul :: r) 0 = text := cstr_eq (p := []) rfl rfl hnul
  have hjoin : text.map (fun x => if x = ',' then nul else x) =
      [nul].intercalate (Web.explode ',' text) :=
    (intercalate_delimLoop ',' text [] fun _ h => absurd h List.not_mem_nil).symm
  refine ⟨⟨[nul].intercalate (Web.explode ',' text) ++ nul :: r,
    (offsets (Web.explode ',' text) 0).map some ++ c.quoteResponse.drop (Web.explode ',' text).length,
    c.stockObj⟩, ?_, rfl, fun i hi => cstr_field (p := []) (r := nul :: r) (by simp) ?_
      (c.quoteResponse.drop (Web.explode ',' text).length) hi⟩
  · rw [Client.receive, hr, htext, delimSep_eq hne, if_neg, hjoin, List.drop_left]
    rintro (h | h)
    · exact h (by simp)
    · omega
  · intro f hf x hx
    have hmem : x ∈ [] ++ text := mem_delimLoop hf hx
    exact hnul x hmem

theorem Client.receive_text (c : Client) {text : CStr} (hlen : text.length < 200) (hne : text ≠ [])
    (hnul : ∀ x ∈ text, x ≠ nul) (hfields : (Web.explode ',' text).length ≤ 5) : ∃ c' : Client,
    c.receive (text ++ [nul]) = some (c', (Web.explode ',' text).length) ∧ c'.stockObj = c.stockObj ∧
      ∀ i < (Web.explode ',' text).length, c'.str i = (Web.explode ',' text)[i]? := by
  obtain ⟨r, hr⟩ := recv_text c.response hlen
  exact c.receive_fields hr hne hnul hfields

/-! ### The request -/

/-- The request, as it is sent first or for a new quote. -/
theorem sent_request (new : Bool) (transID userCmd : CStr) (stockID : StockID) (userID : UserID) :
    sent new (quoteRequest transID userCmd stockID userID ++ [nul]) =
      ((if new then "QNR".toList else "QCR".toList) ++ '|' :: (transID ++ '|' :: (userCmd ++ '|' ::
        requestLine stockID userID))) ++ [nul] := by
  unfold quoteRequest
  cases new <;> simp [sent]

theorem requestLine_ne {d : Char} (hupper : isUpper d = false) (halnum : isAlnum d = false)
    (hcomma : ',' ≠ d) (hend : '\n' ≠ d) (stockID : StockID) (userID : UserID) :
    ∀ x ∈ requestLine stockID userID, x ≠ d := by
  intro x hx
  have hstock := List.all_eq_true.mp stockID.all_isUpper
  have huser := List.all_eq_true.mp userID.all_isAlnum
  simp only [requestLine, List.mem_append, List.mem_cons, List.not_mem_nil, or_false] at hx
  rcases hx with (hx | rfl | hx) | rfl
  · exact ne_of_upper hupper (hstock x hx)
  · exact hcomma
  · exact ne_of_alnum halnum (huser x hx)
  · exact hend

theorem length_request (transID userCmd : CStr) (stockID : StockID) (userID : UserID) :
    (quoteRequest transID userCmd stockID userID).length = transID.length + userCmd.length + 21 := by
  unfold quoteRequest
  simp only [requestLine, List.length_append, List.length_cons, List.length_nil,
    stockID.length_eq, userID.length_eq]
  rw [show "QCR|".toList.length = 4 from rfl]
  omega

/-- There is a slot for every stock. -/
theorem quoteAddress_request (stockID : StockID) (userID : UserID) :
    ∃ k, quoteAddress (requestLine stockID userID) = some k := by
  obtain ⟨a, b, c, hstr⟩ := List.length_eq_three.mp stockID.length_eq
  have hupper := stockID.all_isUpper
  rw [hstr] at hupper
  simp only [List.all_cons, List.all_nil, Bool.and_true, Bool.and_eq_true, isUpper,
    decide_eq_true_eq] at hupper
  obtain ⟨⟨ha, ha'⟩, ⟨hb, hb'⟩, hc, hc'⟩ := hupper
  have hcoord : ∀ x : Char, 64 < ord x → ord x < 91 →
      0 ≤ (ord x - 65).tmod charLim ∧ (ord x - 65).tmod charLim < 26 := by
    intro x h h'
    rw [charLim, Int.tmod_eq_emod_of_nonneg (by omega)]
    omega
  have h₁ := hcoord a ha ha'
  have h₂ := hcoord b hb hb'
  have h₃ := hcoord c hc hc'
  rw [requestLine, hstr, quoteAddress]
  simp only [List.cons_append]
  refine ⟨_, if_pos ?_⟩
  simp only [show charLim = 26 from rfl] at h₁ h₂ h₃ ⊢
  omega

/-- The load balancer takes a request apart, if there is room for it. -/
theorem request_iff {transID userCmd : CStr} (htrans : ∀ x ∈ transID, x ≠ '|' ∧ x ≠ nul)
    (hcmd : ∀ x ∈ userCmd, x ≠ '|' ∧ x ≠ nul) (stockID : StockID) (userID : UserID) :
    (∃ bytes, sprintf (quoteRequest transID userCmd stockID userID) = some bytes ∧
      ∀ new (c : Conn), (c.receive (sent new bytes)).bind Conn.message =
        some (message new transID userCmd stockID userID)) ↔ transID.length + userCmd.length ≤ 178 := by
  have hlength := length_request transID userCmd stockID userID
  constructor
  · rintro ⟨bytes, h, -⟩
    have hfits := (sprintf_eq_some.mp h).1
    omega
  · intro hroom
    have hfits : (quoteRequest transID userCmd stockID userID).length < 200 := by omega
    refine ⟨_, sprintf_eq_some.mpr ⟨hfits, rfl⟩, fun new c => ?_⟩
    rw [sent_request, message]
    have hline : ∀ x ∈ requestLine stockID userID, x ≠ '|' ∧ x ≠ nul := fun x hx =>
      ⟨requestLine_ne (by decide) (by decide) (by decide) (by decide) stockID userID x hx,
        requestLine_ne (by decide) (by decide) (by decide) (by decide) stockID userID x hx⟩
    have htag : ∀ x ∈ if new then "QNR".toList else "QCR".toList, x ≠ '|' ∧ x ≠ nul := by
      cases new <;> simp [nul]
    have hlen : (if new then "QNR".toList else "QCR".toList).length = 3 := by cases new <;> rfl
    generalize (if new then "QNR".toList else "QCR".toList) = tag at htag hlen ⊢
    have hfields : Web.explode '|' (tag ++ '|' :: (transID ++ '|' :: (userCmd ++ '|' ::
        requestLine stockID userID))) = [tag, transID, userCmd, requestLine stockID userID] := by
      rw [Web.explode_append fun x hx => (htag x hx).1, Web.explode_append fun x hx => (htrans x hx).1,
        Web.explode_append fun x hx => (hcmd x hx).1, Web.explode_none fun x hx => (hline x hx).1]
    have htext : ∀ x ∈ tag ++ '|' :: (transID ++ '|' :: (userCmd ++ '|' :: requestLine stockID userID)),
        x ≠ nul := by
      intro x hx
      simp only [List.mem_append, List.mem_cons] at hx
      rcases hx with hx | rfl | hx | rfl | hx | rfl | hx
      · exact (htag x hx).2
      · decide
      · exact (htrans x hx).2
      · decide
      · exact (hcmd x hx).2
      · decide
      · exact (hline x hx).2
    have hsame : (tag ++ '|' :: (transID ++ '|' :: (userCmd ++ '|' ::
        requestLine stockID userID))).length < 200 := by
      simp only [requestLine, List.length_append, List.length_cons, List.length_nil, hlen,
        stockID.length_eq, userID.length_eq]
      omega
    obtain ⟨buf, hrecv⟩ := c.receive_text hsame (by simp) htext (by rw [hfields]; simp)
    rw [hrecv, hfields]
    rfl

/-! ### The replies -/

/-- The strings of a reply's text, of which none has a comma or a NUL. -/
def QuoteContents.Plain (q : QuoteContents) : Prop :=
  ∀ f ∈ [q.price, q.sym, q.user, q.key], ∀ x ∈ f, x ≠ ',' ∧ x ≠ nul

theorem QuoteContents.explode_text {q : QuoteContents} (hq : q.Plain) :
    Web.explode ',' q.text = [q.price, q.sym, q.user, llu q.ts, q.key] := by
  simp only [QuoteContents.text, List.append_assoc, List.cons_append]
  rw [Web.explode_append fun x hx => (hq q.price (by simp) x hx).1,
    Web.explode_append fun x hx => (hq q.sym (by simp) x hx).1,
    Web.explode_append fun x hx => (hq q.user (by simp) x hx).1,
    Web.explode_append (llu_ne (by decide) q.ts), Web.explode_none fun x hx => (hq q.key (by simp) x hx).1]

theorem QuoteContents.text_ne_nul {q : QuoteContents} (hq : q.Plain) : ∀ x ∈ q.text, x ≠ nul := by
  intro x hx
  simp only [QuoteContents.text, List.append_assoc, List.cons_append, List.mem_append, List.mem_cons] at hx
  rcases hx with hx | rfl | hx | rfl | hx | rfl | hx | rfl | hx
  · exact (hq q.price (by simp) x hx).2
  · decide
  · exact (hq q.sym (by simp) x hx).2
  · decide
  · exact (hq q.user (by simp) x hx).2
  · decide
  · exact llu_ne (by decide) q.ts x hx
  · decide
  · exact (hq q.key (by simp) x hx).2

/-- The key decides whether a quote can be taken. -/
theorem Client.receive_quote (w : ℤ → ℤ) (c : Client) {q : QuoteContents} (hq : q.Plain)
    (hfits : q.text.length < 200) (h₀ : 0 ≤ q.ts) (hmax : q.ts < 2 ^ 63) : ∃ c' : Client,
    c.receive (q.text ++ [nul]) = some (c', 5) ∧
      c'.quote w = if q.key.length < 57 then some { c' with stockObj := ⟨str2price w q.price, q.ts, q.key⟩ }
        else none := by
  have hfields := QuoteContents.explode_text hq
  have hne : q.text ≠ [] := by simp [QuoteContents.text]
  obtain ⟨c', hrecv, -, hstr⟩ :=
    c.receive_text hfits hne (QuoteContents.text_ne_nul hq) (by rw [hfields]; simp)
  rw [hfields] at hrecv hstr
  refine ⟨c', hrecv, ?_⟩
  have h₀' : c'.str 0 = some q.price := hstr 0 (by simp)
  have h₃ : c'.str 3 = some (llu q.ts) := hstr 3 (by simp)
  have h₄ : c'.str 4 = some q.key := hstr 4 (by simp)
  rw [Client.quote, h₀', h₃, h₄]
  simp only
  rw [strtoll_llu h₀ hmax]

theorem quoted_iff (w : ℤ → ℤ) {q : QuoteContents} (hq : q.Plain) (hfits : q.text.length < 200)
    (h₀ : 0 ≤ q.ts) (hmax : q.ts < 2 ^ 63) : Quoted w q ↔ q.key.length ≤ 56 := by
  constructor
  · rintro ⟨bytes, hbytes, h⟩
    obtain ⟨-, rfl⟩ := sprintf_eq_some.mp hbytes
    obtain ⟨c', hrecv, hquote⟩ := Client.receive_quote w ⟨[], [], 0, 0, []⟩ hq hfits h₀ hmax
    obtain ⟨c'', hqnr, -⟩ := (h ⟨[], [], 0, 0, []⟩).2
    rw [Client.qnr, hrecv, Option.bind_some] at hqnr
    simp only [hquote] at hqnr
    by_contra hlong
    rw [if_neg (by omega)] at hqnr
    exact absurd hqnr (by simp)
  · intro hkey
    refine ⟨_, sprintf_eq_some.mpr ⟨hfits, rfl⟩, fun c => ?_⟩
    obtain ⟨c', hrecv, hquote⟩ := Client.receive_quote w c hq hfits h₀ hmax
    rw [if_pos (by omega)] at hquote
    constructor
    · intro replies
      refine ⟨{ c' with stockObj := ⟨str2price w q.price, q.ts, q.key⟩ }, ?_, rfl⟩
      rw [Client.qcr, hrecv, Option.bind_some]
      simp only [hquote]
      rfl
    · refine ⟨{ c' with stockObj := ⟨str2price w q.price, q.ts, q.key⟩ }, ?_, rfl⟩
      rw [Client.qnr, hrecv, Option.bind_some]
      exact hquote

/-- A reply of fewer fields than a quote has leaves the stock as it is. -/
theorem Client.qcr_short (w : ℤ → ℤ) (c : Client) (replies : List (Option (List Char))) {text : CStr}
    (hlen : text.length < 200) (hne : text ≠ []) (hnul : ∀ x ∈ text, x ≠ nul)
    (hfields : (Web.explode ',' text).length < 5) : ∃ c' : Client,
    c.qcr w (some (text ++ [nul]) :: replies) = c'.qcr w replies ∧ c'.stockObj = c.stockObj := by
  obtain ⟨c', hrecv, hstock, -⟩ := c.receive_text hlen hne hnul (by omega)
  refine ⟨c', ?_, hstock⟩
  rw [Client.qcr, hrecv, Option.bind_some]
  simp only
  rw [if_neg (by omega)]

/-- A request and a quote get across exactly if the request fits the buffer it is written to, and the key
    the one it is copied to. -/
theorem roundTrip_iff (w : ℤ → ℤ) {transID userCmd : CStr} (htrans : ∀ x ∈ transID, x ≠ '|' ∧ x ≠ nul)
    (hcmd : ∀ x ∈ userCmd, x ≠ '|' ∧ x ≠ nul) (stockID : StockID) (userID : UserID)
    {q : QuoteContents} (hq : q.Plain) (hfits : q.text.length < 200) (h₀ : 0 ≤ q.ts)
    (hmax : q.ts < 2 ^ 63) : RoundTrip w transID userCmd stockID userID q ↔
      transID.length + userCmd.length ≤ 178 ∧ q.key.length ≤ 56 := by
  rw [← request_iff htrans hcmd stockID userID, ← quoted_iff w hq hfits h₀ hmax]
  constructor
  · intro h
    exact ⟨h.request, h.quoted⟩
  · rintro ⟨hrequest, hquoted⟩
    obtain ⟨k, hk⟩ := quoteAddress_request stockID userID
    refine ⟨hrequest, ⟨k, hk, ?_⟩, hquoted, k, hk, ?_⟩
    · intro now cache hslot hcached new
      rw [hslot] at hcached
      rw [answer, message, hk, Option.bind_some, hslot]
      cases new <;> simp [hcached]
    · intro now cache hcached
      refine ⟨"NOT".toList ++ [nul], ?_, fun c replies => c.qcr_short w replies (by decide) (by decide)
        (by simp [nul]) (by decide)⟩
      rw [answer, message, hk, Option.bind_some]
      simp only [hcached]
      rfl

def aQuote : QuoteContents := ⟨"12.50".toList, "ABC".toList, "aaaaaaaaaa".toList, 1000, "k".toList⟩

theorem plain_aQuote : aQuote.Plain := by simp [QuoteContents.Plain, aQuote, nul]

theorem roundTrip_aQuote : RoundTrip wrap64 "7".toList "QUOTE".toList stockABC aUser aQuote :=
  (roundTrip_iff wrap64 (by simp [nul]) (by simp [nul]) stockABC aUser plain_aQuote (by decide)
    (by decide) (by decide)).mpr ⟨by decide, by decide⟩

/-- A number of 174 digits comes in a message of 199 bytes, which the server accepts, and has a request of
    200 characters. -/
theorem longNumber : ((ConnBuf.init []).receive ("WSC|".toList ++ List.replicate 174 '1' ++
      "|QUOTE|aaaaaaaaaa,ABC".toList)).map (fun r =>
        match r.2 with | .command t u _ c => (t, u, c) | _ => ([], [], none)) =
        some (List.replicate 174 '1', "QUOTE".toList, some "ABC".toList) ∧
    ¬ ∀ (transID userCmd : CStr), (∀ x ∈ transID, x ≠ '|' ∧ x ≠ nul) →
      (∀ x ∈ userCmd, x ≠ '|' ∧ x ≠ nul) → ∀ (stockID : StockID) (userID : UserID) (q : QuoteContents),
      q.Plain → q.text.length < 200 → 0 ≤ q.ts → q.ts < 2 ^ 63 →
        RoundTrip wrap64 transID userCmd stockID userID q := by
  refine ⟨by decide +kernel, fun h => ?_⟩
  have hdigits : ∀ x ∈ List.replicate 174 '1', x ≠ '|' ∧ x ≠ nul := by
    intro x hx
    rw [List.eq_of_mem_replicate hx]
    decide
  have hcmd : ∀ x ∈ "QUOTE".toList, x ≠ '|' ∧ x ≠ nul := by simp [nul]
  have hround := h _ "QUOTE".toList hdigits hcmd stockABC aUser aQuote plain_aQuote (by decide) (by decide)
    (by decide)
  have hroom := (request_iff hdigits hcmd stockABC aUser).mp hround.request
  rw [List.length_replicate] at hroom
  exact absurd hroom (by decide)

end TradeC.Quotes
