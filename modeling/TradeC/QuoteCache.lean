import TradeC.Quotes
import TradeC.Lib.Run
import TradeC.Lib.Threads

/-! The quote cache of the load balancer, with its threads.

    `connection_handler` reads the slot of a stock under the slot's mutex, and hands a request for which the
    slot is too old to a `quote_handler`, which holds that mutex while it asks, frees the four texts of the slot
    and sets its five fields one by one. A step is one operation on a mutex, a semaphore or the queue, one
    `recv` or `send`, one `sprintf`, one `free` or one assignment. The queue is the list that its operations
    make of it (`Queues`). The threads that ask the quote server are not here: a round is one step, in which the
    handler has split the whole of one reply that nobody writes to meanwhile, and the wait for the others of the
    round is in the step that gives the slot's mutex back, which may come at any time later. -/

namespace TradeC.QuoteCache
open Run Threads Quotes

/-- The pointers of `quote_contents`. -/
inductive Field where
  | price
  | sym
  | user
  | key
  deriving DecidableEq

/-- What such a pointer points to: nothing, a text of its own, or memory that has been given back. -/
inductive Ptr where
  | null
  | str (text : CStr)
  | freed
  deriving DecidableEq

/-- `quote_contents`, without its mutex. -/
structure Cell where
  ptr : Field → Ptr
  ts : ℤ

/-- A message with the time at which it came, and the slot that is looked at. -/
structure Asked where
  message : Message
  time : ℤ
  quoteAddress : ℕ

/-- `quote_queue_element`; `asked` is only recorded. -/
structure Element where
  request : CStr
  transID : CStr
  quoteAddress : ℕ
  response : Option ℕ
  returned : ℕ
  asked : Asked

/-- The element that a `quote_handler` works on, its slot, and `newQuote` without the time of the quote server;
    `rep`, the whole reply, is only recorded. -/
structure Work where
  quoteResp : ℕ
  q : ℕ
  rep : CStr
  price : CStr
  sym : CStr
  user : CStr
  key : CStr

def Work.text (x : Work) : Field → CStr
  | .price => x.price
  | .sym => x.sym
  | .user => x.user
  | .key => x.key

inductive Stmt where
  | free (f : Field)
  | assign (f : Field)
  -- q->ts = getmTS()
  | stamp
  -- free(newQuote[3])
  | freeTime
  deriving DecidableEq

/-- What is done with a reply. -/
def update : List Stmt :=
  [.free .price, .free .sym, .free .user, .free .key,
    .assign .price, .assign .sym, .assign .user, .stamp, .assign .key, .freeTime]

/-- Where a thread is. -/
inductive Pc where
  -- connection_handler
  | recv
  | lock (a : Asked)
  | check (a : Asked)
  | print (a : Asked) (q : ℕ) (hit : Option ℤ)
  | unlock (a : Asked) (q : ℕ) (reply : CStr)
  | unlockMiss (a : Asked)
  | qenq (a : Asked)
  | wait (a : Asked) (quoteResp : ℕ)
  | response (a : Asked) (quoteResp : ℕ)
  | free (a : Asked) (quoteResp q : ℕ)
  | relock (a : Asked) (q : ℕ)
  | send (a : Asked) (reply : CStr)
  | closed
  -- quote_handler
  | qdeq
  | qlock (quoteResp q : ℕ)
  | round (quoteResp q : ℕ)
  | update (x : Work) (rest : List Stmt)
  | post (x : Work)
  | release (q : ℕ)
  | giveUp (q : ℕ)
  | ended
  -- NULL or freed memory is used, or memory that was not allocated is written
  | fault

def Pc.ofQuoteHandler : Pc → Bool
  | .qdeq | .qlock .. | .round .. | .update .. | .post .. | .release .. | .giveUp .. | .ended => true
  | _ => false

/-- What is done to the cache as a whole: a message is answered by what is in the slot, a quote is stored, or
    a text is read that has been asked for. -/
inductive Op where
  | ask (now : ℤ) (m : Message) (answer : Answer)
  | store (q : ℕ) (quote : QuoteContents) (rep : CStr)
  | fetch (q : ℕ) (text : CStr)

structure State (ι : Type*) where
  pc : ι → Pc
  now : ℤ
  busy : ℕ → Option ι
  cell : ℕ → Cell
  element : ℕ → Option Element
  last : ℕ
  queue : List ℕ
  -- what is only recorded: the operations, and the replies
  ops : List Op
  replies : List (Asked × CStr)

/-- What comes from the network. -/
inductive Net where
  | none
  | failed
  | message (m : Message)
  | reply (rep : CStr)

inductive Event (ι : Type*) where
  | tick (ms : ℕ)
  | thread (i : ι) (net : Net)

deriving instance DecidableEq for Answer

/-- The texts of a slot, if it has all of them. -/
def Cell.quote (c : Cell) : Option QuoteContents :=
  match c.ptr .price, c.ptr .sym, c.ptr .user, c.ptr .key with
  | .str price, .str sym, .str user, .str key => some ⟨price, sym, user, c.ts, key⟩
  | _, _, _, _ => none

/-- One statement, at a time; no result where freed memory is freed. -/
def Stmt.run (x : Work) (now : ℤ) (c : Cell) : Stmt → Option Cell
  | .free f =>
    match c.ptr f with
    | .null => some c
    | .str _ => some { c with ptr := Function.update c.ptr f .freed }
    | .freed => none
  | .assign f => some { c with ptr := Function.update c.ptr f (.str (x.text f)) }
  | .stamp => some { c with ts := now }
  | .freeTime => some c

/-- The two commands, by their first three characters. -/
def QCR (m : Message) : Prop := m.internalCmd.take 3 = "QCR".toList
def QNR (m : Message) : Prop := m.internalCmd.take 3 = "QNR".toList

instance (m : Message) : Decidable (QCR m) := inferInstanceAs (Decidable (_ = _))
instance (m : Message) : Decidable (QNR m) := inferInstanceAs (Decidable (_ = _))

namespace State
variable {ι : Type*} [DecidableEq ι] (s : State ι) (i : ι)

def goto (p : Pc) : State ι := { s with pc := Function.update s.pc i p }

def record (op : Op) : State ι := { s with ops := s.ops ++ [op] }

/-- `pthread_mutex_lock(&q->busy)`. -/
def acquire (q : ℕ) : Option (State ι) :=
  if (s.busy q).isNone then some { s with busy := Function.update s.busy q (some i) } else none

def giveBack (q : ℕ) : State ι := { s with busy := Function.update s.busy q none }

def setElement (e : ℕ) (el : Option Element) : State ι :=
  { s with element := Function.update s.element e el }

def connStep (net : Net) : Pc → Option (State ι)
  | .recv =>
    match net with
    | .message m => some <|
      match Quotes.quoteAddress m.request with
      | none => s.goto i .fault
      | some q =>
        if QCR m ∨ QNR m then s.goto i (.lock ⟨m, s.now, q⟩)
        else (s.record (.ask s.now m (.reply "ERR".toList))).goto i (.send ⟨m, s.now, q⟩ "ERR".toList)
    | _ => some (s.goto i .closed)
  | .lock a => (s.acquire i a.quoteAddress).map (·.goto i (.check a))
  | .check a => some <|
    if s.now - (s.cell a.quoteAddress).ts < quoteTo then s.goto i (.print a a.quoteAddress (some s.now))
    else if QCR a.message then
      (s.record (.ask s.now a.message (.reply "NOT".toList))).goto i (.unlock a a.quoteAddress "NOT".toList)
    else
      (s.record (.ask s.now a.message (.qenq a.message.request a.message.transID a.quoteAddress))).goto i
        (.unlockMiss a)
  -- sprintf to a buffer of 200 bytes
  | .print a q hit => some <|
    match (s.cell q).quote with
    | none => s.goto i .fault
    | some quote =>
      if quote.text.length < 200 then
        (s.record (hit.elim (.fetch q quote.text) fun now => .ask now a.message (.reply quote.text))).goto i
          (.unlock a q quote.text)
      else s.goto i .fault
  | .unlock a q reply => some ((s.giveBack q).goto i (.send a reply))
  | .unlockMiss a => some ((s.giveBack a.quoteAddress).goto i (.qenq a))
  | .qenq a => some <|
    { s.setElement s.last (some ⟨a.message.request, a.message.transID, a.quoteAddress, none, 0, a⟩) with
      last := s.last + 1
      queue := s.queue ++ [s.last] }.goto i (.wait a s.last)
  -- sem_wait(&quoteResp->returned)
  | .wait a e =>
    match s.element e with
    | none => some (s.goto i .fault)
    | some el =>
      if el.returned = 0 then none
      else some ((s.setElement e (some { el with returned := el.returned - 1 })).goto i (.response a e))
  | .response a e => some <|
    match (s.element e).bind Element.response with
    | none => s.goto i .fault
    | some q => s.goto i (.free a e q)
  | .free a e q => some <|
    if (s.element e).isSome then (s.setElement e none).goto i (.relock a q) else s.goto i .fault
  | .relock a q => (s.acquire i q).map (·.goto i (.print a q none))
  | .send a reply => some <|
    match net with
    | .failed => s.goto i .closed
    | _ => { s with replies := s.replies ++ [(a, reply)] }.goto i .recv
  | _ => none

def quoteStep (net : Net) : Pc → Option (State ι)
  | .qdeq =>
    match s.queue with
    | [] => none
    | e :: queue => some <|
      match s.element e with
      | none => s.goto i .fault
      | some el => { s with queue }.goto i (.qlock e el.quoteAddress)
  | .qlock e q => (s.acquire i q).map (·.goto i (.round e q))
  -- newQuote has room for five fields, and all of them are used
  | .round e q =>
    match net with
    | .reply rep => some <| s.goto i <|
      match delimSepNoCpy (some rep) ',' with
      | [] => .giveUp q
      | [price, sym, user, _, key] => .update ⟨e, q, rep, price, sym, user, key⟩ QuoteCache.update
      | _ => .fault
    | _ => none
  | .update x (stmt :: rest) => some <|
    match stmt.run x s.now (s.cell x.q) with
    | none => s.goto i .fault
    | some c => { s with cell := Function.update s.cell x.q c }.goto i (.update x rest)
  -- quoteResp->response = q
  | .update x [] => some <|
    match s.element x.quoteResp with
    | none => s.goto i .fault
    | some el =>
      { s.setElement x.quoteResp (some { el with response := some x.q }) with
        ops := s.ops ++ ((s.cell x.q).quote.map (Op.store x.q · x.rep)).toList }.goto i (.post x)
  | .post x => some <|
    match s.element x.quoteResp with
    | none => s.goto i .fault
    | some el =>
      (s.setElement x.quoteResp (some { el with returned := el.returned + 1 })).goto i (.release x.q)
  | .release q => some ((s.giveBack q).goto i .qdeq)
  | .giveUp q => some ((s.giveBack q).goto i .ended)
  | _ => none

end State

attribute [local simp] State.connStep State.quoteStep

variable {ι : Type*} [DecidableEq ι]

/-- A step of the clock or of a thread; there is no result where the thread has to wait. -/
def step (s : State ι) : Event ι → Option (State ι)
  | .tick ms => some { s with now := s.now + ms }
  | .thread i net =>
    if (s.pc i).ofQuoteHandler then s.quoteStep i net (s.pc i) else s.connStep i net (s.pc i)

/-- The slots are zeroes, the queue is one blank element. -/
def initial (isQuoteHandler : ι → Bool) (now : ℤ) : State ι where
  pc i := if isQuoteHandler i then .qdeq else .recv
  now := now
  busy _ := none
  cell _ := ⟨fun _ => .null, 0⟩
  element _ := none
  last := 0
  queue := []
  ops := []
  replies := []

/-! ### The cache as one object -/

abbrev Cache := ℕ → Option QuoteContents

/-- The texts of a quote are fields of one reply, all but the time of the quote server. -/
def PartsOf (rep : CStr) (quote : QuoteContents) : Prop :=
  (delimSepNoCpy (some rep) ',').eraseIdx 3 = [quote.price, quote.sym, quote.user, quote.key]

instance (rep : CStr) (quote : QuoteContents) : Decidable (PartsOf rep quote) :=
  inferInstanceAs (Decidable (_ = _))

/-- What an operation does to the whole cache; there is no result where it is none that the cache allows. -/
def serve (c : Cache) : Op → Option Cache
  | .ask now m a => if answer now c m = some a then some c else none
  | .store q quote rep =>
    if PartsOf rep quote ∧ ∀ old ∈ c q, old.ts ≤ quote.ts then some (Function.update c q (some quote)) else none
  | .fetch q text => if (c q).map QuoteContents.text = some text then some c else none

/-- The stock that a request names. -/
def stockOf (request : CStr) : CStr := request.takeWhile (· ≠ ',')

/-- The fields of a reply of the quote server: none, or five for the stock that was asked, whose texts leave room
    for the longest time. -/
def ReplyFor (quoteResp : Option Element) : List CStr → Prop
  | [] => True
  | [price, sym, user, _, key] => (∀ el ∈ quoteResp, sym = stockOf el.request) ∧
      price.length + sym.length + user.length + key.length + 24 < 200
  | _ => False

/-- A request names a stock, and the quote server answers it. -/
def Proper (s : State ι) : Event ι → Prop
  | .thread i net =>
    match net, s.pc i with
    | .message m, _ => validStockID (stockOf m.request) = true
    | .reply rep, .round e _ => ReplyFor (s.element e) (delimSepNoCpy (some rep) ',')
    | _, _ => True
  | .tick _ => True

/-! ### The places -/

namespace Pc

/-- The slot whose mutex is held. -/
def holds : Pc → Option ℕ
  | check a | unlockMiss a => some a.quoteAddress
  | print _ q _ | unlock _ q _ | round _ q | release q | giveUp q => some q
  | update x _ | post x => some x.q
  | _ => none

/-- The element that a `connection_handler` has enqueued. -/
def waits : Pc → Option ℕ
  | wait _ e | response _ e | free _ e _ => some e
  | _ => none

/-- The element that a `quote_handler` has to answer. -/
def serves : Pc → Option ℕ
  | qlock e _ | round e _ => some e
  | update x _ | post x => some x.quoteResp
  | _ => none

end Pc

/-! ### What is known at a place -/

def Cell.of : Option QuoteContents → Cell
  | none => ⟨fun _ => .null, 0⟩
  | some quote => ⟨fun
    | .price => .str quote.price
    | .sym => .str quote.sym
    | .user => .str quote.user
    | .key => .str quote.key, quote.ts⟩

structure Asked.Ok (a : Asked) (now : ℤ) : Prop where
  time : a.time ≤ now
  stock : validStockID (stockOf a.message.request) = true
  slot : Quotes.quoteAddress a.message.request = some a.quoteAddress

structure Element.Ok (el : Element) (now : ℤ) (q : ℕ) : Prop where
  asked : el.asked.Ok now
  request : el.request = el.asked.message.request
  slot : el.quoteAddress = q
  askedSlot : el.asked.quoteAddress = q

/-- The slot was too old for the request. -/
def Missed (ops : List Op) (a : Asked) : Prop :=
  ∃ now, a.time ≤ now ∧
    .ask now a.message (.qenq a.message.request a.message.transID a.quoteAddress) ∈ ops

/-- A quote that was stored after the request came. -/
def Renewed (c : Cache) (a : Asked) : Prop := ∃ quote, c a.quoteAddress = some quote ∧ a.time ≤ quote.ts

/-- The reply is the answer of the cache, at a time after the request came; or what is read from it later, where
    the answer was to ask for a new quote. -/
def Answered (ops : List Op) (a : Asked) (reply : CStr) : Prop :=
  (∃ now, a.time ≤ now ∧ .ask now a.message (.reply reply) ∈ ops) ∨
    .fetch a.quoteAddress reply ∈ ops ∧ Missed ops a

/-- The reply is a quote that has been stored for the stock of the request, less than `quoteTo` before it
    came or after it. -/
def Recent (ops : List Op) (a : Asked) (reply : CStr) : Prop :=
  ∃ quote rep, .store a.quoteAddress quote rep ∈ ops ∧ reply = quote.text ∧
    quote.sym = stockOf a.message.request ∧ a.time - quote.ts < quoteTo

/-- What is known of a reply. -/
structure Replied (ops : List Op) (a : Asked) (reply : CStr) : Prop where
  answered : Answered ops a reply
  recent : Recent ops a reply ∨ reply = "NOT".toList ∧ QCR a.message ∨
    reply = "ERR".toList ∧ ¬ QCR a.message ∧ ¬ QNR a.message

section
variable (c : Cache) (s : State ι)

/-- The slot has the quote of the cache. -/
def View (q : ℕ) : Prop := s.cell q = Cell.of (c q)

/-- The element is to be answered. -/
def Pending (e q : ℕ) : Prop := ∃ el, s.element e = some el ∧ el.returned = 0 ∧ el.Ok s.now q

/-- A reply that can be stored for the element. -/
structure Work.Ok (x : Work) : Prop where
  parts : (delimSepNoCpy (some x.rep) ',').eraseIdx 3 = [x.price, x.sym, x.user, x.key]
  stock : ∀ el ∈ s.element x.quoteResp, x.sym = stockOf el.request
  room : x.price.length + x.sym.length + x.user.length + x.key.length + 24 < 200

/-- The statements that have been executed, and the time that they have set. -/
def Updating (x : Work) (rest : List Stmt) : Prop :=
  ∃ done now, done ++ rest = update ∧ now ≤ s.now ∧
    exec (Stmt.run x now) (Cell.of (c x.q)) done = some (s.cell x.q) ∧
    (.stamp ∈ done → (∀ el ∈ s.element x.quoteResp, el.asked.time ≤ now) ∧ ∀ old ∈ c x.q, old.ts ≤ now)

def Pc.Tells : Pc → Prop
  | .recv | .closed | .qdeq | .ended => True
  | .lock a => a.Ok s.now ∧ (QCR a.message ∨ QNR a.message)
  | .check a => a.Ok s.now ∧ (QCR a.message ∨ QNR a.message) ∧ View c s a.quoteAddress
  | .print a q hit => a.Ok s.now ∧ q = a.quoteAddress ∧ View c s q ∧ ∃ quote, c q = some quote ∧
      match hit with
      | some now => (QCR a.message ∨ QNR a.message) ∧ a.time ≤ now ∧ now - quote.ts < quoteTo
      | none => Missed s.ops a ∧ a.time ≤ quote.ts
  | .unlock a q reply => View c s q ∧ Replied s.ops a reply
  | .unlockMiss a => a.Ok s.now ∧ Missed s.ops a ∧ View c s a.quoteAddress
  | .qenq a => a.Ok s.now ∧ Missed s.ops a
  | .wait a e => Missed s.ops a ∧ ∃ el, s.element e = some el ∧ el.Ok s.now a.quoteAddress ∧ el.asked = a ∧
      (el.returned = 0 ∨ el.returned = 1 ∧ el.response = some a.quoteAddress ∧ Renewed c a)
  | .response a e => a.Ok s.now ∧ Missed s.ops a ∧ Renewed c a ∧
      ∃ el, s.element e = some el ∧ el.response = some a.quoteAddress
  | .free a e q => a.Ok s.now ∧ Missed s.ops a ∧ Renewed c a ∧ q = a.quoteAddress ∧ (s.element e).isSome
  | .relock a q => a.Ok s.now ∧ Missed s.ops a ∧ Renewed c a ∧ q = a.quoteAddress
  | .send a reply => Replied s.ops a reply
  | .qlock e q => Pending s e q
  | .round e q => Pending s e q ∧ View c s q
  | .update x rest => Pending s x.quoteResp x.q ∧ x.Ok s ∧ Updating c s x rest
  | .post x => View c s x.q ∧ ∃ el, s.element x.quoteResp = some el ∧ el.returned = 0 ∧ el.Ok s.now x.q ∧
      el.response = some x.q ∧ Renewed c el.asked
  | .release q | .giveUp q => View c s q
  | .fault => False

/-- What is known of what the threads share. -/
structure Shared : Prop where
  view : ∀ q, s.busy q = none → View c s q
  stored : ∀ q quote, c q = some quote → (∃ rep, .store q quote rep ∈ s.ops) ∧ quote.ts ≤ s.now ∧
    validStockID quote.sym = true ∧ Quotes.quoteAddress quote.sym = some q ∧ quote.text.length < 200
  served : exec serve (fun _ => none) s.ops = some c
  replies : ∀ r ∈ s.replies, Replied s.ops r.1 r.2
  now : quoteTo ≤ s.now
  queued : ∀ e ∈ s.queue, ∃ q, Pending s e q
  last : ∀ e, s.last ≤ e → s.element e = none

end

/-- Who waits for an element, and who has it. -/
structure Elements (pc : ι → Pc) (queue : List ℕ) : Prop where
  waits : ∀ i j e, (pc i).waits = some e → (pc j).waits = some e → i = j
  serves : ∀ i j e, (pc i).serves = some e → (pc j).serves = some e → i = j
  nodup : queue.Nodup
  queued : ∀ e ∈ queue, ∀ i, (pc i).serves ≠ some e
  waited : ∀ e, (e ∈ queue ∨ ∃ i, (pc i).serves = some e) → ∃ i a, pc i = .wait a e

structure Inv (c : Cache) (s : State ι) : Prop where
  locks : ∀ q, Guards s.pc (fun p => p.holds = some q) (s.busy q)
  elements : Elements s.pc s.queue
  tells : ∀ i, (s.pc i).Tells c s
  shared : Shared c s

/-! ### The sequential cache -/

section
variable {c : Cache} {a : Asked} {quote : QuoteContents} {now : ℤ}

theorem answer_eq {m : Message} {q : ℕ} (hq : Quotes.quoteAddress m.request = some q) (t : ℤ) :
    answer t c m =
      if QCR m then
        if cached t (c q) then (c q).map fun quote => .reply quote.text else some (.reply "NOT".toList)
      else if QNR m then
        if cached t (c q) then (c q).map fun quote => .reply quote.text
        else some (.qenq m.request m.transID q)
      else some (.reply "ERR".toList) := by
  rw [answer, hq]
  rfl

theorem answer_hit (ha : a.Ok now) {t : ℤ} (hcmd : QCR a.message ∨ QNR a.message)
    (hquote : c a.quoteAddress = some quote) (ht : t - quote.ts < quoteTo) :
    serve c (.ask t a.message (.reply quote.text)) = some c := by
  have hcached : cached t (c a.quoteAddress) = true := by
    rw [cached, hquote]
    exact decide_eq_true ht
  refine if_pos ?_
  rw [answer_eq ha.slot]
  by_cases hqcr : QCR a.message
  · rw [if_pos hqcr, if_pos hcached, hquote, Option.map_some]
  · rw [if_neg hqcr, if_pos (hcmd.resolve_left hqcr), if_pos hcached, hquote, Option.map_some]

theorem answer_not (ha : a.Ok now) {t : ℤ} (hcmd : QCR a.message)
    (ht : cached t (c a.quoteAddress) = false) :
    serve c (.ask t a.message (.reply "NOT".toList)) = some c := by
  refine if_pos ?_
  rw [answer_eq ha.slot, if_pos hcmd, ht]
  rfl

theorem answer_qenq (ha : a.Ok now) {t : ℤ} (hcmd : QNR a.message) (hnot : ¬ QCR a.message)
    (ht : cached t (c a.quoteAddress) = false) :
    serve c (.ask t a.message (.qenq a.message.request a.message.transID a.quoteAddress)) = some c := by
  refine if_pos ?_
  rw [answer_eq ha.slot, if_neg hnot, if_pos hcmd, ht]
  rfl

theorem answer_err {m : Message} {q : ℕ} (hq : Quotes.quoteAddress m.request = some q)
    (hcmd : ¬ (QCR m ∨ QNR m)) (t : ℤ) : serve c (.ask t m (.reply "ERR".toList)) = some c := by
  obtain ⟨hqcr, hqnr⟩ := not_or.mp hcmd
  refine if_pos ?_
  rw [answer_eq hq, if_neg hqcr, if_neg hqnr]

theorem serve_fetch {q : ℕ} (hquote : c q = some quote) : serve c (.fetch q quote.text) = some c :=
  if_pos (by rw [hquote, Option.map_some])

end

/-! ### The slots -/

theorem quoteAddress_three {x y z : Char} (hx : isUpper x = true) (hy : isUpper y = true)
    (hz : isUpper z = true) (rest : CStr) : Quotes.quoteAddress (x :: y :: z :: rest) =
      some (((ord x - 65) * 26 + (ord y - 65)) * 26 + (ord z - 65)).toNat := by
  simp only [isUpper, Bool.and_eq_true, decide_eq_true_eq] at hx hy hz
  have hcoord : ∀ {d : Char}, 64 < ord d → ord d < 91 → (ord d - 65).tmod charLim = ord d - 65 := by
    intro d h h'
    rw [charLim, Int.tmod_eq_of_lt (by omega) (by omega)]
  have hpow : charLim ^ 3 = 17576 := rfl
  simp only [Quotes.quoteAddress, List.cons_append, hcoord hx.1 hx.2, hcoord hy.1 hy.2, hcoord hz.1 hz.2, hpow]
  rw [if_pos (by simp only [charLim]; omega)]
  rfl

theorem validStockID_iff {s : CStr} : validStockID s = true ↔
    ∃ x y z, s = [x, y, z] ∧ isUpper x = true ∧ isUpper y = true ∧ isUpper z = true := by
  constructor
  · intro h
    simp only [validStockID, Bool.and_eq_true, beq_iff_eq] at h
    obtain ⟨x, y, z, rfl⟩ := List.length_eq_three.mp h.1
    exact ⟨x, y, z, rfl, by simpa using h.2⟩
  · rintro ⟨x, y, z, rfl, hx, hy, hz⟩
    simp [validStockID, hx, hy, hz]

/-- The slot of a request is that of its stock. -/
theorem quoteAddress_stockOf {request : CStr} (h : validStockID (stockOf request) = true) :
    Quotes.quoteAddress request = Quotes.quoteAddress (stockOf request) := by
  obtain ⟨x, y, z, hs, hx, hy, hz⟩ := validStockID_iff.mp h
  have hrequest : request = x :: y :: z :: request.dropWhile (· ≠ ',') := by
    conv_lhs => rw [← List.takeWhile_append_dropWhile (p := (· ≠ ',')) (l := request)]
    rw [show request.takeWhile (· ≠ ',') = [x, y, z] from hs]
    rfl
  rw [hs, quoteAddress_three hx hy hz, hrequest, quoteAddress_three hx hy hz]

/-- Two stocks have two slots. -/
theorem stock_unique {s s' : CStr} {q : ℕ} (hs : validStockID s = true) (hs' : validStockID s' = true)
    (hq : Quotes.quoteAddress s = some q) (hq' : Quotes.quoteAddress s' = some q) : s = s' := by
  obtain ⟨x, y, z, rfl, hx, hy, hz⟩ := validStockID_iff.mp hs
  obtain ⟨x', y', z', rfl, hx', hy', hz'⟩ := validStockID_iff.mp hs'
  rw [quoteAddress_three hx hy hz] at hq
  rw [quoteAddress_three hx' hy' hz'] at hq'
  have heq := Option.some.inj (hq.trans hq'.symm)
  simp only [isUpper, Bool.and_eq_true, decide_eq_true_eq] at hx hy hz hx' hy' hz'
  have h₁ : ord x = ord x' := by omega
  have h₂ : ord y = ord y' := by omega
  have h₃ : ord z = ord z' := by omega
  rw [ord_inj h₁, ord_inj h₂, ord_inj h₃]

theorem Cell.of_ts (o : Option QuoteContents) : (Cell.of o).ts = o.elim 0 QuoteContents.ts := by
  cases o <;> rfl

theorem length_llu (x : ℤ) : (llu x).length ≤ 20 :=
  Nat.toDigits_length 10 _ 20 (by decide) (by omega)

theorem length_text (quote : QuoteContents) : quote.text.length =
    quote.price.length + quote.sym.length + quote.user.length + quote.key.length + (llu quote.ts).length + 4 := by
  simp only [QuoteContents.text, List.length_append, List.length_cons]
  omega

/-! ### The statements -/

/-- The quote that the statements store. -/
def Work.quote (x : Work) (now : ℤ) : QuoteContents := ⟨x.price, x.sym, x.user, now, x.key⟩

/-- All of them, from whatever quote was in the slot. -/
theorem run_update (x : Work) (now : ℤ) (o : Option QuoteContents) :
    exec (Stmt.run x now) (Cell.of o) update = some (Cell.of (some (x.quote now))) := by
  have hptr : ∀ p : Field → Ptr, (fun f => Function.update (Function.update (Function.update
      (Function.update p .price (.str x.price)) .sym (.str x.sym)) .user (.str x.user)) .key (.str x.key) f) =
        (Cell.of (some (x.quote now))).ptr := by
    intro p
    funext f
    cases f <;> rfl
  cases o with
  | none => exact congrArg (fun p => some (⟨p, now⟩ : Cell)) (hptr _)
  | some quote => exact congrArg (fun p => some (⟨p, now⟩ : Cell)) (hptr _)

/-- Only one of them reads the clock. -/
theorem run_congr {x : Work} {now now' : ℤ} : ∀ {done : List Stmt} {c : Cell}, .stamp ∉ done →
    exec (Stmt.run x now) c done = exec (Stmt.run x now') c done := by
  intro done
  induction done with
  | nil =>
    intro c _
    rfl
  | cons stmt done ih =>
    intro c h
    have hstmt : Stmt.run x now c stmt = Stmt.run x now' c stmt := by
      cases stmt with
      | stamp => exact absurd List.mem_cons_self h
      | free f | assign f | freeTime => rfl
    rw [exec_cons, exec_cons, hstmt]
    exact congrArg _ (funext fun c' => ih fun hmem => h (List.mem_cons_of_mem _ hmem))

/-! ### What a step of another thread leaves -/

section
variable {ops ops' : List Op} {a : Asked} {reply : CStr} {c c' : Cache} {s s' : State ι}

theorem Asked.Ok.mono {now now' : ℤ} (h : a.Ok now) (hnow : now ≤ now') : a.Ok now' :=
  ⟨h.time.trans hnow, h.stock, h.slot⟩

theorem Element.Ok.mono {el : Element} {q : ℕ} {now now' : ℤ} (h : el.Ok now q) (hnow : now ≤ now') :
    el.Ok now' q :=
  ⟨h.asked.mono hnow, h.request, h.slot, h.askedSlot⟩

theorem Missed.mono (h : Missed ops a) (hops : ops ⊆ ops') : Missed ops' a := by
  obtain ⟨now, htime, hmem⟩ := h
  exact ⟨now, htime, hops hmem⟩

theorem Replied.mono (h : Replied ops a reply) (hops : ops ⊆ ops') : Replied ops' a reply where
  answered := by
    rcases h.answered with ⟨now, htime, hmem⟩ | ⟨hmem, hmissed⟩
    · exact .inl ⟨now, htime, hops hmem⟩
    · exact .inr ⟨hops hmem, hmissed.mono hops⟩
  recent := by
    rcases h.recent with ⟨quote, rep, hmem, hquote⟩ | hother
    · exact .inl ⟨quote, rep, hops hmem, hquote⟩
    · exact .inr hother

/-- What a step of another thread may do to what a thread at `p` knows. -/
structure Frame (c c' : Cache) (s s' : State ι) (p : Pc) : Prop where
  now : s.now ≤ s'.now
  ops : s.ops ⊆ s'.ops
  quotes : ∀ q quote, c q = some quote → ∃ quote', c' q = some quote' ∧ quote.ts ≤ quote'.ts
  held : ∀ q, p.holds = some q → c' q = c q ∧ s'.cell q = s.cell q
  element : ∀ e, p.waits = some e ∨ p.serves = some e → s'.element e = s.element e

theorem Renewed.mono (h : Renewed c a)
    (hquotes : ∀ q quote, c q = some quote → ∃ quote', c' q = some quote' ∧ quote.ts ≤ quote'.ts) :
    Renewed c' a := by
  obtain ⟨quote, hquote, htime⟩ := h
  obtain ⟨quote', hquote', hle⟩ := hquotes _ _ hquote
  exact ⟨quote', hquote', htime.trans hle⟩

omit [DecidableEq ι] in
theorem View.frame {q : ℕ} (h : View c s q) (hq : c' q = c q ∧ s'.cell q = s.cell q) : View c' s' q := by
  rw [View, hq.1, hq.2]
  exact h

omit [DecidableEq ι] in
theorem Pending.frame {e q : ℕ} (h : Pending s e q) (hnow : s.now ≤ s'.now)
    (he : s'.element e = s.element e) : Pending s' e q := by
  obtain ⟨el, hel, hreturned, hok⟩ := h
  exact ⟨el, he.trans hel, hreturned, hok.mono hnow⟩

omit [DecidableEq ι] in
theorem Pc.Tells.frame {p : Pc} (h : p.Tells c s) (hf : Frame c c' s s' p) : p.Tells c' s' := by
  cases p with
  | recv | closed | qdeq | ended => trivial
  | lock a => exact ⟨h.1.mono hf.now, h.2⟩
  | check a => exact ⟨h.1.mono hf.now, h.2.1, h.2.2.frame (hf.held _ rfl)⟩
  | print a q hit =>
    obtain ⟨hok, hq, hview, quote, hquote, hhit⟩ := h
    refine ⟨hok.mono hf.now, hq, hview.frame (hf.held q rfl), quote, (hf.held q rfl).1.trans hquote, ?_⟩
    cases hit with
    | some now => exact hhit
    | none => exact ⟨hhit.1.mono hf.ops, hhit.2⟩
  | unlock a q reply => exact ⟨h.1.frame (hf.held q rfl), h.2.mono hf.ops⟩
  | unlockMiss a => exact ⟨h.1.mono hf.now, h.2.1.mono hf.ops, h.2.2.frame (hf.held _ rfl)⟩
  | qenq a => exact ⟨h.1.mono hf.now, h.2.mono hf.ops⟩
  | wait a e =>
    obtain ⟨hmissed, el, hel, hok, hasked, hreturned⟩ := h
    refine ⟨hmissed.mono hf.ops, el, (hf.element e (.inl rfl)).trans hel, hok.mono hf.now, hasked, ?_⟩
    rcases hreturned with hzero | ⟨hone, hresponse, hrenewed⟩
    · exact .inl hzero
    · exact .inr ⟨hone, hresponse, hrenewed.mono hf.quotes⟩
  | response a e =>
    obtain ⟨hok, hmissed, hrenewed, el, hel, hresponse⟩ := h
    exact ⟨hok.mono hf.now, hmissed.mono hf.ops, hrenewed.mono hf.quotes, el,
      (hf.element e (.inl rfl)).trans hel, hresponse⟩
  | free a e q =>
    obtain ⟨hok, hmissed, hrenewed, hq, hel⟩ := h
    refine ⟨hok.mono hf.now, hmissed.mono hf.ops, hrenewed.mono hf.quotes, hq, ?_⟩
    rwa [hf.element e (.inl rfl)]
  | relock a q => exact ⟨h.1.mono hf.now, h.2.1.mono hf.ops, h.2.2.1.mono hf.quotes, h.2.2.2⟩
  | send a reply => exact Replied.mono h hf.ops
  | qlock e q => exact Pending.frame h hf.now (hf.element e (.inr rfl))
  | round e q => exact ⟨h.1.frame hf.now (hf.element e (.inr rfl)), h.2.frame (hf.held q rfl)⟩
  | update x rest =>
    obtain ⟨hpending, hok, done, now, hdone, hnow, hrun, hstamp⟩ := h
    obtain ⟨hc, hcell⟩ := hf.held x.q rfl
    have hel := hf.element x.quoteResp (.inr rfl)
    refine ⟨hpending.frame hf.now hel, ⟨hok.parts, fun el h => hok.stock el (hel ▸ h), hok.room⟩, done, now, hdone,
      hnow.trans hf.now, ?_, ?_⟩
    · rw [hc, hcell]
      exact hrun
    · rw [hc, hel]
      exact hstamp
  | post x =>
    obtain ⟨hview, el, hel, hreturned, hok, hresponse, hrenewed⟩ := h
    exact ⟨hview.frame (hf.held _ rfl), el, (hf.element _ (.inr rfl)).trans hel, hreturned, hok.mono hf.now,
      hresponse, hrenewed.mono hf.quotes⟩
  | release q | giveUp q => exact View.frame h (hf.held q rfl)
  | fault => exact h.elim

theorem quotes_refl (c : Cache) :
    ∀ q quote, c q = some quote → ∃ quote', c q = some quote' ∧ quote.ts ≤ quote'.ts :=
  fun _ quote h => ⟨quote, h, le_rfl⟩

end

/-! ### Mutexes -/

section
variable {pc : ι → Pc} {busy : ℕ → Option ι} {i : ι} {p' : Pc} {q : ℕ}

theorem locks_skip (h : ∀ q, Guards pc (fun p => p.holds = some q) (busy q)) (hp : p'.holds = (pc i).holds) :
    ∀ q, Guards (Function.update pc i p') (fun p => p.holds = some q) (busy q) :=
  fun q => (h q).skip (by rw [hp])

theorem locks_acquire (h : ∀ q, Guards pc (fun p => p.holds = some q) (busy q)) (hfree : busy q = none)
    (hi : (pc i).holds = none) (hp : p'.holds = some q) : ∀ q', Guards (Function.update pc i p')
      (fun p => p.holds = some q') (Function.update busy q (some i) q') := by
  intro q'
  by_cases hq : q' = q
  · subst hq
    rw [Function.update_self]
    exact (hfree ▸ h q').lock hp
  · rw [Function.update_of_ne hq]
    exact (h q').skip (by rw [hp, hi]; simp [Ne.symm hq])

theorem locks_giveBack (h : ∀ q, Guards pc (fun p => p.holds = some q) (busy q)) (hi : (pc i).holds = some q)
    (hp : p'.holds = none) : ∀ q', Guards (Function.update pc i p') (fun p => p.holds = some q')
      (Function.update busy q none q') := by
  intro q'
  by_cases hq : q' = q
  · subst hq
    rw [Function.update_self]
    exact (h q').unlock hi (by simp [hp])
  · rw [Function.update_of_ne hq]
    exact (h q').skip (by rw [hp, hi]; simp [Ne.symm hq])

end

/-! ### Elements -/

namespace Elements
variable {pc : ι → Pc} {queue : List ℕ} {i : ι} {p' : Pc} {e : ℕ}

/-- A thread has no new element; if it has waited for one, that has been answered. -/
theorem move (h : Elements pc queue) (hwaits : ∀ e, p'.waits = some e → (pc i).waits = some e)
    (hserves : ∀ e, p'.serves = some e → (pc i).serves = some e)
    (hleft : ∀ a e, pc i = .wait a e → e ∉ queue ∧ ∀ j, (pc j).serves ≠ some e) :
    Elements (Function.update pc i p') queue := by
  have hwaits' : ∀ j e, (Function.update pc i p' j).waits = some e → (pc j).waits = some e := by
    intro j e hj
    by_cases hji : j = i
    · subst hji
      rw [Function.update_self] at hj
      exact hwaits e hj
    · rwa [Function.update_of_ne hji] at hj
  have hserves' : ∀ j e, (Function.update pc i p' j).serves = some e → (pc j).serves = some e := by
    intro j e hj
    by_cases hji : j = i
    · subst hji
      rw [Function.update_self] at hj
      exact hserves e hj
    · rwa [Function.update_of_ne hji] at hj
  refine ⟨fun j k e hj hk => h.waits j k e (hwaits' j e hj) (hwaits' k e hk),
    fun j k e hj hk => h.serves j k e (hserves' j e hj) (hserves' k e hk), h.nodup,
    fun e he j hj => h.queued e he j (hserves' j e hj), fun e he => ?_⟩
  obtain ⟨j, a, hj⟩ := h.waited e (he.imp_right fun ⟨j, hj⟩ => ⟨j, hserves' j e hj⟩)
  have hji : j ≠ i := by
    rintro rfl
    obtain ⟨hqueue, hnone⟩ := hleft a e hj
    rcases he with he | ⟨k, hk⟩
    · exact hqueue he
    · exact hnone k (hserves' k e hk)
  exact ⟨j, a, by rwa [Function.update_of_ne hji]⟩

theorem enqueue (h : Elements pc queue) (a : Asked) (hi : (pc i).waits = none) (hi' : (pc i).serves = none)
    (hqueue : e ∉ queue) (hwaits : ∀ j, (pc j).waits ≠ some e) (hserves : ∀ j, (pc j).serves ≠ some e) :
    Elements (Function.update pc i (.wait a e)) (queue ++ [e]) := by
  have hother : ∀ {j}, j ≠ i → Function.update pc i (.wait a e) j = pc j :=
    fun hj => Function.update_of_ne hj _ _
  have hserves' : ∀ j e', (Function.update pc i (.wait a e) j).serves = some e' → (pc j).serves = some e' := by
    intro j e' hj
    by_cases hji : j = i
    · subst hji
      rw [Function.update_self] at hj
      cases hj
    · rwa [hother hji] at hj
  have hwaits' : ∀ j e', (Function.update pc i (.wait a e) j).waits = some e' →
      j = i ∧ e' = e ∨ j ≠ i ∧ (pc j).waits = some e' := by
    intro j e' hj
    by_cases hji : j = i
    · subst hji
      rw [Function.update_self] at hj
      exact .inl ⟨rfl, (Option.some.inj hj).symm⟩
    · rw [hother hji] at hj
      exact .inr ⟨hji, hj⟩
  refine ⟨fun j k e' hj hk => ?_, fun j k e' hj hk => h.serves j k e' (hserves' j e' hj) (hserves' k e' hk),
    List.nodup_append.mpr ⟨h.nodup, List.nodup_singleton e, ?_⟩, fun e' he' j hj => ?_, fun e' he' => ?_⟩
  · rcases hwaits' j e' hj with ⟨rfl, rfl⟩ | ⟨-, hold⟩
    · rcases hwaits' k e' hk with ⟨rfl, -⟩ | ⟨-, hold'⟩
      · rfl
      · exact absurd hold' (hwaits k)
    · rcases hwaits' k e' hk with ⟨rfl, rfl⟩ | ⟨-, hold'⟩
      · exact absurd hold (hwaits j)
      · exact h.waits j k e' hold hold'
  · rintro e₁ h₁ e₂ h₂ rfl
    rw [List.mem_singleton.mp h₂] at h₁
    exact hqueue h₁
  · have hj' := hserves' j e' hj
    rcases List.mem_append.mp he' with he' | he'
    · exact h.queued e' he' j hj'
    · rw [List.mem_singleton.mp he'] at hj'
      exact hserves j hj'
  · by_cases hee : e' = e
    · subst hee
      exact ⟨i, a, Function.update_self ..⟩
    · have hold : e' ∈ queue ∨ ∃ j, (pc j).serves = some e' := by
        rcases he' with he' | ⟨j, hj⟩
        · exact .inl ((List.mem_append.mp he').resolve_right fun h => hee (List.mem_singleton.mp h))
        · exact .inr ⟨j, hserves' j e' hj⟩
      obtain ⟨j, a', hj⟩ := h.waited e' hold
      have hji : j ≠ i := by
        rintro rfl
        rw [hj] at hi
        cases hi
      exact ⟨j, a', by rwa [hother hji]⟩

theorem take (h : Elements pc (e :: queue)) (hi : (pc i).waits = none) (hi' : (pc i).serves = none)
    (hp : p'.serves = some e) (hp' : p'.waits = none) : Elements (Function.update pc i p') queue := by
  obtain ⟨hnot, hnodup⟩ := List.nodup_cons.mp h.nodup
  have hwaits' : ∀ j e', (Function.update pc i p' j).waits = some e' → (pc j).waits = some e' := by
    intro j e' hj
    by_cases hji : j = i
    · subst hji
      rw [Function.update_self, hp'] at hj
      cases hj
    · rwa [Function.update_of_ne hji] at hj
  have hserves' : ∀ j e', (Function.update pc i p' j).serves = some e' →
      j = i ∧ e' = e ∨ j ≠ i ∧ (pc j).serves = some e' := by
    intro j e' hj
    by_cases hji : j = i
    · subst hji
      rw [Function.update_self, hp] at hj
      exact .inl ⟨rfl, (Option.some.inj hj).symm⟩
    · rw [Function.update_of_ne hji] at hj
      exact .inr ⟨hji, hj⟩
  have hfirst : ∀ j, (pc j).serves ≠ some e := h.queued e List.mem_cons_self
  refine ⟨fun j k e' hj hk => h.waits j k e' (hwaits' j e' hj) (hwaits' k e' hk), fun j k e' hj hk => ?_, hnodup,
    fun e' he' j hj => ?_, fun e' he' => ?_⟩
  · rcases hserves' j e' hj with ⟨rfl, rfl⟩ | ⟨-, hold⟩
    · rcases hserves' k e' hk with ⟨rfl, -⟩ | ⟨-, hold'⟩
      · rfl
      · exact absurd hold' (hfirst k)
    · rcases hserves' k e' hk with ⟨rfl, rfl⟩ | ⟨-, hold'⟩
      · exact absurd hold (hfirst j)
      · exact h.serves j k e' hold hold'
  · rcases hserves' j e' hj with ⟨-, rfl⟩ | ⟨-, hj⟩
    · exact hnot he'
    · exact h.queued e' (List.mem_cons_of_mem _ he') j hj
  · have hold : e' ∈ e :: queue ∨ ∃ j, (pc j).serves = some e' := by
      rcases he' with he' | ⟨j, hj⟩
      · exact .inl (List.mem_cons_of_mem _ he')
      · rcases hserves' j e' hj with ⟨-, rfl⟩ | ⟨-, hj⟩
        · exact .inl List.mem_cons_self
        · exact .inr ⟨j, hj⟩
    obtain ⟨j, a, hj⟩ := h.waited e' hold
    have hji : j ≠ i := by
      rintro rfl
      rw [hj] at hi
      cases hi
    exact ⟨j, a, by rwa [Function.update_of_ne hji]⟩

end Elements

/-! ### One step -/

section
variable {c c' : Cache} {s s₁ s' : State ι} {i : ι} {p p' : Pc}

/-- A step, from what it is to the mutexes, to the elements, to the thread itself, to the others and to what
    they share. -/
theorem Inv.moved (hpc : s₁.pc = s.pc)
    (hlocks : ∀ q, Guards (Function.update s.pc i p') (fun p => p.holds = some q) (s₁.busy q))
    (helements : Elements (Function.update s.pc i p') s₁.queue) (hself : p'.Tells c' s₁)
    (hothers : ∀ j, j ≠ i → (s.pc j).Tells c' s₁) (hshared : Shared c' s₁) : Inv c' (s₁.goto i p') := by
  have hgoto : ∀ p : Pc, p.Tells c' s₁ → p.Tells c' (s₁.goto i p') := fun p h =>
    h.frame ⟨le_rfl, fun _ => id, quotes_refl c', fun _ _ => ⟨rfl, rfl⟩, fun _ _ => rfl⟩
  rw [← hpc] at hlocks helements hothers
  refine ⟨hlocks, helements, fun j => hgoto _ ?_, ⟨hshared.view, hshared.stored, hshared.served,
    hshared.replies, hshared.now, hshared.queued, hshared.last⟩⟩
  change Pc.Tells c' s₁ (Function.update s₁.pc i p' j)
  by_cases hj : j = i
  · subst hj
    rwa [Function.update_self]
  · rw [Function.update_of_ne hj]
    exact hothers j hj

/-- The elements, where the thread gets none and does not wait for an answer. -/
theorem Inv.elements_move (hi : Inv c s) (hp : s.pc i = p) (hwaits : ∀ e, p'.waits = some e → p.waits = some e)
    (hserves : ∀ e, p'.serves = some e → p.serves = some e) (hnot : ∀ a e, p ≠ .wait a e) :
    Elements (Function.update s.pc i p') s.queue := by
  subst hp
  exact hi.elements.move hwaits hserves fun a e h => absurd h (hnot a e)

/-- A step of the thread alone. -/
theorem Inv.goto (hi : Inv c s) (hp : s.pc i = p) (hholds : p'.holds = p.holds)
    (hwaits : ∀ e, p'.waits = some e → p.waits = some e) (hserves : ∀ e, p'.serves = some e → p.serves = some e)
    (hnot : ∀ a e, p ≠ .wait a e) (hself : p'.Tells c s) : Inv c (s.goto i p') :=
  .moved rfl (locks_skip hi.locks (hp ▸ hholds)) (hi.elements_move hp hwaits hserves hnot) hself
    (fun j _ => hi.tells j) hi.shared

/-- `pthread_mutex_lock`: the slot has the quote of the cache. -/
theorem Inv.acquire {q : ℕ} (hi : Inv c s) (hp : s.pc i = p)
    (h : (s.acquire i q).map (·.goto i p') = some s') (hholds : p.holds = none) (hholds' : p'.holds = some q)
    (hwaits : ∀ e, p'.waits = some e → p.waits = some e)
    (hserves : ∀ e, p'.serves = some e → p.serves = some e) (hnot : ∀ a e, p ≠ .wait a e)
    (hself : View c s q → p'.Tells c s) : Inv c s' := by
  obtain ⟨s₁, hs₁, rfl⟩ := Option.map_eq_some_iff.mp h
  unfold State.acquire at hs₁
  split_ifs at hs₁ with hfree
  rw [Option.isNone_iff_eq_none] at hfree
  cases hs₁
  have hframe : ∀ p : Pc, Frame c c s { s with busy := Function.update s.busy q (some i) } p := fun p =>
    ⟨le_rfl, fun _ => id, quotes_refl c, fun _ _ => ⟨rfl, rfl⟩, fun _ _ => rfl⟩
  refine .moved rfl (locks_acquire hi.locks hfree (hp ▸ hholds) hholds')
    (hi.elements_move hp hwaits hserves hnot) ((hself (hi.shared.view q hfree)).frame (hframe _))
    (fun j _ => (hi.tells j).frame (hframe _)) { hi.shared with view := fun q' hq' => ?_ }
  refine hi.shared.view q' ?_
  by_cases hqq : q' = q
  · subst hqq
    exact hfree
  · change (Function.update s.busy q (some i)) q' = none at hq'
    rwa [Function.update_of_ne hqq] at hq'

/-- `pthread_mutex_unlock`. -/
theorem Inv.giveBack {q : ℕ} (hi : Inv c s) (hp : s.pc i = p) (hholds : p.holds = some q)
    (hholds' : p'.holds = none) (hwaits : ∀ e, p'.waits = some e → p.waits = some e)
    (hserves : ∀ e, p'.serves = some e → p.serves = some e) (hnot : ∀ a e, p ≠ .wait a e)
    (hview : View c s q) (hself : p'.Tells c s) : Inv c ((s.giveBack q).goto i p') := by
  have hframe : ∀ p : Pc, Frame c c s (s.giveBack q) p := fun p =>
    ⟨le_rfl, fun _ => id, quotes_refl c, fun _ _ => ⟨rfl, rfl⟩, fun _ _ => rfl⟩
  refine .moved rfl (locks_giveBack hi.locks (hp ▸ hholds) hholds')
    (hi.elements_move hp hwaits hserves hnot) (hself.frame (hframe _))
    (fun j _ => (hi.tells j).frame (hframe _)) { hi.shared with view := fun q' hq' => ?_ }
  by_cases hqq : q' = q
  · subst hqq
    exact hview
  · change (Function.update s.busy q none) q' = none at hq'
    rw [Function.update_of_ne hqq] at hq'
    exact hi.shared.view q' hq'

omit [DecidableEq ι] in
/-- What is only recorded: an operation that leaves the cache as it is. -/
theorem Inv.record {op : Op} (hi : Inv c s) (hop : serve c op = some c) : Inv c (s.record op) := by
  have hframe : ∀ p : Pc, Frame c c s (s.record op) p := fun p =>
    ⟨le_rfl, List.subset_append_left _ _, quotes_refl c, fun _ _ => ⟨rfl, rfl⟩, fun _ _ => rfl⟩
  have hmono : s.ops ⊆ (s.record op).ops := List.subset_append_left _ _
  refine ⟨hi.locks, hi.elements, fun j => (hi.tells j).frame (hframe _), { hi.shared with
    stored := fun q quote h => (hi.shared.stored q quote h).imp_left fun ⟨rep, h⟩ => ⟨rep, hmono h⟩
    served := ?_
    replies := fun r hr => (hi.shared.replies r hr).mono hmono }⟩
  change exec serve _ (s.ops ++ [op]) = some c
  rw [exec_append, hi.shared.served, Option.bind_some, exec_cons, hop, Option.bind_some, exec_nil]

/-- The mutexes, where none is taken or given back. -/
theorem Inv.locks_move (hi : Inv c s) (hp : s.pc i = p) (hholds : p'.holds = p.holds) :
    ∀ q, Guards (Function.update s.pc i p') (fun p => p.holds = some q) (s.busy q) :=
  locks_skip hi.locks (hp ▸ hholds)

omit [DecidableEq ι] in
/-- A write to an element that the thread has nothing to do with. -/
theorem setElement_other {e : ℕ} (el : Option Element) (hwaits : p.waits ≠ some e)
    (hserves : p.serves ≠ some e) (e' : ℕ) (h : p.waits = some e' ∨ p.serves = some e') :
    (s.setElement e el).element e' = s.element e' :=
  Function.update_of_ne (by
    rintro rfl
    exact h.elim hwaits hserves) _ _

omit [DecidableEq ι] in
theorem frame_setElement {e : ℕ} {el : Option Element} (hwaits : p.waits ≠ some e) (hserves : p.serves ≠ some e) :
    Frame c c s (s.setElement e el) p :=
  ⟨le_rfl, fun _ => id, quotes_refl c, fun _ _ => ⟨rfl, rfl⟩, setElement_other el hwaits hserves⟩

/-- A message comes. -/
theorem Inv.recv (hi : Inv c s) (hp : s.pc i = .recv) {m : Message}
    (hstock : validStockID (stockOf m.request) = true)
    (h : s.connStep i (.message m) .recv = some s') : Inv c s' := by
  obtain ⟨x, y, z, hs, hx, hy, hz⟩ := validStockID_iff.mp hstock
  have hq := quoteAddress_stockOf hstock
  rw [hs, quoteAddress_three hx hy hz] at hq
  simp only [State.connStep, hq, Option.some.injEq] at h
  have hok : Asked.Ok ⟨m, s.now, _⟩ s.now := ⟨le_rfl, hstock, hq⟩
  split_ifs at h with hcmd
  · subst h
    exact hi.goto hp rfl (fun _ h => by cases h) (fun _ h => by cases h) (fun _ _ h => by cases h) ⟨hok, hcmd⟩
  · subst h
    have hlast : .ask s.now m (.reply "ERR".toList) ∈ (s.record (.ask s.now m (.reply "ERR".toList))).ops :=
      List.mem_append_right _ (List.mem_singleton.mpr rfl)
    refine (hi.record (answer_err hq hcmd s.now)).goto hp rfl (fun _ h => by cases h) (fun _ h => by cases h)
      (fun _ _ h => by cases h) ⟨.inl ⟨s.now, le_rfl, hlast⟩, .inr (.inr ⟨rfl, not_or.mp hcmd⟩)⟩

/-- The age of the slot is looked at. -/
theorem Inv.check (hi : Inv c s) {a : Asked} (hp : s.pc i = .check a) {net : Net}
    (h : s.connStep i net (.check a) = some s') : Inv c s' := by
  obtain ⟨hok, hcmd, hview⟩ : Pc.Tells c s (.check a) := hp ▸ hi.tells i
  have hts : (s.cell a.quoteAddress).ts = (c a.quoteAddress).elim 0 QuoteContents.ts := by
    rw [hview, Cell.of_ts]
  simp only [State.connStep, Option.some.injEq] at h
  split_ifs at h with hrecent hqcr
  · subst h
    obtain ⟨quote, hquote⟩ : ∃ quote, c a.quoteAddress = some quote := by
      by_contra hnone
      rw [hts, Option.eq_none_iff_forall_ne_some.mpr fun quote h => hnone ⟨quote, h⟩] at hrecent
      have hnow := hi.shared.now
      simp only [Option.elim_none] at hrecent
      omega
    rw [hts, hquote] at hrecent
    exact hi.goto hp rfl (fun _ h => by cases h) (fun _ h => by cases h) (fun _ _ h => by cases h)
      ⟨hok, rfl, hview, quote, hquote, hcmd, hok.time, hrecent⟩
  all_goals
    have hold : cached s.now (c a.quoteAddress) = false := decide_eq_false (by rwa [← hts])
    subst h
  · have hlast : .ask s.now a.message (.reply "NOT".toList) ∈
        (s.record (.ask s.now a.message (.reply "NOT".toList))).ops :=
      List.mem_append_right _ (List.mem_singleton.mpr rfl)
    exact (hi.record (answer_not hok hqcr hold)).goto hp rfl (fun _ h => by cases h) (fun _ h => by cases h)
      (fun _ _ h => by cases h) ⟨hview, .inl ⟨s.now, hok.time, hlast⟩, .inr (.inl ⟨rfl, hqcr⟩)⟩
  · exact (hi.record (answer_qenq hok (hcmd.resolve_left hqcr) hqcr hold)).goto hp rfl (fun _ h => by cases h)
      (fun _ h => by cases h) (fun _ _ h => by cases h)
      ⟨hok, ⟨s.now, hok.time, List.mem_append_right _ (List.mem_singleton.mpr rfl)⟩, hview⟩

/-- The quote is printed. -/
theorem Inv.print (hi : Inv c s) {a : Asked} {q : ℕ} {hit : Option ℤ} (hp : s.pc i = .print a q hit) {net : Net}
    (h : s.connStep i net (.print a q hit) = some s') : Inv c s' := by
  obtain ⟨hok, rfl, hview, quote, hquote, hhit⟩ : Pc.Tells c s (.print a q hit) := hp ▸ hi.tells i
  obtain ⟨⟨rep, hstore⟩, -, hvalid, hslot, hroom⟩ := hi.shared.stored _ quote hquote
  have hcell : (s.cell a.quoteAddress).quote = some quote := by
    rw [hview, hquote]
    rfl
  have hsym : quote.sym = stockOf a.message.request :=
    stock_unique hvalid hok.stock hslot ((quoteAddress_stockOf hok.stock).symm.trans hok.slot)
  simp only [State.connStep, hcell, if_pos hroom, Option.some.injEq] at h
  subst h
  cases hit with
  | some now =>
    obtain ⟨hcmd, htime, hrecent⟩ := hhit
    have hlast : .ask now a.message (.reply quote.text) ∈ (s.record (.ask now a.message (.reply quote.text))).ops :=
      List.mem_append_right _ (List.mem_singleton.mpr rfl)
    refine (hi.record (answer_hit hok hcmd hquote hrecent)).goto hp rfl (fun _ h => by cases h)
      (fun _ h => by cases h) (fun _ _ h => by cases h) ⟨hview, .inl ⟨now, htime, hlast⟩, .inl ⟨quote, rep,
        List.mem_append_left _ hstore, rfl, hsym, by omega⟩⟩
  | none =>
    obtain ⟨hmissed, htime⟩ := hhit
    have hlast : .fetch a.quoteAddress quote.text ∈ (s.record (.fetch a.quoteAddress quote.text)).ops :=
      List.mem_append_right _ (List.mem_singleton.mpr rfl)
    have hquoteTo : (0 : ℤ) < quoteTo := by decide
    refine (hi.record (serve_fetch hquote)).goto hp rfl (fun _ h => by cases h)
      (fun _ h => by cases h) (fun _ _ h => by cases h) ⟨hview,
        .inr ⟨hlast, hmissed.mono (List.subset_append_left _ _)⟩, .inl ⟨quote, rep,
        List.mem_append_left _ hstore, rfl, hsym, by omega⟩⟩

/-- A request is enqueued. -/
theorem Inv.qenq (hi : Inv c s) {a : Asked} (hp : s.pc i = .qenq a) {net : Net}
    (h : s.connStep i net (.qenq a) = some s') : Inv c s' := by
  obtain ⟨hok, hmissed⟩ : Pc.Tells c s (.qenq a) := hp ▸ hi.tells i
  simp only [State.connStep, Option.some.injEq] at h
  subst h
  have hblank := hi.shared.last s.last le_rfl
  have hwaits : ∀ j, (s.pc j).waits ≠ some s.last := by
    intro j hj
    have hself := hi.tells j
    cases hpc : s.pc j <;> rw [hpc] at hj hself <;> cases hj
    · obtain ⟨-, el, hel, -⟩ := hself
      exact Option.some_ne_none el (hel.symm.trans hblank)
    · obtain ⟨-, -, -, el, hel, -⟩ := hself
      exact Option.some_ne_none el (hel.symm.trans hblank)
    · obtain ⟨-, -, -, -, hel⟩ := hself
      rw [hblank] at hel
      cases hel
  have hserves : ∀ j, (s.pc j).serves ≠ some s.last := fun j hj => by
    obtain ⟨i₀, a₀, hi₀⟩ := hi.elements.waited s.last (.inr ⟨j, hj⟩)
    exact hwaits i₀ (hi₀ ▸ rfl)
  have hqueue : s.last ∉ s.queue := fun hmem => by
    obtain ⟨i₀, a₀, hi₀⟩ := hi.elements.waited s.last (.inl hmem)
    exact hwaits i₀ (hi₀ ▸ rfl)
  set el : Element := ⟨a.message.request, a.message.transID, a.quoteAddress, none, 0, a⟩
  refine .moved rfl (hi.locks_move hp rfl)
    (hi.elements.enqueue a (hp ▸ rfl) (hp ▸ rfl) hqueue hwaits hserves)
    ⟨hmissed, el, Function.update_self .., ⟨hok, rfl, rfl, rfl⟩, rfl, .inl rfl⟩
    (fun j _ => (hi.tells j).frame ⟨le_rfl, fun _ => id, quotes_refl c, fun _ _ => ⟨rfl, rfl⟩,
      setElement_other (some el) (hwaits j) (hserves j)⟩)
    { hi.shared with queued := fun e he => ?_, last := fun e he => ?_ }
  · rcases List.mem_append.mp he with he | he
    · obtain ⟨q, hpending⟩ := hi.shared.queued e he
      exact ⟨q, hpending.frame le_rfl (Function.update_of_ne (ne_of_mem_of_not_mem he hqueue) _ _)⟩
    · rw [List.mem_singleton.mp he]
      exact ⟨a.quoteAddress, el, Function.update_self .., rfl, hok, rfl, rfl, rfl⟩
  · have hle : s.last + 1 ≤ e := he
    exact (Function.update_of_ne (by omega) _ _).trans (hi.shared.last e (by omega))

/-- The request has been answered. -/
theorem Inv.wait (hi : Inv c s) {a : Asked} {e : ℕ} (hp : s.pc i = .wait a e) {net : Net}
    (h : s.connStep i net (.wait a e) = some s') : Inv c s' := by
  obtain ⟨hmissed, el, hel, hok, hasked, hreturned⟩ : Pc.Tells c s (.wait a e) := hp ▸ hi.tells i
  simp only [State.connStep, hel] at h
  split_ifs at h with hzero
  obtain ⟨hone, hresponse, hrenewed⟩ := hreturned.resolve_left hzero
  cases h
  have hqueue : e ∉ s.queue := fun hmem => by
    obtain ⟨q, el', hel', hzero', -⟩ := hi.shared.queued e hmem
    rw [hel] at hel'
    cases hel'
    exact hzero hzero'
  have hserves : ∀ j, (s.pc j).serves ≠ some e := fun j hj => by
    have hpending : ∃ q, Pending s e q := by
      have hself := hi.tells j
      cases hpc : s.pc j <;> rw [hpc] at hj hself <;> cases hj
      · exact ⟨_, hself⟩
      · exact ⟨_, hself.1⟩
      · exact ⟨_, hself.1⟩
      · obtain ⟨-, el', hel', hzero', hok', -⟩ := hself
        exact ⟨_, el', hel', hzero', hok'⟩
    obtain ⟨q, el', hel', hzero', -⟩ := hpending
    rw [hel] at hel'
    cases hel'
    exact hzero hzero'
  have helements : Elements (Function.update s.pc i (.response a e)) s.queue :=
    hi.elements.move (fun _ h => hp ▸ h) (fun _ h => by cases h) fun a' e' h => by
      rw [hp] at h
      cases h
      exact ⟨hqueue, hserves⟩
  refine .moved rfl (hi.locks_move hp rfl) helements
    ⟨hasked ▸ hok.asked, hmissed, hrenewed, _, Function.update_self .., hresponse⟩
    (fun j hj => (hi.tells j).frame (frame_setElement
      (fun hw => hj (hi.elements.waits j i e hw (hp ▸ rfl))) (hserves j)))
    { hi.shared with queued := fun e' he' => ?_, last := fun e' he' => ?_ }
  · obtain ⟨q, hpending⟩ := hi.shared.queued e' he'
    exact ⟨q, hpending.frame le_rfl (Function.update_of_ne (ne_of_mem_of_not_mem he' hqueue) _ _)⟩
  · refine (Function.update_of_ne ?_ _ _).trans (hi.shared.last e' he')
    rintro rfl
    exact Option.some_ne_none el (hel.symm.trans (hi.shared.last e' he'))

/-- The element is given back. -/
theorem Inv.free (hi : Inv c s) {a : Asked} {e q : ℕ} (hp : s.pc i = .free a e q) {net : Net}
    (h : s.connStep i net (.free a e q) = some s') : Inv c s' := by
  obtain ⟨hok, hmissed, hrenewed, hq, hel⟩ : Pc.Tells c s (.free a e q) := hp ▸ hi.tells i
  simp only [State.connStep, if_pos hel, Option.some.injEq] at h
  subst h
  -- the thread that waits for an element that is to be answered is at its semaphore
  have hdone : ¬ (e ∈ s.queue ∨ ∃ j, (s.pc j).serves = some e) := fun hpending => by
    obtain ⟨j, a', hj⟩ := hi.elements.waited e hpending
    have hji := hi.elements.waits j i e (hj ▸ rfl) (hp ▸ rfl)
    rw [hji, hp] at hj
    cases hj
  obtain ⟨hqueue, hserves⟩ := not_or.mp hdone
  have hserves : ∀ j, (s.pc j).serves ≠ some e := fun j hj => hserves ⟨j, hj⟩
  refine .moved rfl (hi.locks_move hp rfl)
    (hi.elements_move hp (fun _ h => by cases h) (fun _ h => by cases h) fun _ _ h => by cases h)
    ⟨hok, hmissed, hrenewed, hq⟩ (fun j hj => (hi.tells j).frame (frame_setElement
      (fun hw => hj (hi.elements.waits j i e hw (hp ▸ rfl))) (hserves j)))
    { hi.shared with queued := fun e' he' => ?_, last := fun e' he' => ?_ }
  · obtain ⟨q', hpending⟩ := hi.shared.queued e' he'
    exact ⟨q', hpending.frame le_rfl (Function.update_of_ne (ne_of_mem_of_not_mem he' hqueue) _ _)⟩
  · change Function.update s.element e none e' = none
    by_cases hee : e' = e
    · rw [hee, Function.update_self]
    · rw [Function.update_of_ne hee]
      exact hi.shared.last e' he'

/-- One step of a `connection_handler`. -/
theorem Inv.connStep (hi : Inv c s) {net : Net} (hok : Proper s (.thread i net))
    (h : s.connStep i net (s.pc i) = some s') : Inv c s' := by
  have hself := hi.tells i
  cases hp : s.pc i with
  | recv =>
    rw [hp] at h
    cases net with
    | message m => exact hi.recv hp hok h
    | none | failed | reply rep =>
      cases h
      exact hi.goto hp rfl (fun _ h => by cases h) (fun _ h => by cases h) (fun _ _ h => by cases h) trivial
  | lock a =>
    rw [hp] at h hself
    exact hi.acquire hp h rfl rfl (fun _ h => by cases h) (fun _ h => by cases h) (fun _ _ h => by cases h)
      fun hview => ⟨hself.1, hself.2, hview⟩
  | check a => exact hi.check hp (hp ▸ h)
  | print a q hit => exact hi.print hp (hp ▸ h)
  | unlock a q reply =>
    rw [hp] at h hself
    cases h
    exact hi.giveBack hp rfl rfl (fun _ h => by cases h) (fun _ h => by cases h) (fun _ _ h => by cases h)
      hself.1 hself.2
  | unlockMiss a =>
    rw [hp] at h hself
    cases h
    exact hi.giveBack hp rfl rfl (fun _ h => by cases h) (fun _ h => by cases h) (fun _ _ h => by cases h)
      hself.2.2 ⟨hself.1, hself.2.1⟩
  | qenq a => exact hi.qenq hp (hp ▸ h)
  | wait a e => exact hi.wait hp (hp ▸ h)
  | response a e =>
    rw [hp] at h hself
    obtain ⟨hasked, hmissed, hrenewed, el, hel, hresponse⟩ := hself
    simp only [State.connStep, hel, Option.bind_some, hresponse, Option.some.injEq] at h
    subst h
    exact hi.goto hp rfl (fun _ h => h) (fun _ h => by cases h) (fun _ _ h => by cases h)
      ⟨hasked, hmissed, hrenewed, rfl, hel ▸ rfl⟩
  | free a e q => exact hi.free hp (hp ▸ h)
  | relock a q =>
    rw [hp] at h hself
    obtain ⟨hasked, hmissed, ⟨quote, hquote, htime⟩, rfl⟩ := hself
    exact hi.acquire hp h rfl rfl (fun _ h => by cases h) (fun _ h => by cases h) (fun _ _ h => by cases h)
      fun hview => ⟨hasked, rfl, hview, quote, hquote, hmissed, htime⟩
  | send a reply =>
    rw [hp] at h hself
    have hframe : ∀ p : Pc, Frame c c s { s with replies := s.replies ++ [(a, reply)] } p := fun p =>
      ⟨le_rfl, fun _ => id, quotes_refl c, fun _ _ => ⟨rfl, rfl⟩, fun _ _ => rfl⟩
    have hsent : Inv c { s with replies := s.replies ++ [(a, reply)] } := by
      refine ⟨hi.locks, hi.elements, fun j => (hi.tells j).frame (hframe _), { hi.shared with
        replies := fun r hr => ?_ }⟩
      rcases List.mem_append.mp hr with hr | hr
      · exact hi.shared.replies r hr
      · rw [List.mem_singleton.mp hr]
        exact hself
    cases net with
    | failed =>
      cases h
      exact hi.goto hp rfl (fun _ h => by cases h) (fun _ h => by cases h) (fun _ _ h => by cases h) trivial
    | none | message m | reply rep =>
      cases h
      exact hsent.goto hp rfl (fun _ h => by cases h) (fun _ h => by cases h) (fun _ _ h => by cases h) trivial
  | _ =>
    rw [hp] at h
    cases h

/-- A request is taken from the queue. -/
theorem Inv.qdeq (hi : Inv c s) (hp : s.pc i = .qdeq) {net : Net} (h : s.quoteStep i net .qdeq = some s') :
    Inv c s' := by
  cases hqueue : s.queue with
  | nil =>
    simp only [State.quoteStep, hqueue] at h
    cases h
  | cons e queue =>
    obtain ⟨q, el, hel, hreturned, hok⟩ := hi.shared.queued e (hqueue ▸ List.mem_cons_self)
    simp only [State.quoteStep, hqueue, hel, Option.some.injEq] at h
    subst h
    have helements : Elements (Function.update s.pc i (.qlock e el.quoteAddress)) queue :=
      (hqueue ▸ hi.elements).take (hp ▸ rfl) (hp ▸ rfl) rfl rfl
    refine .moved rfl (hi.locks_move hp rfl) helements ⟨el, hel, hreturned, hok.slot ▸ hok⟩
      (fun j _ => (hi.tells j).frame ⟨le_rfl, fun _ => id, quotes_refl c, fun _ _ => ⟨rfl, rfl⟩, fun _ _ => rfl⟩)
      { hi.shared with queued := fun e' he' => ?_ }
    exact hi.shared.queued e' (hqueue ▸ List.mem_cons_of_mem e he')

/-- A reply of the quote server. -/
theorem Inv.round (hi : Inv c s) {e q : ℕ} (hp : s.pc i = .round e q) {rep : CStr}
    (hok : Proper s (.thread i (.reply rep))) (h : s.quoteStep i (.reply rep) (.round e q) = some s') :
    Inv c s' := by
  obtain ⟨hpending, hview⟩ : Pc.Tells c s (.round e q) := hp ▸ hi.tells i
  simp only [Proper, hp, ReplyFor] at hok
  simp only [State.quoteStep, Option.some.injEq] at h
  subst h
  split at hok
  next =>
    exact hi.goto hp rfl (fun _ h => by cases h) (fun _ h => by cases h) (fun _ _ h => by cases h) hview
  next hfields =>
    exact hi.goto hp rfl (fun _ h => by cases h) (fun _ h => h) (fun _ _ h => by cases h)
      ⟨hpending, ⟨congrArg (List.eraseIdx · 3) hfields, hok.1, hok.2⟩, [], s.now, rfl, le_rfl, congrArg some hview.symm, fun h => by cases h⟩
  next => exact hok.elim

omit [DecidableEq ι] in
/-- The mutex of a slot keeps the others out of it. -/
theorem Inv.held_ne (hi : Inv c s) {q q' : ℕ} (hp : s.pc i = p) (hholds : p.holds = some q) {j : ι} (hj : j ≠ i)
    (hq' : (s.pc j).holds = some q') : q' ≠ q := by
  rintro rfl
  exact hj ((hi.locks q').excl hq' (hp ▸ hholds))

omit [DecidableEq ι] in
theorem Inv.busy_ne (hi : Inv c s) {q q' : ℕ} (hp : s.pc i = p) (hholds : p.holds = some q)
    (hfree : s.busy q' = none) : q' ≠ q := by
  rintro rfl
  have howner := (hi.locks q' i).mpr (hp ▸ hholds)
  rw [hfree] at howner
  cases howner

/-- A statement is executed. -/
theorem Inv.update (hi : Inv c s) {x : Work} {stmt : Stmt} {rest : List Stmt}
    (hp : s.pc i = .update x (stmt :: rest)) {net : Net}
    (h : s.quoteStep i net (.update x (stmt :: rest)) = some s') : Inv c s' := by
  obtain ⟨hpending, hok, done, now, hdone, hnow, hrun, hstamp⟩ : Pc.Tells c s (.update x (stmt :: rest)) :=
    hp ▸ hi.tells i
  obtain ⟨el, hel, hreturned, helOk⟩ := hpending
  -- the time that is set, by this statement if it is the one that does
  obtain ⟨now', hnow', hrun', hstmt, hstamp'⟩ : ∃ now' ≤ s.now,
      exec (Stmt.run x now') (Cell.of (c x.q)) done = some (s.cell x.q) ∧
      (∀ cell, Stmt.run x s.now cell stmt = Stmt.run x now' cell stmt) ∧
      (.stamp ∈ done ++ [stmt] →
        (∀ el ∈ s.element x.quoteResp, el.asked.time ≤ now') ∧ ∀ old ∈ c x.q, old.ts ≤ now') := by
    by_cases hs : stmt = .stamp
    · subst hs
      have hnot : .stamp ∉ done := fun hmem => by
        have hnodup : (done ++ .stamp :: rest).Nodup := hdone ▸ (by decide : QuoteCache.update.Nodup)
        exact (List.nodup_append.mp hnodup).2.2 _ hmem _ List.mem_cons_self rfl
      refine ⟨s.now, le_rfl, (run_congr hnot).trans hrun, fun _ => rfl, fun _ => ⟨fun el' hel' => ?_, fun old hold =>
        (hi.shared.stored _ old hold).2.1⟩⟩
      rw [hel] at hel'
      cases hel'
      exact helOk.asked.time
    · refine ⟨now, hnow, hrun, fun cell => ?_, fun hmem => hstamp ?_⟩
      · cases stmt with
        | stamp => exact absurd rfl hs
        | free | assign | freeTime => rfl
      · exact (List.mem_append.mp hmem).resolve_right fun h => hs (List.mem_singleton.mp h).symm
  have hall := run_update x now' (c x.q)
  rw [← hdone, exec_append, hrun', Option.bind_some] at hall
  obtain ⟨cell, hcell, -⟩ := exec_cons_some hall
  simp only [State.quoteStep, hstmt, hcell, Option.some.injEq] at h
  subst h
  have hother : ∀ q', q' ≠ x.q → Function.update s.cell x.q cell q' = s.cell q' :=
    fun q' hq' => Function.update_of_ne hq' _ _
  refine .moved rfl (hi.locks_move hp rfl)
    (hi.elements_move hp (fun _ h => by cases h) (fun _ h => h) fun _ _ h => by cases h)
    ⟨⟨el, hel, hreturned, helOk⟩, ⟨hok.parts, hok.stock, hok.room⟩, done ++ [stmt], now', ?_, hnow', ?_, hstamp'⟩
    (fun j hj => (hi.tells j).frame ⟨le_rfl, fun _ => id, quotes_refl c,
      fun q' hq' => ⟨rfl, hother q' (hi.held_ne hp rfl hj hq')⟩, fun _ _ => rfl⟩)
    { hi.shared with view := fun q' hq' => ?_ }
  · rw [List.append_assoc, List.singleton_append, hdone]
  · rw [exec_append, hrun', Option.bind_some, exec_cons, hcell, Option.bind_some, exec_nil]
    exact congrArg some (Function.update_self x.q cell s.cell).symm
  · exact (hi.shared.view q' hq').frame ⟨rfl, hother q' (hi.busy_ne hp rfl hq')⟩

omit [DecidableEq ι] in
/-- The thread that waits for an element that is to be answered, among the others. -/
theorem Inv.waiter (hi : Inv c s) {e : ℕ} (hserves : (s.pc i).serves = some e) {j : ι} (hji : j ≠ i) :
    (∃ a, s.pc j = .wait a e) ∨ (s.pc j).waits ≠ some e ∧ (s.pc j).serves ≠ some e := by
  by_cases hwaits : (s.pc j).waits = some e
  · obtain ⟨k, a, hk⟩ := hi.elements.waited e (.inr ⟨i, hserves⟩)
    have hkj := hi.elements.waits k j e (hk ▸ rfl) hwaits
    exact .inl ⟨a, hkj ▸ hk⟩
  · exact .inr ⟨hwaits, fun hj => hji (hi.elements.serves j i e hj hserves)⟩

/-- The quote is stored: from here on it is the quote of the cache. -/
theorem Inv.store (hi : Inv c s) {x : Work} (hp : s.pc i = .update x []) {net : Net}
    (h : s.quoteStep i net (.update x []) = some s') : ∃ c', Inv c' s' := by
  obtain ⟨⟨el, hel, hreturned, helOk⟩, hok, done, now, hdone, hnow, hrun, hstamp⟩ : Pc.Tells c s (.update x []) :=
    hp ▸ hi.tells i
  rw [List.append_nil] at hdone
  subst hdone
  obtain ⟨htime, hlater⟩ := hstamp (by decide)
  rw [run_update] at hrun
  have hcell : s.cell x.q = Cell.of (some (x.quote now)) := (Option.some.inj hrun).symm
  have hquote : (s.cell x.q).quote = some (x.quote now) := by
    rw [hcell]
    rfl
  simp only [State.quoteStep, hel, hquote, Option.map_some, Option.toList_some, Option.some.injEq] at h
  subst h
  set c' : Cache := Function.update c x.q (some (x.quote now)) with hc'
  have hself : c' x.q = some (x.quote now) := Function.update_self ..
  have hother : ∀ q', q' ≠ x.q → c' q' = c q' := fun q' hq' => Function.update_of_ne hq' _ _
  have hquotes : ∀ q quote, c q = some quote → ∃ quote', c' q = some quote' ∧ quote.ts ≤ quote'.ts := by
    intro q quote hq
    by_cases hqx : q = x.q
    · subst hqx
      exact ⟨_, hself, hlater quote hq⟩
    · exact ⟨quote, (hother q hqx).trans hq, le_rfl⟩
  have hmono : s.ops ⊆ s.ops ++ [.store x.q (x.quote now) x.rep] := List.subset_append_left _ _
  have hserves : (s.pc i).serves = some x.quoteResp := hp ▸ rfl
  have hsym : x.sym = stockOf el.asked.message.request := (hok.stock el hel).trans (by rw [helOk.request])
  have hvalid : validStockID x.sym = true := hsym ▸ helOk.asked.stock
  have hqueue : x.quoteResp ∉ s.queue := fun hmem => hi.elements.queued _ hmem i hserves
  refine ⟨c', .moved rfl (hi.locks_move hp rfl)
    (hi.elements_move hp (fun _ h => by cases h) (fun _ h => h) fun _ _ h => by cases h)
    ⟨hcell.trans (congrArg Cell.of hself.symm), _, Function.update_self .., hreturned,
      ⟨helOk.asked, helOk.request, helOk.slot, helOk.askedSlot⟩, rfl, ?_⟩ (fun j hj => ?_)
    ⟨fun q' hq' => ?_, fun q' quote hq' => ?_, ?_, fun r hr => (hi.shared.replies r hr).mono hmono, hi.shared.now,
      fun e he => ?_, fun e he => ?_⟩⟩
  · exact ⟨x.quote now, helOk.askedSlot.symm ▸ hself, htime el hel⟩
  · rcases hi.waiter hserves hj with ⟨a, hwait⟩ | ⟨hw, hs⟩
    · obtain ⟨hmissed, el', hel', helOk', hasked, -⟩ : Pc.Tells c s (.wait a x.quoteResp) := hwait ▸ hi.tells j
      rw [hel] at hel'
      cases hel'
      change Pc.Tells c' _ (s.pc j)
      rw [hwait]
      exact ⟨hmissed.mono hmono, _, Function.update_self .., ⟨helOk'.asked, helOk'.request, helOk'.slot,
        helOk'.askedSlot⟩, hasked, .inl hreturned⟩
    · exact (hi.tells j).frame ⟨le_rfl, hmono, hquotes,
        fun q' hq' => ⟨hother q' (hi.held_ne hp rfl hj hq'), rfl⟩, setElement_other _ hw hs⟩
  · exact (hi.shared.view q' hq').frame ⟨hother q' (hi.busy_ne hp rfl hq'), rfl⟩
  · by_cases hqx : q' = x.q
    · subst hqx
      rw [hself] at hq'
      cases hq'
      refine ⟨⟨x.rep, List.mem_append_right _ (List.mem_singleton.mpr rfl)⟩, hnow, hvalid, ?_, ?_⟩
      · rw [show (x.quote now).sym = stockOf el.asked.message.request from hsym,
          ← quoteAddress_stockOf helOk.asked.stock, helOk.asked.slot, helOk.askedSlot]
      · have hroom := hok.room
        have hllu := length_llu now
        rw [length_text]
        simp only [Work.quote]
        omega
    · obtain ⟨⟨rep, hmem⟩, hrest⟩ := hi.shared.stored q' quote ((hother q' hqx).symm.trans hq')
      exact ⟨⟨rep, hmono hmem⟩, hrest⟩
  · have hop : serve c (.store x.q (x.quote now) x.rep) = some c' := if_pos ⟨hok.parts, hlater⟩
    change exec serve _ (s.ops ++ [_]) = _
    rw [exec_append, hi.shared.served, Option.bind_some, exec_cons, hop, Option.bind_some, exec_nil]
  · obtain ⟨q', hpending⟩ := hi.shared.queued e he
    exact ⟨q', hpending.frame le_rfl (Function.update_of_ne (ne_of_mem_of_not_mem he hqueue) _ _)⟩
  · refine (Function.update_of_ne ?_ _ _).trans (hi.shared.last e he)
    rintro rfl
    exact Option.some_ne_none el (hel.symm.trans (hi.shared.last _ he))

/-- The thread that waits is told. -/
theorem Inv.post (hi : Inv c s) {x : Work} (hp : s.pc i = .post x) {net : Net}
    (h : s.quoteStep i net (.post x) = some s') : Inv c s' := by
  obtain ⟨hview, el, hel, hreturned, helOk, hresponse, hrenewed⟩ : Pc.Tells c s (.post x) := hp ▸ hi.tells i
  simp only [State.quoteStep, hel, Option.some.injEq] at h
  subst h
  have hserves : (s.pc i).serves = some x.quoteResp := hp ▸ rfl
  have hqueue : x.quoteResp ∉ s.queue := fun hmem => hi.elements.queued _ hmem i hserves
  refine .moved rfl (hi.locks_move hp rfl)
    (hi.elements_move hp (fun _ h => by cases h) (fun _ h => by cases h) fun _ _ h => by cases h)
    hview (fun j hj => ?_) { hi.shared with queued := fun e he => ?_, last := fun e he => ?_ }
  · rcases hi.waiter hserves hj with ⟨a, hwait⟩ | ⟨hw, hs⟩
    · obtain ⟨hmissed, el', hel', helOk', rfl, -⟩ : Pc.Tells c s (.wait a x.quoteResp) := hwait ▸ hi.tells j
      rw [hel] at hel'
      cases hel'
      change Pc.Tells c _ (s.pc j)
      rw [hwait]
      exact ⟨hmissed, _, Function.update_self .., ⟨helOk'.asked, helOk'.request, helOk'.slot,
        helOk'.askedSlot⟩, rfl, .inr ⟨by simp [hreturned], helOk.askedSlot.symm ▸ hresponse, hrenewed⟩⟩
    · exact (hi.tells j).frame (frame_setElement hw hs)
  · obtain ⟨q', hpending⟩ := hi.shared.queued e he
    exact ⟨q', hpending.frame le_rfl (Function.update_of_ne (ne_of_mem_of_not_mem he hqueue) _ _)⟩
  · refine (Function.update_of_ne ?_ _ _).trans (hi.shared.last e he)
    rintro rfl
    exact Option.some_ne_none el (hel.symm.trans (hi.shared.last _ he))

/-- One step of a `quote_handler`. -/
theorem Inv.quoteStep (hi : Inv c s) {net : Net} (hok : Proper s (.thread i net))
    (h : s.quoteStep i net (s.pc i) = some s') : ∃ c', Inv c' s' := by
  have hself := hi.tells i
  cases hp : s.pc i with
  | qdeq => exact ⟨c, hi.qdeq hp (hp ▸ h)⟩
  | qlock e q =>
    rw [hp] at h hself
    exact ⟨c, hi.acquire hp h rfl rfl (fun _ h => by cases h) (fun _ h => h) (fun _ _ h => by cases h)
      fun hview => ⟨hself, hview⟩⟩
  | round e q =>
    rw [hp] at h
    cases net with
    | reply rep => exact ⟨c, hi.round hp hok h⟩
    | none | failed | message m => cases h
  | update x rest =>
    cases rest with
    | nil => exact hi.store hp (hp ▸ h)
    | cons stmt rest => exact ⟨c, hi.update hp (hp ▸ h)⟩
  | post x => exact ⟨c, hi.post hp (hp ▸ h)⟩
  | release q | giveUp q =>
    rw [hp] at h hself
    cases h
    exact ⟨c, hi.giveBack hp rfl rfl (fun _ h => by cases h) (fun _ h => by cases h) (fun _ _ h => by cases h)
      hself trivial⟩
  | _ =>
    rw [hp] at h
    cases h

/-- One step. -/
theorem step_inv {e : Event ι} (hi : ∃ c, Inv c s) (hok : Proper s e) (h : step s e = some s') :
    ∃ c, Inv c s' := by
  obtain ⟨c, hi⟩ := hi
  cases e with
  | tick ms =>
    cases h
    have hnow : s.now ≤ s.now + ms := by omega
    refine ⟨c, hi.locks, hi.elements, fun j => (hi.tells j).frame ⟨hnow, fun _ => id, quotes_refl c,
      fun _ _ => ⟨rfl, rfl⟩, fun _ _ => rfl⟩, { hi.shared with
        stored := fun q quote hq => ?_
        now := hi.shared.now.trans hnow
        queued := fun e he => ?_ }⟩
    · obtain ⟨hmem, hts, hrest⟩ := hi.shared.stored q quote hq
      exact ⟨hmem, hts.trans hnow, hrest⟩
    · obtain ⟨q, hpending⟩ := hi.shared.queued e he
      exact ⟨q, hpending.frame hnow rfl⟩
  | thread i net =>
    simp only [step] at h
    split_ifs at h with hrole
    · exact hi.quoteStep hok h
    · exact ⟨c, hi.connStep hok h⟩

omit [DecidableEq ι] in
theorem inv_initial (isQuoteHandler : ι → Bool) {now : ℤ} (hnow : quoteTo ≤ now) :
    Inv (fun _ => none) (initial isQuoteHandler now) := by
  have hpc : ∀ i, ((initial isQuoteHandler now).pc i = .qdeq) ∨ (initial isQuoteHandler now).pc i = .recv := by
    intro i
    cases h : isQuoteHandler i <;> simp [initial, h]
  have hnone : ∀ i, ((initial isQuoteHandler now).pc i).holds = none ∧
      ((initial isQuoteHandler now).pc i).waits = none ∧ ((initial isQuoteHandler now).pc i).serves = none := by
    intro i
    rcases hpc i with h | h <;> simp [h, Pc.holds, Pc.waits, Pc.serves]
  refine ⟨fun q => .none fun i => by simp [(hnone i).1], ⟨fun i j e h => (by simp [(hnone i).2.1] at h),
    fun i j e h => (by simp [(hnone i).2.2] at h), List.nodup_nil, fun e he => (by cases he), fun e he => ?_⟩,
    fun i => ?_, ⟨fun _ _ => rfl, fun _ _ h => (by cases h), rfl, fun r hr => (by cases hr), hnow,
      fun e he => (by cases he), fun _ _ => rfl⟩⟩
  · rcases he with he | ⟨i, hi⟩
    · cases he
    · simp [(hnone i).2.2] at hi
  · rcases hpc i with h | h <;> rw [h] <;> trivial

theorem exec_inv {isQuoteHandler : ι → Bool} {now : ℤ} (hnow : quoteTo ≤ now) {es : List (Event ι)}
    (hok : Along step Proper (initial isQuoteHandler now) es)
    (h : exec step (initial isQuoteHandler now) es = some s) : ∃ c, Inv c s :=
  exec_inv_along (fun _ _ _ => step_inv) es _ s ⟨_, inv_initial isQuoteHandler hnow⟩ hok h

end

/-! ### The replies -/

section
variable {isQuoteHandler : ι → Bool} {now : ℤ} {es : List (Event ι)} {s : State ι}

end

instance (quoteResp : Option Element) : (fields : List CStr) → Decidable (ReplyFor quoteResp fields)
  | [] => inferInstanceAs (Decidable True)
  | [price, sym, user, _, key] => inferInstanceAs (Decidable ((∀ el ∈ quoteResp, sym = stockOf el.request) ∧
      price.length + sym.length + user.length + key.length + 24 < 200))
  | [_] | [_, _] | [_, _, _] | [_, _, _, _] | _ :: _ :: _ :: _ :: _ :: _ :: _ =>
    inferInstanceAs (Decidable False)

instance (s : State ι) : (e : Event ι) → Decidable (Proper s e)
  | .tick _ => inferInstanceAs (Decidable True)
  | .thread i net => by
    unfold Proper
    dsimp only
    split <;> infer_instance

/-- A request for a new quote, and later one for the quote that is there; the second thread is the
    `quote_handler`. -/
def asksTwice : List (Event Bool) :=
  let request := requestLine stockABC aUser
  let c : Event Bool := .thread false .none
  let q : Event Bool := .thread true .none
  [.thread false (.message ⟨"QNR".toList, "1".toList, "QUOTE".toList, request⟩), c, c, c, c, q, q,
    .thread true (.reply "12.50,ABC,aaaaaaaaaa,1400000000000,k=".toList)] ++ List.replicate 13 q ++
  .tick 5 :: List.replicate 7 c ++
  [.tick 20000, .thread false (.message ⟨"QCR".toList, "2".toList, "QUOTE".toList, request⟩), c, c, c, c, c]

end TradeC.QuoteCache
