import TradeC.Quotes
import TradeC.Stale
import Mathlib.Data.Fintype.Basic

/-! How old the quotes are at whose prices the transaction server reports and trades.

    QUOTE, BUY, SELL and the start of a sweep each test `cStock->ts` in a way of their own, wait for a new quote
    if they ask for one, and read `cStock->price` after that; BUY and SELL then read `cStock->ts` once more. No
    mutex guards the two: a `quote_handler` stores the price first and the timestamp after it, with what a load
    balancer has answered. A load balancer answers with a quote that is new enough to it, or with one that has
    come since it was asked. COMMIT looks at the time of its order, and the price of a sweep is read once.

    A step is one access to a stock, one look at the clock, one turn of the quote queue, or what a load
    balancer does with the slot of a stock. The commands that need no price are one step. -/

namespace TradeC.Freshness
open Run Server

/-! ### Threads -/

/-- For what a thread reads the price of a stock, with the amount of an order. -/
inductive Job where
  | quote (c : Cmd)
  | buy (c : Cmd) (prc : ℤ)
  | sell (c : Cmd) (prc : ℤ)
  | sweep

/-- What the test of `cStock->ts` comes to: the timestamp stands, or a quote is asked for. -/
inductive Tested where
  | found (ts : ℤ)
  | asked (now : ℤ)

/-- Where a `command_handler` or `trigger_handler` stands. -/
inductive Pc where
  | idle
  | test (job : Job) (stockID : StockID)
  -- sem_wait(quoteResp->returned)
  | wait (job : Job) (stockID : StockID) (quoteResp : ℕ) (asked : ℤ)
  -- quotePrice = cStock->price
  | read (job : Job) (stockID : StockID) (tested : Tested)
  -- with the quote that quotePrice is of; a sweep examines its triggers here
  | priced (job : Job) (stockID : StockID) (tested : Tested) (quote : Quote)
  -- a COMMIT that has looked at the clock
  | settle (c : Cmd) (commStr : Option CStr)

/-- Where a `quote_handler` stands, with the number of its element in the queue. -/
inductive Hand where
  | free
  | asking (n : ℕ) (stockID : StockID)
  -- the load balancer has no quote that is new enough, and asks for one itself
  | missed (n : ℕ) (stockID : StockID) (lb : ℕ) (since : ℤ)
  | told (n : ℕ) (stockID : StockID) (reply : Quotes.QuoteContents)
  -- the price is stored, the timestamp is not
  | half (n : ℕ) (stockID : StockID) (reply : Quotes.QuoteContents)
  | stored (n : ℕ) (stockID : StockID)

/-- The stock between whose price and timestamp it is. -/
def Hand.storing : Hand → Option StockID
  | .half _ stockID _ => some stockID
  | _ => none

/-! ### States -/

/-- An element of the quote queue. -/
structure Element where
  stockID : StockID
  asked : ℤ
  returned : Bool

/-- The clock, the stocks and the quote queue. All elements that were ever enqueued are kept, in their order;
    `start` is the next one to be dequeued. -/
structure Market where
  now : ℤ
  /-- `price` of each stock, with the time of the quote that it is of. -/
  price : StockID → Quote
  /-- `ts` of each stock. -/
  ts : StockID → ℤ
  elems : List Element
  start : ℕ

/-- A quote whose price is used, and when; if it was asked for, when that was. -/
structure Use where
  quote : Quote
  now : ℤ

/-- The quotes of `server` are not used: those of the stocks are in `market`. -/
structure State (ι κ : Type*) where
  market : Market
  server : Server
  /-- `busy` of each user. -/
  busy : UserID → Bool
  /-- What each load balancer has in the slot of a stock. -/
  cache : ℕ → StockID → Option Quotes.QuoteContents
  pc : ι → Pc
  hand : κ → Hand
  -- what is only recorded: the quote of each user's last order, and the quotes that were used
  order : UserID → Quote
  used : List Use

/-- What a `quote_handler` does next: it takes an element, has its request answered by a load balancer or not,
    stores what it is told, and posts or goes round once more. -/
inductive Act where
  | take
  | hit (lb : ℕ)
  | miss (lb : ℕ)
  | reply
  | lose
  | store
  | again
  | post

inductive Event (ι κ : Type*) where
  | tick (d : ℕ)
  | connect (userID : UserID)
  | command (i : ι) (c : Cmd) (commStr : Option CStr)
  | sweep (i : ι) (stockID : StockID)
  | go (i : ι)
  | examine (i : ι) (t : TrigID)
  -- a load balancer stores a quote
  | fetch (lb : ℕ) (stockID : StockID) (price sym user key : CStr)
  | serve (k : κ) (a : Act)

def initial (ι κ : Type*) : State ι κ where
  market := ⟨0, fun _ => ⟨0, 0⟩, fun _ => 0, [], 0⟩
  server := Server.init
  busy _ := false
  cache _ _ := none
  pc _ := .idle
  hand _ := .free
  order _ := ⟨0, 0⟩
  used := []

/-! ### Steps -/

/-- Whether a new quote is asked for. -/
def Job.asks (now ts : ℤ) : Job → Bool
  | .quote _ => ts = 0
  | .buy _ _ | .sell _ _ | .sweep => quoteTo < now - ts

/-- When the price is used: where it was asked for, at the request. -/
def Tested.moment (now : ℤ) : Tested → ℤ
  | .found _ => now
  | .asked r => r

/-- What a command reads the price of a stock for, if it comes as far, with the line that it logs. -/
def begins (w : ℤ → ℤ) (c : Cmd) (cUser : User) : List CStr → Option (Job × StockID × LogLine)
  | [stk] =>
    if c.userCmd = "QUOTE".toList then
      (toStockID stk).map fun stockID => (.quote c, stockID, c.logLine stk spc spc)
    else none
  | [stk, amt] =>
    let prc := str2price w amt
    if prc = -1 ∨ cUser.buysell ≠ 0 then none
    else if c.userCmd = "BUY".toList ∧ prc ≤ cUser.balance then
      (toStockID stk).map fun stockID => (.buy c prc, stockID, c.logLine stk spc amt)
    else if c.userCmd = "SELL".toList then
      ((toStockID stk).filter fun stockID => (getUserStock cUser.usTree stockID).any fun us => us.num ≠ 0).map
        fun stockID => (.sell c prc, stockID, c.logLine stk spc amt)
    else none
  | _ => none

/-- COMMIT_BUY and COMMIT_SELL. -/
def commits (c : Cmd) : Prop := c.userCmd = "COMMIT_BUY".toList ∨ c.userCmd = "COMMIT_SELL".toList

instance (c : Cmd) : Decidable (commits c) := inferInstanceAs (Decidable (_ ∨ _))

section
variable {ι κ : Type*} [DecidableEq ι] [DecidableEq κ] (w : ℤ → ℤ)

namespace State
variable (s : State ι κ)

def goto (i : ι) (p : Pc) : State ι κ := { s with pc := Function.update s.pc i p }

def hold (k : κ) (h : Hand) : State ι κ := { s with hand := Function.update s.hand k h }

def setBusy (u : UserID) (b : Bool) : State ι κ := { s with busy := Function.update s.busy u b }

def use (quote : Quote) (now : ℤ) : State ι κ := { s with used := s.used ++ [⟨quote, now⟩] }

/-- `qenq`. -/
def qenq (stockID : StockID) : State ι κ :=
  { s with market := { s.market with elems := s.market.elems ++ [⟨stockID, s.market.now, false⟩] } }

/-- The order of BUY and SELL, for `no` shares at the price of the quote, with `cStock->ts`. -/
def prepare (c : Cmd) (stockID : StockID) (tested : Tested) (quote : Quote) (cUser : User) (no side : ℤ) :
    State ι κ :=
  { s with
    server := s.server.setUser c.userID
      (cUser.order (s.market.ts stockID) stockID (w (quote.price * no)) no side)
    order := Function.update s.order c.userID quote }.use quote (tested.moment s.market.now)

/-- What is settled by a COMMIT that succeeds. -/
def settled (u : UserID) : Reply → State ι κ
  | .succ _ => s.use (s.order u) s.market.now
  | _ => s

end State

/-- A command takes the mutex of its user. One that needs a price goes on to the test of the timestamp, and a
    COMMIT looks at the clock; the others are done. -/
def command (s : State ι κ) (i : ι) (c : Cmd) (commStr : Option CStr) : Option (State ι κ) :=
  match s.pc i with
  | .idle =>
    if s.busy c.userID then none
    else
      (s.server.user c.userID).bind fun cUser =>
        match begins w c cUser (delimSepNoCpy commStr ',') with
        | some (job, stockID, line) =>
          some (({ s with server := (s.server.lenq line).findStock stockID }.setBusy c.userID true).goto i
            (.test job stockID))
        | none =>
          if commits c then some ((s.setBusy c.userID true).goto i (.settle c commStr))
          else (commandHandler w s.server c commStr).map fun r => { s with server := r.1 }
  | _ => none

/-- A sweep of a stock that has triggers. -/
def sweep (s : State ι κ) (i : ι) (stockID : StockID) : Option (State ι κ) :=
  match s.pc i with
  | .idle =>
    if stockID ∈ s.server.stocks ∧ s.server.mem.linked stockID ≠ [] then
      some (s.goto i (.test .sweep stockID))
    else none
  | _ => none

/-- QUOTE reports the price; BUY and SELL make their order, if the price allows one; a sweep ends. -/
def finish (s : State ι κ) (stockID : StockID) (tested : Tested) (quote : Quote) : Job → Option (State ι κ)
  | .quote c => some ((s.use quote (tested.moment s.market.now)).setBusy c.userID false)
  | .buy c prc =>
    (s.server.user c.userID).map fun cUser =>
      let no := prc.tdiv quote.price
      (if quote.price < 1 ∨ no = 0 then s else s.prepare w c stockID tested quote cUser no 1).setBusy
        c.userID false
  | .sell c prc =>
    (s.server.user c.userID).bind fun cUser =>
      (getUserStock cUser.usTree stockID).map fun cUserStock =>
        let no := sellShares w cUserStock.num prc quote.price
        (if quote.price < 1 then s else s.prepare w c stockID tested quote cUser no (-1)).setBusy c.userID false
  | .sweep => some s

/-- The next step of a thread. -/
def go (s : State ι κ) (i : ι) : Option (State ι κ) :=
  match s.pc i with
  | .idle => none
  | .test job stockID =>
    if job.asks s.market.now (s.market.ts stockID) then
      some ((s.qenq stockID).goto i (.wait job stockID s.market.elems.length s.market.now))
    else some (s.goto i (.read job stockID (.found (s.market.ts stockID))))
  | .wait job stockID n asked =>
    if (s.market.elems[n]?).any Element.returned then some (s.goto i (.read job stockID (.asked asked)))
    else none
  | .read job stockID tested => some (s.goto i (.priced job stockID tested (s.market.price stockID)))
  | .priced job stockID tested quote => (finish w s stockID tested quote job).map fun s => s.goto i .idle
  | .settle c commStr =>
    (commandHandler w s.server c commStr).map fun r =>
      (({ s with server := r.1 }.settled c.userID r.2).setBusy c.userID false).goto i .idle

/-- A trigger of the ring, whose user is not busy, is examined at the price that the sweep has read. -/
def examine (s : State ι κ) (i : ι) (t : TrigID) : Option (State ι κ) :=
  match s.pc i with
  | .priced .sweep stockID _ quote =>
    if quote.price < 1 ∨ t ∉ s.server.mem.linked stockID ∨
        (s.server.mem.obj t).any fun cTrigger => s.busy cTrigger.userObj then none
    else
      (Sweep.examine w s.server t quote.price s.market.now).map fun server =>
        let s' := { s with server }
        if s.server.settled.length < server.settled.length then s'.use quote s.market.now else s'
  | _ => none

/-- A step of a `quote_handler`. -/
def serve (s : State ι κ) (k : κ) : Act → Hand → Option (State ι κ)
  | .take, .free =>
    (s.market.elems[s.market.start]?).map fun e =>
      { s with market := { s.market with start := s.market.start + 1 } }.hold k
        (.asking s.market.start e.stockID)
  | .hit lb, .asking n st =>
    if Quotes.cached s.market.now (s.cache lb st) then
      (s.cache lb st).map fun reply => s.hold k (.told n st reply)
    else none
  | .miss lb, .asking n st =>
    if Quotes.cached s.market.now (s.cache lb st) then none else some (s.hold k (.missed n st lb s.market.now))
  -- what the load balancer has after it was asked
  | .reply, .missed n st lb since =>
    (s.cache lb st).bind fun reply => if since ≤ reply.ts then some (s.hold k (.told n st reply)) else none
  -- the connection fails, and the request is made again
  | .lose, .missed n st _ _ => some (s.hold k (.asking n st))
  | .lose, .told n st _ => some (s.hold k (.asking n st))
  | .store, .told n st reply =>
    some ({ s with market := { s.market with
      price := Function.update s.market.price st ⟨str2price w reply.price, reply.ts⟩ } }.hold k
        (.half n st reply))
  | .store, .half n st reply =>
    some ({ s with market := { s.market with ts := Function.update s.market.ts st reply.ts } }.hold k
      (.stored n st))
  | .again, .stored n st => some (s.hold k (.asking n st))
  | .post, .stored n _ =>
    some ({ s with market := { s.market with
      elems := s.market.elems.modify n fun e => { e with returned := true } } }.hold k .free)
  | _, _ => none

def step (s : State ι κ) : Event ι κ → Option (State ι κ)
  | .tick d => some { s with market := { s.market with now := s.market.now + d } }
  | .connect userID =>
    (TradeC.step w s.server (.connect userID)).map fun server => { s with server }
  -- the command is logged, and a COMMIT tested, at the time that the clock shows
  | .command i c commStr => command w s i { c with now := s.market.now } commStr
  | .sweep i stockID => sweep s i stockID
  | .go i => go w s i
  | .examine i t => examine w s i t
  | .fetch lb stockID price sym user key =>
    let slots := Function.update (s.cache lb) stockID (some ⟨price, sym, user, s.market.now, key⟩)
    some { s with cache := Function.update s.cache lb slots }
  | .serve k a => serve w s k a (s.hand k)

end

/-! ### The condition -/

/-- The timestamp that was found is fresh. -/
def Tested.InTime (now : ℤ) : Tested → Prop
  | .found ts => now - ts ≤ quoteTo
  | .asked _ => True

section
variable {ι κ : Type*} (s : State ι κ)

/-- QUOTE reports, and BUY and SELL make their order, while the timestamp that they have found is fresh; the one
    that the order gets is not newer than the quote whose price was read. A COMMIT that is in time when it looks
    at the clock still is when it settles. -/
def InTime : Pc → Prop
  | .priced (.quote _) _ tested _ => tested.InTime s.market.now
  | .priced (.buy _ _) stockID tested quote | .priced (.sell _ _) stockID tested quote =>
    tested.InTime s.market.now ∧ s.market.ts stockID ≤ quote.ts
  | .settle c _ => ∀ cUser ∈ s.server.user c.userID,
      c.now - cUser.promptTime ≤ quoteTo → s.market.now - cUser.promptTime ≤ quoteTo
  | _ => True

/-- A trigger is fired while the quote of the sweep is fresh. -/
def FiresInTime (t : TrigID) : Pc → Prop
  | .priced .sweep _ _ quote => Stale.fires s.server t quote.price → s.market.now - quote.ts ≤ quoteTo
  | _ => True

/-- A price is stored while no other handler is between its price and its timestamp in that stock, and only of a
    quote that is not older than the one there. -/
def StoresNewer : Hand → Prop
  | .told _ stockID reply => (∀ k, (s.hand k).storing ≠ some stockID) ∧ s.market.ts stockID ≤ reply.ts
  | _ => True

def Ok : Event ι κ → Prop
  | .go i => InTime s (s.pc i)
  | .examine i t => FiresInTime s t (s.pc i)
  | .serve k .store => StoresNewer s (s.hand k)
  | _ => True

instance decTestedInTime (now : ℤ) : ∀ tested : Tested, Decidable (tested.InTime now)
  | .found ts => inferInstanceAs (Decidable (now - ts ≤ quoteTo))
  | .asked _ => .isTrue trivial

instance decInTime : ∀ p, Decidable (InTime s p)
  | .priced (.quote _) _ tested _ => decTestedInTime s.market.now tested
  | .priced (.buy _ _) _ _ _ => inferInstanceAs (Decidable (_ ∧ _))
  | .priced (.sell _ _) _ _ _ => inferInstanceAs (Decidable (_ ∧ _))
  | .settle c _ => inferInstanceAs (Decidable (∀ cUser ∈ s.server.user c.userID, _ → _))
  | .priced .sweep _ _ _ | .idle | .test _ _ | .wait _ _ _ _ | .read _ _ _ => .isTrue trivial

instance decFiresInTime (t : TrigID) : ∀ p, Decidable (FiresInTime s t p)
  | .priced .sweep _ _ _ => inferInstanceAs (Decidable (_ → _))
  | .priced (.quote _) _ _ _ | .priced (.buy _ _) _ _ _ | .priced (.sell _ _) _ _ _ => .isTrue trivial
  | .idle | .test _ _ | .wait _ _ _ _ | .read _ _ _ | .settle _ _ => .isTrue trivial

instance decStoresNewer [Fintype κ] : ∀ h, Decidable (StoresNewer s h)
  | .told _ stockID _ => inferInstanceAs (Decidable ((∀ k, (s.hand k).storing ≠ some stockID) ∧ _))
  | .free | .asking _ _ | .missed _ _ _ _ | .half _ _ _ | .stored _ _ => .isTrue trivial

instance decOk [Fintype κ] : ∀ e, Decidable (Ok s e)
  | .go i => decInTime s (s.pc i)
  | .examine i t => decFiresInTime s t (s.pc i)
  | .serve k .store => decStoresNewer s (s.hand k)
  | .serve _ .take | .serve _ (.hit _) | .serve _ (.miss _) | .serve _ .reply => .isTrue trivial
  | .serve _ .lose | .serve _ .again | .serve _ .post => .isTrue trivial
  | .tick _ | .connect _ | .command _ _ _ | .sweep _ _ | .fetch _ _ _ _ _ _ => .isTrue trivial

end

/-! ### The stocks and the quote queue -/

/-- Time has gone on: no timestamp is older than it was, and the elements are those that they were. -/
structure Market.Later (m m' : Market) : Prop where
  now : m.now ≤ m'.now
  ts : ∀ st, m.ts st ≤ m'.ts st
  elems : ∀ (n : ℕ) (e : Element), m.elems[n]? = some e →
    ∃ e' : Element, m'.elems[n]? = some e' ∧ e'.stockID = e.stockID ∧ e'.asked = e.asked

/-- The element is of the stock, and was asked for by `t`. -/
def Market.Asked (m : Market) (n : ℕ) (st : StockID) (t : ℤ) : Prop :=
  ∃ e : Element, m.elems[n]? = some e ∧ e.stockID = st ∧ e.asked ≤ t

/-- What a `quote_handler` has in its hands is new enough to who asked for it. -/
def Market.InHand (m : Market) : Hand → Prop
  | .free => True
  | .asking n st => m.Asked n st m.now
  | .missed n st _ since => m.Asked n st since
  | .told n st reply => m.Asked n st (reply.ts + quoteTo)
  | .half n st reply =>
    m.Asked n st (reply.ts + quoteTo) ∧ (m.price st).ts = reply.ts ∧ m.ts st ≤ reply.ts
  | .stored n st => m.Asked n st (m.ts st + quoteTo)

/-- The timestamp of a stock is never newer than the quote that its price is of; who has been answered finds a
    quote that is new enough. -/
structure Market.Sound {κ : Type*} (m : Market) (hand : κ → Hand) : Prop where
  price : ∀ st, m.ts st ≤ (m.price st).ts
  elems : ∀ (n : ℕ) (e : Element), m.elems[n]? = some e →
    e.asked ≤ m.now ∧ (e.returned → e.asked ≤ m.ts e.stockID + quoteTo)
  held : ∀ k, m.InHand (hand k)
  alone : ∀ k k' st, (hand k).storing = some st → (hand k').storing = some st → k = k'

section
variable {m m' : Market} {n : ℕ} {st : StockID} {t t' : ℤ}

theorem Market.Asked.mono (h : m.Asked n st t) (hle : t ≤ t') : m.Asked n st t' := by
  obtain ⟨e, he, hst, hasked⟩ := h
  exact ⟨e, he, hst, hasked.trans hle⟩

theorem Market.Asked.later (h : m.Asked n st t) (hlater : m.Later m') : m'.Asked n st t := by
  obtain ⟨e, he, hst, hasked⟩ := h
  obtain ⟨e', he', hst', hasked'⟩ := hlater.elems n e he
  exact ⟨e', he', hst'.trans hst, hasked'.symm ▸ hasked⟩

/-- The others' steps, which leave the stock that is being stored. -/
theorem Market.InHand.later {h : Hand} (hin : m.InHand h) (hlater : m.Later m')
    (hsame : ∀ st, h.storing = some st → m'.price st = m.price st ∧ m'.ts st = m.ts st) : m'.InHand h := by
  cases h with
  | free => trivial
  | asking n st => exact (Market.Asked.later hin hlater).mono hlater.now
  | missed n st lb since => exact Market.Asked.later hin hlater
  | told n st reply => exact Market.Asked.later hin hlater
  | half n st reply =>
    obtain ⟨hasked, hprice, hts⟩ := hin
    obtain ⟨hprice', hts'⟩ := hsame st rfl
    exact ⟨hasked.later hlater, by rw [hprice', hprice], by rw [hts']; exact hts⟩
  | stored n st =>
    exact (Market.Asked.later hin hlater).mono (Int.add_le_add_right (hlater.ts st) _)

theorem Market.Later.elems_append {x : Element} : m.Later { m with elems := m.elems ++ [x] } where
  now := le_refl _
  ts _ := le_refl _
  elems n e he := by
    refine ⟨e, ?_, rfl, rfl⟩
    change (m.elems ++ [x])[n]? = some e
    rw [List.getElem?_append_left (List.getElem?_eq_some_iff.mp he).1]
    exact he

theorem Market.Later.of_eq (hnow : m.now ≤ m'.now) (hts : ∀ st, m.ts st ≤ m'.ts st)
    (helems : m'.elems = m.elems) : m.Later m' :=
  ⟨hnow, hts, fun n e he => ⟨e, by rw [helems, he], rfl, rfl⟩⟩

theorem Market.Later.modify (n : ℕ) :
    m.Later { m with elems := m.elems.modify n fun e => { e with returned := true } } where
  now := le_refl _
  ts _ := le_refl _
  elems j e he := by
    refine ⟨if n = j then { e with returned := true } else e, ?_, ?_, ?_⟩
    · change (m.elems.modify n _)[j]? = _
      rw [List.getElem?_modify, he]
      rfl
    · split_ifs <;> rfl
    · split_ifs <;> rfl

end

section
variable {κ : Type*} {m : Market} {hand : κ → Hand}

theorem Market.Sound.tick (h : m.Sound hand) (d : ℕ) : Market.Sound { m with now := m.now + d } hand := by
  have hnow : m.now ≤ m.now + d := by omega
  refine ⟨h.price, fun n e he => ⟨(h.elems n e he).1.trans hnow, (h.elems n e he).2⟩, fun k => ?_, h.alone⟩
  exact (h.held k).later (.of_eq hnow (fun _ => le_refl _) rfl) fun _ _ => ⟨rfl, rfl⟩

theorem Market.Sound.qenq (h : m.Sound hand) (st : StockID) :
    Market.Sound { m with elems := m.elems ++ [⟨st, m.now, false⟩] } hand := by
  refine ⟨h.price, fun n e he => ?_, fun k => ?_, h.alone⟩
  · change (m.elems ++ [_])[n]? = some e at he
    rcases lt_or_ge n m.elems.length with hn | hn
    · rw [List.getElem?_append_left hn] at he
      exact h.elems n e he
    · rw [List.getElem?_append_right hn, List.getElem?_singleton] at he
      split_ifs at he
      cases he
      exact ⟨le_refl _, fun hret => Bool.noConfusion hret⟩
  · exact (h.held k).later .elems_append fun _ _ => ⟨rfl, rfl⟩

/-- A request can be made again. -/
theorem Market.Sound.asked (h : m.Sound hand) {n : ℕ} {st : StockID} {t : ℤ} (hasked : m.Asked n st t) :
    m.Asked n st m.now := by
  obtain ⟨e, he, hst, -⟩ := hasked
  exact ⟨e, he, hst, (h.elems n e he).1⟩

variable [DecidableEq κ] {k : κ}

/-- A handler turns to a stock that no other is storing, or to none. -/
theorem Market.Sound.storing_update (h : m.Sound hand) {x : Hand}
    (hx : ∀ st, x.storing = some st → ∀ j, (hand j).storing ≠ some st) {j j' : κ} {st : StockID}
    (hj : (Function.update hand k x j).storing = some st) (hj' : (Function.update hand k x j').storing = some st) :
    j = j' := by
  have hcases : ∀ i, (Function.update hand k x i).storing = some st →
      i = k ∧ x.storing = some st ∨ (hand i).storing = some st := by
    intro i hi
    by_cases hik : i = k
    · subst hik
      rw [Function.update_self] at hi
      exact .inl ⟨rfl, hi⟩
    · rw [Function.update_of_ne hik] at hi
      exact .inr hi
  rcases hcases j hj with ⟨hjk, hst⟩ | hold
  · rcases hcases j' hj' with ⟨hjk', -⟩ | hold'
    · rw [hjk, hjk']
    · exact absurd hold' (hx st hst j')
  · rcases hcases j' hj' with ⟨-, hst⟩ | hold'
    · exact absurd hold (hx st hst j)
    · exact h.alone j j' st hold hold'

/-- A handler goes on without a stock between its two stores. -/
theorem Market.Sound.update (h : m.Sound hand) {x : Hand} (hx : m.InHand x) (hfree : x.storing = none) :
    m.Sound (Function.update hand k x) := by
  refine ⟨h.price, h.elems, fun j => ?_, fun j j' st hj hj' => ?_⟩
  · by_cases hjk : j = k
    · subst hjk
      rw [Function.update_self]
      exact hx
    · rw [Function.update_of_ne hjk]
      exact h.held j
  · exact h.storing_update (fun st' hst' => by rw [hfree] at hst'; cases hst') hj hj'

theorem Market.Sound.take (h : m.Sound hand) {e : Element} (he : m.elems[m.start]? = some e) :
    Market.Sound { m with start := m.start + 1 } (Function.update hand k (.asking m.start e.stockID)) := by
  have hm : Market.Sound { m with start := m.start + 1 } hand :=
    ⟨h.price, h.elems, fun j => (h.held j).later (.of_eq (le_refl _) (fun _ => le_refl _) rfl)
      fun _ _ => ⟨rfl, rfl⟩, h.alone⟩
  exact hm.update ⟨e, he, rfl, (h.elems _ e he).1⟩ rfl

/-- The price is stored: no other handler is at the stock. -/
theorem Market.Sound.storePrice (h : m.Sound hand) {n : ℕ} {st : StockID} {reply : Quotes.QuoteContents}
    {price : ℤ} (hk : hand k = .told n st reply) (hother : ∀ j, (hand j).storing ≠ some st)
    (hnew : m.ts st ≤ reply.ts) :
    Market.Sound { m with price := Function.update m.price st ⟨price, reply.ts⟩ }
      (Function.update hand k (.half n st reply)) := by
  have hlater : m.Later { m with price := Function.update m.price st ⟨price, reply.ts⟩ } :=
    .of_eq (le_refl _) (fun _ => le_refl _) rfl
  refine ⟨fun st' => ?_, h.elems, fun j => ?_, fun j j' st' hj hj' => ?_⟩
  · dsimp only
    by_cases hst : st' = st
    · subst hst
      rw [Function.update_self]
      exact hnew
    · rw [Function.update_of_ne hst]
      exact h.price st'
  · by_cases hjk : j = k
    · subst hjk
      have hin := h.held j
      rw [hk] at hin
      rw [Function.update_self]
      refine ⟨Market.Asked.later hin hlater, ?_, hnew⟩
      dsimp only
      rw [Function.update_self]
    · rw [Function.update_of_ne hjk]
      refine (h.held j).later hlater fun st' hst' => ⟨Function.update_of_ne ?_ _ _, rfl⟩
      rintro rfl
      exact hother j hst'
  · exact h.storing_update (fun st'' hst'' => by cases hst''; exact hother) hj hj'

/-- The timestamp is stored: it catches up with the price. -/
theorem Market.Sound.storeTs (h : m.Sound hand) {n : ℕ} {st : StockID} {reply : Quotes.QuoteContents}
    (hk : hand k = .half n st reply) :
    m.Later { m with ts := Function.update m.ts st reply.ts } ∧
      Market.Sound { m with ts := Function.update m.ts st reply.ts } (Function.update hand k (.stored n st)) := by
  obtain ⟨hasked, hprice, hts⟩ : m.InHand (.half n st reply) := hk ▸ h.held k
  have hle : ∀ st', m.ts st' ≤ Function.update m.ts st reply.ts st' := by
    intro st'
    by_cases hst : st' = st
    · subst hst
      rw [Function.update_self]
      exact hts
    · rw [Function.update_of_ne hst]
  have hlater : m.Later { m with ts := Function.update m.ts st reply.ts } := .of_eq (le_refl _) hle rfl
  refine ⟨hlater, fun st' => ?_, fun j e he => ?_, fun j => ?_, fun j j' st' hj hj' => ?_⟩
  · dsimp only
    by_cases hst : st' = st
    · subst hst
      rw [Function.update_self, hprice]
    · rw [Function.update_of_ne hst]
      exact h.price st'
  · obtain ⟨hnow, hret⟩ := h.elems j e he
    exact ⟨hnow, fun hr => (hret hr).trans (Int.add_le_add_right (hle e.stockID) _)⟩
  · by_cases hjk : j = k
    · subst hjk
      rw [Function.update_self]
      refine Market.Asked.mono (hasked.later hlater) ?_
      dsimp only
      rw [Function.update_self]
    · rw [Function.update_of_ne hjk]
      refine (h.held j).later hlater fun st' hst' => ⟨rfl, Function.update_of_ne ?_ _ _⟩
      rintro rfl
      exact hjk (h.alone j k st' hst' (by rw [hk]; rfl))
  · exact h.storing_update (fun st'' hst'' => by cases hst'') hj hj'

/-- The requester is told: what is in the stock is new enough to it. -/
theorem Market.Sound.post (h : m.Sound hand) {n : ℕ} {st : StockID} (hk : hand k = .stored n st) :
    Market.Sound { m with elems := m.elems.modify n fun e => { e with returned := true } }
      (Function.update hand k .free) := by
  obtain ⟨e₀, he₀, hst₀, hasked⟩ : m.InHand (.stored n st) := hk ▸ h.held k
  have hm : Market.Sound { m with elems := m.elems.modify n fun e => { e with returned := true } } hand := by
    refine ⟨h.price, fun j e he => ?_, fun j => (h.held j).later (.modify n) fun _ _ => ⟨rfl, rfl⟩, h.alone⟩
    change (m.elems.modify n _)[j]? = some e at he
    rw [List.getElem?_modify] at he
    obtain ⟨e', he', rfl⟩ := Option.map_eq_some_iff.mp he
    obtain ⟨hnow, hret⟩ := h.elems j e' he'
    split_ifs with hnj
    · subst hnj
      rw [he₀] at he'
      cases he'
      exact ⟨hnow, fun _ => hst₀ ▸ hasked⟩
    · exact ⟨hnow, hret⟩
  exact hm.update trivial rfl

end

/-! ### The commands that need no price -/

section
variable {w : ℤ → ℤ} {s : Server} {c : Cmd} {cUser : User} {r : Server × Reply}

theorem refused_buy (hcmd : c.userCmd = "BUY".toList) {stk amt : CStr} (h : begins w c cUser [stk, amt] = none) :
    (Command.buy w s c cUser stk amt).2.refused := by
  unfold Command.buy
  cases hst : toStockID stk with
  | none => rfl
  | some st =>
    dsimp only
    by_cases hprc : str2price w amt = -1
    · rw [if_pos hprc]
      rfl
    rw [if_neg hprc]
    by_cases hside : cUser.buysell ≠ 0
    · rw [if_pos hside]
      rfl
    rw [if_neg hside]
    by_cases hbal : cUser.balance < str2price w amt
    · rw [if_pos hbal]
      rfl
    rw [begins, if_neg (not_or.mpr ⟨hprc, hside⟩), if_pos ⟨hcmd, not_lt.mp hbal⟩, hst] at h
    cases h

theorem refused_sell (hcmd : c.userCmd = "SELL".toList) {stk amt : CStr} (h : begins w c cUser [stk, amt] = none) :
    (Command.sell w s c cUser stk amt).2.refused := by
  unfold Command.sell
  cases hst : toStockID stk with
  | none => rfl
  | some st =>
    dsimp only
    by_cases hprc : str2price w amt = -1
    · rw [if_pos hprc]
      rfl
    rw [if_neg hprc]
    cases hus : getUserStock cUser.usTree st with
    | none => rfl
    | some us =>
      dsimp only
      by_cases hnum : us.num = 0
      · rw [if_pos hnum]
        rfl
      rw [if_neg hnum]
      by_cases hside : cUser.buysell ≠ 0
      · rw [if_pos hside]
        rfl
      have hnot : ¬ (c.userCmd = "BUY".toList ∧ str2price w amt ≤ cUser.balance) := by
        rw [hcmd]
        exact fun hbuy => absurd hbuy.1 (by decide)
      rw [begins, if_neg (not_or.mpr ⟨hprc, hside⟩), if_neg hnot, if_pos hcmd, hst, Option.filter_some, if_pos] at h
      · cases h
      · rw [hus]
        exact decide_eq_true hnum

/-- A BUY or SELL that does not come as far as the price is refused. -/
theorem refused_of_none {comm : List CStr} (h : begins w c cUser comm = none)
    (hcmd : c.userCmd = "BUY".toList ∨ c.userCmd = "SELL".toList)
    (hr : Command.dispatch w s c cUser comm = some r) : r.2.refused := by
  have hother : ∀ {name : CStr} {P : Prop}, c.userCmd = name → name ≠ "BUY".toList →
      name ≠ "SELL".toList → P := by
    intro name P hname hbuy hsell
    rcases hcmd with hcmd | hcmd
    · exact absurd (hname.symm.trans hcmd) hbuy
    · exact absurd (hname.symm.trans hcmd) hsell
  cases Command.dispatched hr with
  | buy hcmd => exact refused_buy hcmd h
  | sell hcmd => exact refused_sell hcmd h
  | badcmd => rfl
  | _ => exact hother ‹c.userCmd = _› (by decide) (by decide)

/-- A COMMIT that succeeds found an order in time. -/
theorem settle_time (hcmd : commits c) {comm : List CStr} (hr : Command.dispatch w s c cUser comm = some r)
    {data : List ℤ} (hsucc : r.2 = .succ data) : cUser.buysell ≠ 0 ∧ c.now - cUser.promptTime ≤ quoteTo := by
  have hother : ∀ {name : CStr} {P : Prop}, c.userCmd = name → name ≠ "COMMIT_BUY".toList →
      name ≠ "COMMIT_SELL".toList → P := by
    intro name P hname hbuy hsell
    rcases hcmd with hcmd | hcmd
    · exact absurd (hname.symm.trans hcmd) hbuy
    · exact absurd (hname.symm.trans hcmd) hsell
  cases Command.dispatched hr with
  | commitBuy _ hr => exact Stale.commitBuy_time hr hsucc
  | commitSell _ hr => exact Stale.commitSell_time hr hsucc
  | badcmd => cases hsucc
  | _ => exact hother ‹c.userCmd = _› (by decide) (by decide)

end

/-! ### The threads -/

/-- No quote that is used after the test is older. -/
def Tested.floor : Tested → ℤ
  | .found ts => ts
  | .asked now => now - quoteTo

theorem Tested.fresh {tested : Tested} {now : ℤ} {quote : Quote} (hfloor : tested.floor ≤ quote.ts)
    (htime : tested.InTime now) : tested.moment now - quote.ts ≤ quoteTo := by
  cases tested with
  | found ts =>
    have hts : now - ts ≤ quoteTo := htime
    have hle : ts ≤ quote.ts := hfloor
    change now - quote.ts ≤ quoteTo
    omega
  | asked r =>
    have hle : r - quoteTo ≤ quote.ts := hfloor
    change r - quote.ts ≤ quoteTo
    omega

/-- What a thread knows of the stock, of the element that it waits for, or of its command. -/
def Market.Knows (m : Market) : Pc → Prop
  | .wait _ st n asked => ∃ e : Element, m.elems[n]? = some e ∧ e.stockID = st ∧ e.asked = asked
  | .read _ st tested => tested.floor ≤ m.ts st
  | .priced _ _ tested quote => tested.floor ≤ quote.ts
  | .settle c _ => commits c
  | .idle | .test _ _ => True

theorem Market.Knows.later {m m' : Market} {p : Pc} (h : m.Knows p) (hlater : m.Later m') : m'.Knows p := by
  cases p with
  | wait job st n asked =>
    obtain ⟨e, he, hst, hasked⟩ := h
    obtain ⟨e', he', hst', hasked'⟩ := hlater.elems n e he
    exact ⟨e', he', hst'.trans hst, hasked'.trans hasked⟩
  | read job st tested => exact le_trans h (hlater.ts st)
  | priced job st tested quote => exact h
  | idle => trivial
  | test => trivial
  | settle => exact h

/-- The pending order is one at the price of the quote, which is not older than the order says. -/
def Linked (w : ℤ → ℤ) (usr : User) (q : Quote) : Prop :=
  usr.buysell ≠ 0 → usr.promptTime ≤ q.ts ∧ usr.reserve = w (q.price * usr.no)

structure Inv {ι κ : Type*} (w : ℤ → ℤ) (s : State ι κ) : Prop where
  market : s.market.Sound s.hand
  pc : ∀ i, s.market.Knows (s.pc i)
  order : ∀ u usr, s.server.user u = some usr → Linked w usr (s.order u)
  used : ∀ x ∈ s.used, x.now - x.quote.ts ≤ quoteTo

section
variable {ι κ : Type*} [DecidableEq ι] [DecidableEq κ] {w : ℤ → ℤ} {s s' : State ι κ}

namespace Inv

omit [DecidableEq ι] [DecidableEq κ] in
theorem initial : Inv w (initial ι κ) where
  market :=
    { price := fun _ => le_refl _
      elems := fun _ _ he => by cases he
      held := fun _ => trivial
      alone := fun _ _ _ h => by cases h }
  pc _ := trivial
  order _ _ h := by cases h
  used x hx := absurd hx List.not_mem_nil

omit [DecidableEq κ] in
theorem goto (hi : Inv w s) {i : ι} {p : Pc} (hp : s.market.Knows p) : Inv w (s.goto i p) where
  market := hi.market
  pc j := by
    change s.market.Knows (Function.update s.pc i p j)
    by_cases hji : j = i
    · subst hji
      rw [Function.update_self]
      exact hp
    · rw [Function.update_of_ne hji]
      exact hi.pc j
  order := hi.order
  used := hi.used

omit [DecidableEq ι] [DecidableEq κ] in
theorem setBusy (hi : Inv w s) (u : UserID) (b : Bool) : Inv w (s.setBusy u b) :=
  ⟨hi.market, hi.pc, hi.order, hi.used⟩

omit [DecidableEq ι] [DecidableEq κ] in
theorem use (hi : Inv w s) {quote : Quote} {now : ℤ} (hfresh : now - quote.ts ≤ quoteTo) :
    Inv w (s.use quote now) where
  market := hi.market
  pc := hi.pc
  order := hi.order
  used x hx := by
    rcases List.mem_append.mp hx with hx | hx
    · exact hi.used x hx
    · rw [List.mem_singleton.mp hx]
      exact hfresh

omit [DecidableEq ι] [DecidableEq κ] in
/-- A step of the stocks, the queue and the handlers. -/
theorem stocks (hi : Inv w s) {m : Market} {hand : κ → Hand} (hlater : s.market.Later m) (hm : m.Sound hand) :
    Inv w { s with market := m, hand } :=
  ⟨hm, fun i => (hi.pc i).later hlater, hi.order, hi.used⟩

omit [DecidableEq ι] [DecidableEq κ] in
/-- A step that makes no order. -/
theorem server (hi : Inv w s) {server : Server}
    (h : ∀ u usr', server.user u = some usr' →
      usr'.buysell = 0 ∨ ∃ usr, s.server.user u = some usr ∧ usr.SameOrder usr') :
    Inv w { s with server } where
  market := hi.market
  pc := hi.pc
  order u usr' hu hside := by
    rcases h u usr' hu with hclear | ⟨usr, hold, hsame⟩
    · exact absurd hclear hside
    · rw [hsame.buysell] at hside
      rw [hsame.promptTime, hsame.reserve, hsame.no]
      exact hi.order u usr hold hside
  used := hi.used

omit [DecidableEq ι] [DecidableEq κ] in
/-- A step of the other users leaves the order, one of its own leaves it or clears it. -/
theorem leaves (hi : Inv w s) {c : Cmd} {cUser : User} {r : Server × Reply}
    (huser : s.server.user c.userID = some cUser) (h : Stale.Leaves s.server c cUser r) :
    Inv w { s with server := r.1 } := by
  refine hi.server fun u usr' hu => ?_
  rcases h with ⟨hsame, -⟩ | ⟨usr, hset, hdone⟩
  · rw [hsame] at hu
    exact .inr ⟨usr', hu, .refl usr'⟩
  · rw [hset] at hu
    by_cases huc : u = c.userID
    · subst huc
      rw [Function.update_self] at hu
      cases hu
      exact hdone.symm.imp_right fun hsame => ⟨cUser, huser, hsame⟩
    · rw [Function.update_of_ne huc] at hu
      exact .inr ⟨usr', hu, .refl usr'⟩

omit [DecidableEq ι] [DecidableEq κ] in
theorem sameOrders (hi : Inv w s) {server : Server} (h : ∀ u, SameOrders s.server server u) :
    Inv w { s with server } := by
  refine hi.server fun u usr' hu => .inr ?_
  have hsame := h u
  rw [SameOrders, hu] at hsame
  generalize hold : s.server.user u = o at hsame
  cases hsame with
  | some hsame => exact ⟨_, rfl, hsame⟩

omit [DecidableEq ι] [DecidableEq κ] in
theorem connect (hi : Inv w s) {u : UserID} {server : Server}
    (h : TradeC.step w s.server (.connect u) = some server) : Inv w { s with server } := by
  rw [TradeC.step] at h
  split_ifs at h
  cases h
  obtain ⟨usr₀, huser, hidle, -⟩ := user_addUser w s.server u
  refine hi.server fun v usr' hv => ?_
  rw [huser] at hv
  by_cases hvu : v = u
  · subst hvu
    rw [Function.update_self] at hv
    cases hv
    exact .inl hidle
  · rw [Function.update_of_ne hvu] at hv
    exact .inr ⟨usr', hv, .refl usr'⟩

omit [DecidableEq κ] in
theorem command (hi : Inv w s) {i : ι} {c : Cmd} {commStr : Option CStr}
    (h : command w s i c commStr = some s') : Inv w s' := by
  unfold Freshness.command at h
  split at h
  · by_cases hbusy : s.busy c.userID
    · rw [if_pos hbusy] at h
      cases h
    rw [if_neg hbusy] at h
    obtain ⟨cUser, huser, h⟩ := Option.bind_eq_some_iff.mp h
    split at h
    · rename_i job stockID line _
      cases h
      have hserver : Inv w { s with server := (s.server.lenq line).findStock stockID } := by
        refine hi.server fun u usr' hu => .inr ⟨usr', ?_, .refl usr'⟩
        rw [user_findStock] at hu
        exact hu
      exact (hserver.setBusy c.userID true).goto trivial
    · rename_i hnone
      split_ifs at h with hcommits
      · cases h
        exact (hi.setBusy c.userID true).goto hcommits
      · obtain ⟨r, hr, rfl⟩ := Option.map_eq_some_iff.mp h
        rw [commandHandler, huser, Option.bind_some] at hr
        exact hi.leaves huser (Stale.leaves_dispatch (fun hcmd => refused_of_none hnone hcmd hr) hr)
  · cases h

/-! The end of a QUOTE, of an order and of a COMMIT. -/

omit [DecidableEq ι] [DecidableEq κ] in
/-- An order whose timestamp is not newer than its quote. -/
theorem prepare (hi : Inv w s) {c : Cmd} {st : StockID} {tested : Tested} {quote : Quote} {cUser : User}
    {no side : ℤ} (hfloor : tested.floor ≤ quote.ts) (htime : tested.InTime s.market.now)
    (hts : s.market.ts st ≤ quote.ts) : Inv w (s.prepare w c st tested quote cUser no side) := by
  refine Inv.use (s := { s with
    server := s.server.setUser c.userID (cUser.order (s.market.ts st) st (w (quote.price * no)) no side)
    order := Function.update s.order c.userID quote }) ⟨hi.market, hi.pc, fun u usr hu => ?_, hi.used⟩
    (Tested.fresh hfloor htime)
  change Function.update s.server.user c.userID _ u = some usr at hu
  dsimp only
  by_cases huc : u = c.userID
  · subst huc
    rw [Function.update_self] at hu
    cases hu
    rw [Function.update_self]
    exact fun _ => ⟨hts, rfl⟩
  · rw [Function.update_of_ne huc] at hu
    rw [Function.update_of_ne huc]
    exact hi.order u usr hu

omit [DecidableEq ι] [DecidableEq κ] in
theorem finish (hi : Inv w s) {job : Job} {st : StockID} {tested : Tested} {quote : Quote}
    (hfloor : tested.floor ≤ quote.ts) (hok : InTime s (.priced job st tested quote))
    (h : finish w s st tested quote job = some s') : Inv w s' := by
  cases job with
  | quote c =>
    cases h
    exact (hi.use (Tested.fresh hfloor hok)).setBusy _ _
  | buy c prc =>
    obtain ⟨cUser, -, rfl⟩ := Option.map_eq_some_iff.mp h
    dsimp only
    split_ifs
    · exact hi.setBusy _ _
    · exact (hi.prepare hfloor hok.1 hok.2).setBusy _ _
  | sell c prc =>
    obtain ⟨cUser, -, h⟩ := Option.bind_eq_some_iff.mp h
    obtain ⟨cUserStock, -, rfl⟩ := Option.map_eq_some_iff.mp h
    dsimp only
    split_ifs
    · exact hi.setBusy _ _
    · exact (hi.prepare hfloor hok.1 hok.2).setBusy _ _
  | sweep =>
    cases h
    exact hi

omit [DecidableEq κ] in
/-- A COMMIT settles with the quote of its order. -/
theorem settle (hi : Inv w s) {i : ι} {c : Cmd} {commStr : Option CStr} {r : Server × Reply}
    (hcmd : commits c) (hok : InTime s (.settle c commStr))
    (hr : commandHandler w s.server c commStr = some r) :
    Inv w ((({ s with server := r.1 }.settled c.userID r.2).setBusy c.userID false).goto i .idle) := by
  obtain ⟨cUser, huser, hr⟩ := Option.bind_eq_some_iff.mp hr
  have hserver : Inv w { s with server := r.1 } := by
    refine hi.leaves huser (Stale.leaves_dispatch (fun hmakes => ?_) hr)
    rcases hcmd with hcmd | hcmd
    · rw [hcmd] at hmakes
      exact absurd hmakes (by decide)
    · rw [hcmd] at hmakes
      exact absurd hmakes (by decide)
  refine Inv.goto (Inv.setBusy ?_ c.userID false) trivial
  cases hreply : r.2 with
  | succ data =>
    obtain ⟨hside, htime⟩ := settle_time hcmd hr hreply
    have hlinked := hi.order c.userID cUser huser hside
    have hnow := hok cUser huser htime
    refine hserver.use ?_
    dsimp only
    omega
  | fail => exact hserver
  | badcmd => exact hserver
  | summary => exact hserver

omit [DecidableEq κ] in
theorem sweep (hi : Inv w s) {i : ι} {st : StockID} (h : sweep s i st = some s') : Inv w s' := by
  unfold Freshness.sweep at h
  split at h
  · split_ifs at h
    cases h
    exact hi.goto trivial
  · cases h

omit [DecidableEq κ] in
theorem go (hi : Inv w s) {i : ι} (hok : InTime s (s.pc i)) (h : go w s i = some s') : Inv w s' := by
  have hknows := hi.pc i
  unfold Freshness.go at h
  split at h
  · cases h
  · rename_i job st hpc
    split_ifs at h
    · cases h
      have hq : Inv w (s.qenq st) := hi.stocks .elems_append (hi.market.qenq st)
      refine hq.goto ⟨⟨st, s.market.now, false⟩, ?_, rfl, rfl⟩
      exact List.getElem?_concat_length
    · cases h
      exact hi.goto (le_refl _)
  · rename_i job st n asked hpc
    split_ifs at h with hret
    cases h
    rw [hpc] at hknows
    obtain ⟨e, he, rfl, rfl⟩ := hknows
    rw [he] at hret
    refine hi.goto ?_
    have hnew := (hi.market.elems n e he).2 hret
    change e.asked - quoteTo ≤ s.market.ts e.stockID
    omega
  · rename_i job st tested hpc
    cases h
    rw [hpc] at hknows
    exact hi.goto (le_trans hknows (hi.market.price st))
  · rename_i job st tested quote hpc
    rw [hpc] at hknows hok
    obtain ⟨s₁, hs₁, rfl⟩ := Option.map_eq_some_iff.mp h
    exact (hi.finish hknows hok hs₁).goto trivial
  · rename_i c commStr hpc
    rw [hpc] at hknows hok
    obtain ⟨r, hr, rfl⟩ := Option.map_eq_some_iff.mp h
    exact hi.settle hknows hok hr

omit [DecidableEq ι] [DecidableEq κ] in
theorem examine (hi : Inv w s) {i : ι} {t : TrigID} (hok : FiresInTime s t (s.pc i))
    (h : examine w s i t = some s') : Inv w s' := by
  unfold Freshness.examine at h
  split at h
  · rename_i st tested quote hpc
    rw [hpc] at hok
    split_ifs at h
    obtain ⟨server, hserver, rfl⟩ := Option.map_eq_some_iff.mp h
    have hs := hi.sameOrders (sameOrders_examine hserver)
    dsimp only
    split_ifs with hfired
    · exact hs.use (hok ((Stale.settled_examine hserver).mp hfired))
    · exact hs
  · cases h

omit [DecidableEq ι] in
/-- What a load balancer answers is new enough to who has asked for it. -/
theorem serve (hi : Inv w s) {k : κ} {a : Act} (hok : a = .store → StoresNewer s (s.hand k))
    (h : serve w s k a (s.hand k) = some s') : Inv w s' := by
  have hin := hi.market.held k
  have hsame : s.market.Later s.market := .of_eq (le_refl _) (fun _ => le_refl _) rfl
  generalize hk : s.hand k = hand at h hin hok
  unfold Freshness.serve at h
  split at h
  · obtain ⟨e, he, rfl⟩ := Option.map_eq_some_iff.mp h
    exact hi.stocks (.of_eq (le_refl _) (fun _ => le_refl _) rfl) (hi.market.take he)
  · rename_i lb n st
    split_ifs at h with hcached
    obtain ⟨reply, hslot, rfl⟩ := Option.map_eq_some_iff.mp h
    have hnew : s.market.now - reply.ts < Quotes.quoteTo := by
      rw [hslot] at hcached
      exact of_decide_eq_true hcached
    have hlimit : Quotes.quoteTo = quoteTo := rfl
    exact hi.stocks hsame (hi.market.update (Market.Asked.mono hin (by omega)) rfl)
  · split_ifs at h
    cases h
    exact hi.stocks hsame (hi.market.update hin rfl)
  · obtain ⟨reply, -, h⟩ := Option.bind_eq_some_iff.mp h
    split_ifs at h with hsince
    cases h
    have hlimit : 0 ≤ quoteTo := by decide
    exact hi.stocks hsame (hi.market.update (Market.Asked.mono hin (by omega)) rfl)
  · cases h
    exact hi.stocks hsame (hi.market.update (hi.market.asked hin) rfl)
  · cases h
    exact hi.stocks hsame (hi.market.update (hi.market.asked hin) rfl)
  · cases h
    obtain ⟨hother, hnew⟩ := hok rfl
    exact hi.stocks (.of_eq (le_refl _) (fun _ => le_refl _) rfl) (hi.market.storePrice hk hother hnew)
  · cases h
    obtain ⟨hlater, hm⟩ := hi.market.storeTs hk
    exact hi.stocks hlater hm
  · cases h
    exact hi.stocks hsame (hi.market.update (hi.market.asked hin) rfl)
  · cases h
    exact hi.stocks (.modify _) (hi.market.post hk)
  · cases h

end Inv

end

/-! ### A run -/

section
variable {ι κ : Type*} [DecidableEq ι] [DecidableEq κ] {w : ℤ → ℤ}

theorem step_inv {s s' : State ι κ} {e : Event ι κ} (hi : Inv w s) (hok : Ok s e) (hstep : step w s e = some s') :
    Inv w s' := by
  cases e with
  | tick d =>
    cases hstep
    have hnow : s.market.now ≤ s.market.now + d := by omega
    exact hi.stocks (.of_eq hnow (fun _ => le_refl _) rfl) (hi.market.tick d)
  | connect u =>
    obtain ⟨server, hserver, rfl⟩ := Option.map_eq_some_iff.mp hstep
    exact hi.connect hserver
  | command i c commStr => exact hi.command hstep
  | sweep i st => exact hi.sweep hstep
  | go i => exact hi.go hok hstep
  | examine i t => exact hi.examine hok hstep
  | fetch lb st price sym user key =>
    cases hstep
    exact ⟨hi.market, hi.pc, hi.order, hi.used⟩
  | serve k a => exact hi.serve (fun ha => by subst ha; exact hok) hstep

/-- In a run that meets the condition, the quotes at whose prices is reported, ordered, settled and fired are
    fresh, and the reserve of a pending order is at the price of the quote that is recorded for it. -/
theorem fresh_along (w : ℤ → ℤ) (es : List (Event ι κ)) {s : State ι κ}
    (hrun : exec (step w) (initial ι κ) es = some s) (hok : Along (step w) Ok (initial ι κ) es) :
    (∀ x ∈ s.used, x.now - x.quote.ts ≤ quoteTo) ∧
      ∀ u usr, s.server.user u = some usr → usr.buysell ≠ 0 →
        usr.reserve = w ((s.order u).price * usr.no) := by
  have hi := exec_inv_along (fun s e s' hi hok hs => step_inv hi hok hs) es (initial ι κ) s Inv.initial hok hrun
  exact ⟨hi.used, fun u usr hu hside => (hi.order u usr hu hside).2⟩

end

def aCommand (name : String) (fields : Option String) : Event Bool Unit :=
  .command false ⟨"1".toList, name.toList, aUser, 0, ⟨0, 0⟩⟩ (fields.map String.toList)

/-- The quote of a new stock, with the request that it needs. -/
def firstQuote : List (Event Bool Unit) :=
  [.tick 100000, .fetch 0 stockABC "10.00".toList "ABC".toList "aaaaaaaaaa".toList "k".toList, .connect aUser,
    aCommand "QUOTE" (some "ABC"), .go false, .serve () .take, .serve () (.hit 0), .serve () .store,
    .serve () .store, .serve () .post, .go false, .go false, .go false]

/-- A quote, shares bought and paid for in time, and a trigger that is fired at the price of the same quote. -/
def aRun : List (Event Bool Unit) :=
  firstQuote ++ [aCommand "ADD" (some "50.00"), .tick 1000, aCommand "BUY" (some "ABC,20.00"), .go false,
    .go false, .go false, .tick 1000, aCommand "COMMIT_BUY" none, .go false,
    aCommand "SET_BUY_AMOUNT" (some "ABC,20.00"), aCommand "SET_BUY_TRIGGER" (some "ABC,11.00"),
    .sweep true stockABC, .go true, .go true, .tick 1000, .examine true 0, .go true]

theorem fresh_aRun : ∃ s, exec (step wrap64) (initial Bool Unit) aRun = some s ∧ s.used.length = 4 ∧
    ∀ x ∈ s.used, x.now - x.quote.ts ≤ quoteTo := by
  obtain ⟨s, hrun, hlen⟩ : ∃ s, exec (step wrap64) (initial Bool Unit) aRun = some s ∧ s.used.length = 4 :=
    ⟨_, rfl, rfl⟩
  exact ⟨s, hrun, hlen, (fresh_along wrap64 aRun hrun (by decide +kernel)).1⟩

/-- A quote that is not bought with is never asked for again. -/
theorem secondQuote : ∃ es s, exec (step wrap64) (initial Bool Unit) es = some s ∧
    ¬ ∀ x ∈ s.used, x.now - x.quote.ts ≤ quoteTo := by
  obtain ⟨s, hrun, hused⟩ : ∃ s, exec (step wrap64) (initial Bool Unit)
      (firstQuote ++ [.tick 100000, aCommand "QUOTE" (some "ABC"), .go false, .go false, .go false]) = some s ∧
    s.used = [⟨⟨1000, 100000⟩, 100000⟩, ⟨⟨1000, 100000⟩, 200000⟩] := ⟨_, rfl, rfl⟩
  refine ⟨_, s, hrun, fun h => ?_⟩
  rw [hused] at h
  exact absurd (h _ (List.mem_cons_of_mem _ List.mem_cons_self)) (by decide)

end TradeC.Freshness
