import TradeC.Amounts
import TradeC.Orders

/-! What the trades do that go through: the two commands of an order, the two of a trigger and the
    firing.

    One lemma for each, with the record, the triggers, the settlement and the request that it leaves.
    They hold for any `w`, so also where a result overflows. -/

namespace TradeC
open Server

/-- The event is the command `name` for a stock, with an amount that is read as `a`. -/
def Event.Asks (w : ℤ → ℤ) (e : Event) (c : Cmd) (name : String) (st : StockID) (a : ℤ) : Prop :=
  ∃ stk amt, e.Is c name [stk, amt] ∧ toStockID stk = some st ∧ str2price w amt = a ∧ a ≠ -1

/-- The quote that BUY and SELL take. -/
def Server.quoteFor (s : Server) (c : Cmd) (st : StockID) : Quote := (s.freshQuote c st).stock st

/-- An order of a user for an amount at the price `p`, and its commit in time. -/
def Server.ByHand (w : ℤ → ℤ) (s : Server) (order commit : String) (u : UserID) (st : StockID)
    (a p : ℤ) (es : List Event) : Prop :=
  ∃ c c' e e', es = [e, e'] ∧ e.Asks w c order st a ∧ e'.Is c' commit [] ∧ c.userID = u ∧
    c'.userID = u ∧ (s.quoteFor c st).price = p ∧ c'.now - (s.quoteFor c st).ts ≤ quoteTo

/-- What a step leaves of the record of `u`, the triggers, the settlements and the tables. -/
structure Server.Effect (s s' : Server) (u : UserID) (usr' : User) (m' : Mem)
    (xs : List (UserID × Settlement)) (req : List Stmt) : Prop where
  user : s'.user = Function.update s.user u (some usr')
  mem : s'.mem = m'
  settled : s'.settled = s.settled ++ xs
  db : s'.db = s.db.run req
  stocks : s.stocks ⊆ s'.stocks

/-- The shares that SELL and a firing take for an amount. -/
def sellShares (w : ℤ → ℤ) (num prc quotePrice : ℤ) : ℤ :=
  if num < w (prc.tdiv quotePrice + 1) then num else w (prc.tdiv quotePrice + 1)

/-- The record with an order. -/
def User.order (usr : User) (ts : ℤ) (st : StockID) (reserve no side : ℤ) : User :=
  { usr with promptTime := ts, stockObj := some st, reserve, no, buysell := side }

variable {w : ℤ → ℤ} {s : Server} {c : Cmd} {e : Event} {usr : User} {st : StockID} {a : ℤ}
  {stk amt : CStr}

theorem quote_freshQuote (s : Server) (c : Cmd) (st : StockID) (line : LogLine) :
    (((s.lenq line).findStock st).freshQuote c st).stock st = s.quoteFor c st := by
  have hstock : ((s.lenq line).findStock st).stock = s.stock := by
    unfold findStock
    split_ifs <;> rfl
  unfold quoteFor freshQuote
  rw [hstock]
  split_ifs with hold
  · simp [setQuote]
  · rw [hstock]

theorem quiet_quoted (c : Cmd) (stk file amt : CStr) (st : StockID) :
    s.Quiet (((s.lenq (c.logLine stk file amt)).findStock st).freshQuote c st) :=
  ((quiet_logLine c stk file amt).trans (quiet_findStock st)).trans (quiet_freshQuote c st)

theorem step_command {name : String} {fields : List CStr} (he : e.Is c name fields)
    (husr : s.user c.userID = some usr) :
    step w s e = (Command.dispatch w s c usr fields).map Prod.fst := by
  obtain ⟨comm, rfl, _, hf⟩ := he
  simp only [step, commandHandler, husr, Option.bind_some, hf]

theorem update_user {u : UserID} (husr : s.user u = some usr) :
    s.user = Function.update s.user u (some usr) := by
  rw [← husr, Function.update_eq_self]

theorem Server.Effect.at {s' : Server} {u : UserID} {usr' : User} {m' : Mem}
    {xs : List (UserID × Settlement)} {req : List Stmt} (h : s.Effect s' u usr' m' xs req) :
    s'.user u = some usr' := by
  rw [h.user, Function.update_self]

theorem Server.Effect.of_quiet {s₁ s' : Server} {u : UserID} {usr' : User} {m' : Mem}
    {xs : List (UserID × Settlement)} {req : List Stmt} (h : s.Quiet s₁)
    (heff : s₁.Effect s' u usr' m' xs req) : s.Effect s' u usr' m' xs req where
  user := by rw [heff.user, h.user]
  mem := heff.mem
  settled := by rw [heff.settled, h.settled]
  db := by rw [heff.db, h.db]
  stocks _ hx := heff.stocks (h.stocks hx)

/-! ### Orders -/

theorem step_buy (he : e.Asks w c "BUY" st a) (husr : s.user c.userID = some usr)
    (hidle : usr.buysell = 0) (hbal : a ≤ usr.balance) (hp : 1 ≤ (s.quoteFor c st).price)
    (hno : a.tdiv (s.quoteFor c st).price ≠ 0) :
    ∃ s', step w s e = some s' ∧ s.Effect s' c.userID
      (usr.order (s.quoteFor c st).ts st
        (w ((s.quoteFor c st).price * a.tdiv (s.quoteFor c st).price))
        (a.tdiv (s.quoteFor c st).price) 1) s.mem [] [] := by
  obtain ⟨stk, amt, his, hst, rfl, hprc⟩ := he
  have hcmd := his
  obtain ⟨_, _, hcmd, _⟩ := hcmd
  have hq := quiet_quoted (s := s) c stk spc amt st
  have hquote := quote_freshQuote s c st (c.logLine stk spc amt)
  refine ⟨_, by rw [step_command his husr, Command.dispatch, if_pos hcmd]; rfl, ?_⟩
  unfold Command.buy
  simp only [hst, if_neg hprc, if_neg (not_not.mpr hidle), if_neg (not_lt.mpr hbal), hquote,
    if_neg (not_lt.mpr hp), if_neg hno]
  exact ⟨by simp [User.order], hq.mem, by simp [setUser, hq.settled], hq.db, hq.stocks⟩

theorem step_sell {uso : UserStock} (he : e.Asks w c "SELL" st a)
    (husr : s.user c.userID = some usr) (hidle : usr.buysell = 0)
    (huso : getUserStock usr.usTree st = some uso) (hnum : uso.num ≠ 0)
    (hp : 1 ≤ (s.quoteFor c st).price) :
    ∃ s', step w s e = some s' ∧ s.Effect s' c.userID
      (usr.order (s.quoteFor c st).ts st
        (w ((s.quoteFor c st).price * sellShares w uso.num a (s.quoteFor c st).price))
        (sellShares w uso.num a (s.quoteFor c st).price) (-1)) s.mem [] [] := by
  obtain ⟨stk, amt, his, hst, rfl, hprc⟩ := he
  have hcmd := his
  obtain ⟨_, _, hcmd, _⟩ := hcmd
  have hq := quiet_quoted (s := s) c stk spc amt st
  have hquote := quote_freshQuote s c st (c.logLine stk spc amt)
  refine ⟨_, by rw [step_command his husr, Command.dispatch, if_neg (by simp [hcmd]), if_pos hcmd]; rfl, ?_⟩
  unfold Command.sell
  simp only [hst, if_neg hprc, huso, if_neg hnum, if_neg (not_not.mpr hidle), hquote,
    if_neg (not_lt.mpr hp)]
  exact ⟨by simp [User.order, sellShares], hq.mem, by simp [setUser, hq.settled], hq.db, hq.stocks⟩

theorem step_commitBuy (he : e.Is c "COMMIT_BUY" []) (husr : s.user c.userID = some usr)
    (hside : usr.buysell = 1) (htime : c.now - usr.promptTime ≤ quoteTo)
    (hst : usr.stockObj = some st) :
    ∃ s', step w s e = some s' ∧ s.Effect s' c.userID
      ({ usr with
        balance := w (usr.balance - usr.reserve)
        usTree := (takeStock w c.userID usr.usTree st usr.no).1 } : User).clearOrder s.mem
      [(c.userID, .commitBuy usr.reserve)]
      [(takeStock w c.userID usr.usTree st usr.no).2,
        .updateBal (price2str (w (usr.balance - usr.reserve))) c.userID,
        c.insertTran st.str (price2str usr.reserve) 'b'] := by
  have hcmd := he
  obtain ⟨_, _, hcmd, _⟩ := hcmd
  rw [step_command he husr, Command.dispatch, if_pos hcmd, Command.commitBuy]
  simp only [if_neg (not_not.mpr hside), if_neg (not_lt.mpr htime), hst]
  exact ⟨_, rfl, by simp, rfl, rfl, rfl, fun _ hx => hx⟩

theorem step_commitSell {uso : UserStock} (he : e.Is c "COMMIT_SELL" [])
    (husr : s.user c.userID = some usr) (hside : usr.buysell = -1)
    (htime : c.now - usr.promptTime ≤ quoteTo) (hst : usr.stockObj = some st)
    (huso : getUserStock usr.usTree st = some uso) :
    ∃ s', step w s e = some s' ∧ s.Effect s' c.userID
      ({ usr with
        balance := w (usr.balance + usr.reserve)
        usTree := setNum usr.usTree st uso (w (uso.num - usr.no)) } : User).clearOrder s.mem
      [(c.userID, .commitSell usr.reserve)]
      [.updateBal (price2str (w (usr.balance + usr.reserve))) c.userID,
        .updateStk (w (uso.num - usr.no)) c.userID st,
        c.insertTran st.str (price2str usr.reserve) 's'] := by
  have hcmd := he
  obtain ⟨_, _, hcmd, _⟩ := hcmd
  rw [step_command he husr, Command.dispatch, if_neg (by simp [hcmd]), if_neg (by simp [hcmd]),
    if_pos hcmd, Command.commitSell]
  simp only [if_neg (not_not.mpr hside), if_neg (not_lt.mpr htime), hst, huso]
  exact ⟨_, rfl, by simp, rfl, rfl, rfl, fun _ hx => hx⟩

/-- What an order leaves is what the rest of the run is about. -/
theorem Server.Effect.after_order {s₁ s' : Server} {u : UserID} {usr₁ usr' : User} {m' : Mem}
    {xs : List (UserID × Settlement)} {req : List Stmt} (h : s.Effect s₁ u usr₁ s.mem [] [])
    (heff : s₁.Effect s' u usr' m' xs req) : s.Effect s' u usr' m' xs req where
  user := by rw [heff.user, h.user, Function.update_idem]
  mem := heff.mem
  settled := by rw [heff.settled, h.settled, List.append_nil]
  db := by
    rw [heff.db, h.db]
    rfl
  stocks _ hx := heff.stocks (h.stocks hx)

/-- BUY, and COMMIT_BUY in time. -/
theorem exec_buy {p : ℤ} {c' : Cmd} {e' : Event} (he : e.Asks w c "BUY" st a)
    (he' : e'.Is c' "COMMIT_BUY" []) (hc : c'.userID = c.userID) (husr : s.user c.userID = some usr)
    (hidle : usr.buysell = 0) (hbal : a ≤ usr.balance) (hprice : (s.quoteFor c st).price = p)
    (hp : 1 ≤ p) (hno : a.tdiv p ≠ 0) (htime : c'.now - (s.quoteFor c st).ts ≤ quoteTo) :
    ∃ s', Run.exec (step w) s [e, e'] = some s' ∧ s.Effect s' c.userID
      ({ usr with
        balance := w (usr.balance - w (p * a.tdiv p))
        usTree := (takeStock w c.userID usr.usTree st (a.tdiv p)).1 } : User).clearOrder s.mem
      [(c.userID, .commitBuy (w (p * a.tdiv p)))]
      [(takeStock w c.userID usr.usTree st (a.tdiv p)).2,
        .updateBal (price2str (w (usr.balance - w (p * a.tdiv p)))) c.userID,
        c'.insertTran st.str (price2str (w (p * a.tdiv p))) 'b'] := by
  subst hprice
  obtain ⟨s₁, hs₁, heff₁⟩ := step_buy he husr hidle hbal hp hno
  have husr₁ := hc.symm ▸ heff₁.at
  obtain ⟨s', hs', heff⟩ := step_commitBuy (w := w) he' husr₁ rfl htime (Eq.refl (some st))
  rw [hc] at heff
  exact ⟨s', by simp [Run.exec, hs₁, hs'], heff₁.after_order (heff₁.mem ▸ heff)⟩

/-- SELL, and COMMIT_SELL in time. -/
theorem exec_sell {p : ℤ} {c' : Cmd} {e' : Event} {uso : UserStock} (he : e.Asks w c "SELL" st a)
    (he' : e'.Is c' "COMMIT_SELL" []) (hc : c'.userID = c.userID)
    (husr : s.user c.userID = some usr) (hidle : usr.buysell = 0)
    (huso : getUserStock usr.usTree st = some uso) (hnum : uso.num ≠ 0)
    (hprice : (s.quoteFor c st).price = p) (hp : 1 ≤ p)
    (htime : c'.now - (s.quoteFor c st).ts ≤ quoteTo) :
    ∃ s', Run.exec (step w) s [e, e'] = some s' ∧ s.Effect s' c.userID
      ({ usr with
        balance := w (usr.balance + w (p * sellShares w uso.num a p))
        usTree := setNum usr.usTree st uso (w (uso.num - sellShares w uso.num a p)) } :
          User).clearOrder s.mem
      [(c.userID, .commitSell (w (p * sellShares w uso.num a p)))]
      [.updateBal (price2str (w (usr.balance + w (p * sellShares w uso.num a p)))) c.userID,
        .updateStk (w (uso.num - sellShares w uso.num a p)) c.userID st,
        c'.insertTran st.str (price2str (w (p * sellShares w uso.num a p))) 's'] := by
  subst hprice
  obtain ⟨s₁, hs₁, heff₁⟩ := step_sell he husr hidle huso hnum hp
  have husr₁ := hc.symm ▸ heff₁.at
  obtain ⟨s', hs', heff⟩ := step_commitSell (w := w) he' husr₁ rfl htime (Eq.refl (some st)) huso
  rw [hc] at heff
  exact ⟨s', by simp [Run.exec, hs₁, hs'], heff₁.after_order (heff₁.mem ▸ heff)⟩

/-! ### Triggers -/

/-- The amount is escrowed, for a trigger that has no price yet. -/
theorem step_setBuyAmount {m' : Mem} (he : e.Is c "SET_BUY_AMOUNT" [stk, amt])
    (hst : toStockID stk = some st) (ha : str2price w amt = a) (hne : a ≠ -1)
    (husr : s.user c.userID = some usr) (hidle : usr.buysell = 0) (hbal : a ≤ usr.balance)
    (hnone : s.mem.getTrigger c.userID st .b = none)
    (hadd : (s.mem.addTrigger c.userID c.transID st .b a 0).1 = m') :
    ∃ s', step w s e = some s' ∧ st ∈ s'.stocks ∧ s.Effect s' c.userID
      { usr with balance := w (usr.balance - a) } m' []
      [.updateBal (price2str (w (usr.balance - a))) c.userID,
        .insertTrig c.userID c.transID st .b amt "0.00".toList] := by
  subst ha hadd
  have hcmd := he
  obtain ⟨_, _, hcmd, _⟩ := hcmd
  have hq := (quiet_logLine (s := s) c stk spc amt).trans (quiet_findStock st)
  have hget : ((s.lenq (c.logLine stk spc amt)).findStock st).mem.getTrigger c.userID st .b = none := by
    rw [hq.mem, hnone]
  rw [step_command he husr, Command.dispatch, if_neg (by simp [hcmd]), if_neg (by simp [hcmd]),
    if_pos hcmd, Command.setBuyAmount]
  simp only [hst, if_neg hne, if_neg (not_not.mpr hidle), if_neg (not_lt.mpr hbal), hget]
  exact ⟨_, rfl, mem_findStock _ st,
    .of_quiet hq ⟨rfl, by rw [← hq.mem]; rfl, (List.append_nil _).symm, rfl, fun _ hx => hx⟩⟩

/-- A sell trigger escrows nothing. -/
theorem step_setSellAmount {m' : Mem} (he : e.Is c "SET_SELL_AMOUNT" [stk, amt])
    (hst : toStockID stk = some st) (ha : str2price w amt = a) (hne : a ≠ -1)
    (husr : s.user c.userID = some usr) (hidle : usr.buysell = 0)
    (hheld : (getUserStock usr.usTree st).isSome)
    (hnone : s.mem.getTrigger c.userID st .s = none)
    (hadd : (s.mem.addTrigger c.userID c.transID st .s a 0).1 = m') :
    ∃ s', step w s e = some s' ∧ st ∈ s'.stocks ∧ s.Effect s' c.userID usr m' []
      [.insertTrig c.userID c.transID st .s amt "0.00".toList] := by
  subst ha hadd
  have hcmd := he
  obtain ⟨_, _, hcmd, _⟩ := hcmd
  have hq := (quiet_logLine (s := s) c stk spc amt).trans (quiet_findStock st)
  have hget : (((s.lenq (c.logLine stk spc amt)).findStock st).mem.getTrigger c.userID st .s).isSome =
      false := by
    rw [hq.mem, hnone]
    rfl
  have hsome : (getUserStock usr.usTree st).isNone = false := by simpa using hheld
  rw [step_command he husr, Command.dispatch, if_neg (by simp [hcmd]), if_neg (by simp [hcmd]),
    if_neg (by simp [hcmd]), if_neg (by simp [hcmd]), if_pos hcmd, Command.setSellAmount]
  simp only [hst, if_neg hne, if_neg (not_not.mpr hidle), hsome, hget, Bool.false_eq_true, if_false]
  exact ⟨_, rfl, mem_findStock _ st,
    .of_quiet hq ⟨update_user (hq.user ▸ husr), by rw [← hq.mem]; rfl, (List.append_nil _).symm,
      rfl, fun _ hx => hx⟩⟩

/-- The commands that make a trigger. -/
def TType.amountCommand : TType → String
  | .b => "SET_BUY_AMOUNT"
  | .s => "SET_SELL_AMOUNT"

/-- The commands that give it its price. -/
def TType.priceCommand : TType → String
  | .b => "SET_BUY_TRIGGER"
  | .s => "SET_SELL_TRIGGER"

theorem step_setTrigger {ty : TType} {t : TrigID} (he : e.Is c ty.priceCommand [stk, amt])
    (hst : toStockID stk = some st) (ha : str2price w amt = a) (hne : a ≠ -1)
    (husr : s.user c.userID = some usr) (hget : s.mem.getTrigger c.userID st ty = some t) :
    ∃ s', step w s e = some s' ∧ s.Effect s' c.userID usr (Command.setTrig s.mem t a) []
      [.updateTrig amt c.userID st ty] := by
  subst ha
  have hcmd := he
  obtain ⟨_, _, hcmd, _⟩ := hcmd
  have hq := (quiet_logLine (s := s) c stk spc amt).trans (quiet_findStock st)
  have hget' : ((s.lenq (c.logLine stk spc amt)).findStock st).mem.getTrigger c.userID st ty = some t := by
    rw [hq.mem, hget]
  have hrun : Command.dispatch w s c usr [stk, amt] = some (Command.setTrigger w s c ty stk amt) := by
    cases ty <;> simp [Command.dispatch, hcmd, TType.priceCommand, Command.setBuyTrigger,
      Command.setSellTrigger]
  rw [step_command he husr, hrun, Command.setTrigger]
  simp only [hst, if_neg hne, hget']
  exact ⟨_, rfl,
    .of_quiet hq ⟨update_user (hq.user ▸ husr), by rw [← hq.mem]; rfl, (List.append_nil _).symm,
      rfl, fun _ hx => hx⟩⟩

/-! ### Firings -/

section Firing
variable {t : TrigID} {tr : Trigger} {p : ℤ} {m' : Mem} {freed : List (Path × Node TrigID)}

theorem step_fireBuy (now : ℤ) (htr : s.mem.obj t = some tr) (husr : s.user tr.userObj = some usr)
    (hlinked : ∃ st ∈ s.stocks, t ∈ s.mem.linked st) (hty : tr.type = .b) (hp : 1 ≤ p)
    (hpt : p < tr.trig) (hno : tr.amount.tdiv p ≠ 0)
    (hrem : s.mem.removeTrigger t = some (m', freed)) :
    ∃ s', step w s (.examine t p now) = some s' ∧ s.Effect s' tr.userObj
      { usr with
        balance := w (w (usr.balance + tr.amount) - w (p * tr.amount.tdiv p))
        usTree := (takeStock w tr.userObj usr.usTree tr.stockObj (tr.amount.tdiv p)).1 } m'
      [(tr.userObj, .firedBuy (w (p * tr.amount.tdiv p)))]
      [(takeStock w tr.userObj usr.usTree tr.stockObj (tr.amount.tdiv p)).2,
        .updateBal (price2str (w (w (usr.balance + tr.amount) - w (p * tr.amount.tdiv p)))) tr.userObj,
        .insertTran tr.userObj tr.transID tr.stockObj.str (price2str (w (p * tr.amount.tdiv p))) now 'g',
        .deleteTrig tr.userObj tr.stockObj tr.type] := by
  have hguard : 1 ≤ p ∧ s.stocks.any fun st => t ∈ s.mem.linked st := by simpa using ⟨hp, hlinked⟩
  rw [step, if_pos hguard, Sweep.examine]
  simp only [htr, husr, Option.bind_some, hty, if_pos hpt, Sweep.fireBuy, if_neg hno, consume]
  simp only [lenq, settle, setUser, hrem, Option.map_some]
  exact ⟨_, rfl, rfl, rfl, rfl, by simp [dbenq], fun _ hx => hx⟩

theorem step_fireSell {uso : UserStock} (now : ℤ) (htr : s.mem.obj t = some tr)
    (husr : s.user tr.userObj = some usr) (hlinked : ∃ st ∈ s.stocks, t ∈ s.mem.linked st)
    (hty : tr.type = .s) (hp : 1 ≤ p) (hpt : tr.trig < p) (hzero : tr.trig ≠ 0)
    (huso : getUserStock usr.usTree tr.stockObj = some uso) (hnum : uso.num ≠ 0)
    (hrem : s.mem.removeTrigger t = some (m', freed)) :
    ∃ s', step w s (.examine t p now) = some s' ∧ s.Effect s' tr.userObj
      { usr with
        balance := w (usr.balance + w (p * sellShares w uso.num tr.amount p))
        usTree := setNum usr.usTree tr.stockObj uso (w (uso.num - sellShares w uso.num tr.amount p)) } m'
      [(tr.userObj, .firedSell (w (p * sellShares w uso.num tr.amount p)))]
      [.updateStk (w (uso.num - sellShares w uso.num tr.amount p)) tr.userObj tr.stockObj,
        .updateBal (price2str (w (usr.balance + w (p * sellShares w uso.num tr.amount p)))) tr.userObj,
        .insertTran tr.userObj tr.transID tr.stockObj.str
          (price2str (w (p * sellShares w uso.num tr.amount p))) now 'h',
        .deleteTrig tr.userObj tr.stockObj tr.type] := by
  have hguard : 1 ≤ p ∧ s.stocks.any fun st => t ∈ s.mem.linked st := by simpa using ⟨hp, hlinked⟩
  rw [step, if_pos hguard, Sweep.examine]
  simp only [htr, husr, Option.bind_some, hty, if_pos (And.intro hpt hzero), gt_iff_lt, Sweep.fireSell,
    huso, if_neg hnum, consume]
  simp only [lenq, settle, setUser, hrem, Option.map_some]
  exact ⟨_, rfl, rfl, rfl, rfl, by simp [dbenq, sellShares], fun _ hx => hx⟩

end Firing

end TradeC
