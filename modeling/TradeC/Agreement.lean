import TradeC.Sales
import TradeC.Mirror

/-! A trade by hand and a trade by a trigger come out alike.

    The order of a BUY is paid at its commit; SET_BUY_AMOUNT takes the whole amount at once, and the
    firing gives back what is not spent. At the same price both leave the same balance, the same
    holdings and the same rows, however large the numbers are: what overflows, overflows in both. -/

namespace TradeC
open Run Server Decimal

/-- A trigger is made, gets its price, and the sweep comes to it with the price `p`. -/
def Server.ByTrigger (w : ℤ → ℤ) (s : Server) (ty : TType) (u : UserID) (st : StockID)
    (a trigPrc p : ℤ) (es : List Event) : Prop :=
  ∃ c c' e e' now, es = [e, e', .examine s.mem.fresh p now] ∧ e.Asks w c ty.amountCommand st a ∧
    e'.Asks w c' ty.priceCommand st trigPrc ∧ c.userID = u ∧ c'.userID = u

/-- The same balance, the same holdings, and the same rows of both in the database. -/
structure Server.Agrees (s s' : Server) (u : UserID) : Prop where
  user : ∃ usr usr', s.user u = some usr ∧ s'.user u = some usr' ∧ usr.balance = usr'.balance ∧
    ∀ st, getUserStock usr.usTree st = getUserStock usr'.usTree st
  accounts : s.db.accounts = s'.db.accounts
  stocks : s.db.stocks = s'.db.stocks

/-! ### The trigger that is made -/

/-- A trigger that can fire. -/
structure Server.Armed (s : Server) (t : TrigID) (tr : Trigger) : Prop where
  obj : s.mem.obj t = some tr
  linked : ∃ st ∈ s.stocks, t ∈ s.mem.linked st
  removable : ∃ r, s.mem.removeTrigger t = some r

section Arming
variable {w : ℤ → ℤ} {s : Server} {c c' : Cmd} {e e' : Event} {usr : User} {st : StockID}
  {a trigPrc : ℤ}

theorem Mem.WF.armed {m : Mem} (hw : m.WF) {u : UserID} {ty : TType}
    (hnone : m.getTrigger u st ty = none) (tid : CStr) (a trigPrc : ℤ) :
    (m.addTrigger u tid st ty a 0).1.getTrigger u st ty = some m.fresh ∧
      (Command.setTrig (m.addTrigger u tid st ty a 0).1 m.fresh trigPrc).obj m.fresh =
        some ⟨ty, trigPrc, a, tid, keyOf st ty, u, st⟩ ∧
      m.fresh ∈ (Command.setTrig (m.addTrigger u tid st ty a 0).1 m.fresh trigPrc).linked st ∧
      ∃ r, (Command.setTrig (m.addTrigger u tid st ty a 0).1 m.fresh trigPrc).removeTrigger m.fresh =
        some r := by
  obtain ⟨m', hadd, hm, -, hobj, -, hget⟩ := hw.addTrigger_new hnone tid a 0
  rw [hadd]
  have hown : m'.getTrigger u st ty = some m.fresh := by simp [hget]
  have htr : m'.obj m.fresh = some ⟨ty, 0, a, tid, keyOf st ty, u, st⟩ := by simp [hobj]
  obtain ⟨hm', hobj'⟩ := wf_setTrig hm htr trigPrc
  have htr' : (Command.setTrig m' m.fresh trigPrc).obj m.fresh =
      some ⟨ty, trigPrc, a, tid, keyOf st ty, u, st⟩ := by simp [hobj']
  exact ⟨hown, htr', hm'.mem_linked.mpr ⟨_, htr', rfl⟩, hm'.removeTrigger_isSome hown⟩

/-- The trigger that a command has made gets its price. -/
theorem exec_arm (hw : s.WF) {u : UserID} {ty : TType} {tid : CStr} {s₁ : Server} {req : List Stmt}
    (hnone : s.mem.getTrigger u st ty = none) (hs₁ : step w s e = some s₁) (hlisted : st ∈ s₁.stocks)
    (heff₁ : s.Effect s₁ u usr (s.mem.addTrigger u tid st ty a 0).1 [] req)
    (he' : e'.Asks w c' ty.priceCommand st trigPrc) (hc : c'.userID = u) :
    ∃ s₂ amt', exec (step w) s [e, e'] = some s₂ ∧
      s₂.Armed s.mem.fresh ⟨ty, trigPrc, a, tid, Mem.keyOf st ty, u, st⟩ ∧ s₂.user u = some usr ∧
      s₂.db = (s.db.run req).run [.updateTrig amt' u st ty] := by
  subst hc
  obtain ⟨stk', amt', his', hst', hamt', hne'⟩ := he'
  obtain ⟨hown, hobj, hlinked, hrem⟩ := hw.mem.armed hnone tid a trigPrc
  obtain ⟨s₂, hs₂, heff₂⟩ := step_setTrigger (w := w) (t := s.mem.fresh) his' hst' hamt' hne' heff₁.at
    (by rw [heff₁.mem, hown])
  refine ⟨s₂, amt', by simp [exec, hs₁, hs₂], ⟨?_, ⟨st, heff₂.stocks hlisted, ?_⟩, ?_⟩, heff₂.at, ?_⟩
  · rw [heff₂.mem, heff₁.mem, hobj]
  · rw [heff₂.mem, heff₁.mem]
    exact hlinked
  · rw [heff₂.mem, heff₁.mem]
    exact hrem
  · rw [heff₂.db, heff₁.db]

end Arming

/-! ### The rows -/

namespace Db
variable {u : UserID} {db db' db'' : Db}

/-- The same accounts but for the balance of `u`, and the same stocks. -/
structure UpTo (u : UserID) (db db' : Db) : Prop where
  accounts : ∀ x, (db.setBalance u x).accounts = (db'.setBalance u x).accounts
  stocks : db.stocks = db'.stocks

theorem UpTo.trans (h : UpTo u db db') (h' : UpTo u db' db'') : UpTo u db db'' :=
  ⟨fun x => (h.accounts x).trans (h'.accounts x), h.stocks.trans h'.stocks⟩

theorem setBalance_setBalance (db : Db) (u : UserID) (x y : ℤ) :
    (db.setBalance u x).setBalance u y = db.setBalance u y := by
  simp only [setBalance, List.map_map, Db.mk.injEq, and_true]
  refine List.map_congr_left fun r _ => ?_
  by_cases hu : r.1 = u
  · simp [hu]
  · simp [hu]

/-- A request that fails leaves the tables. -/
theorem run_of_none {req : List Stmt} (h : req.foldlM exec db = none) : db.run req = db := by
  rw [run, h, Option.getD_none]

/-- A trigger's own statements leave the accounts and the stocks. -/
structure SameRows (db db' : Db) : Prop where
  accounts : db.accounts = db'.accounts
  stocks : db.stocks = db'.stocks

theorem SameRows.trans (h : SameRows db db') (h' : SameRows db' db'') : SameRows db db'' :=
  ⟨h.accounts.trans h'.accounts, h.stocks.trans h'.stocks⟩

theorem SameRows.upTo (h : SameRows db db') (u : UserID) : UpTo u db db' :=
  ⟨fun x => by simp only [setBalance, h.accounts], h.stocks⟩

theorem sameRows_insertTrig (db : Db) (u : UserID) (tid funds value : CStr) (st : StockID) (ty : TType) :
    SameRows db (db.run [.insertTrig u tid st ty funds value]) := by
  cases hf : numeric funds with
  | none => rw [run_of_none (by simp [exec, hf])]; exact ⟨rfl, rfl⟩
  | some f =>
    cases hv : numeric value with
    | none => rw [run_of_none (by simp [exec, hf, hv])]; exact ⟨rfl, rfl⟩
    | some v =>
      have hrun : db.run [.insertTrig u tid st ty funds value] = db.addTrig ⟨u, tid, st, ty, f, v⟩ :=
        run_of_foldlM (by simp [exec_insertTrig hf hv])
      rw [hrun]
      exact ⟨rfl, rfl⟩

theorem sameRows_updateTrig (db : Db) (u : UserID) (value : CStr) (st : StockID) (ty : TType) :
    SameRows db (db.run [.updateTrig value u st ty]) := by
  cases hv : numeric value with
  | none => rw [run_of_none (by simp [exec, hv])]; exact ⟨rfl, rfl⟩
  | some v =>
    rw [run_of_foldlM (by simp only [List.foldlM_cons, exec_updateTrig hv]; rfl)]
    exact ⟨rfl, rfl⟩

/-- The first request of a buy trigger. -/
theorem upTo_insertTrig (db : Db) {u : UserID} {bal : CStr} {x : ℤ} (hb : numeric bal = some x)
    (tid funds value : CStr) (st : StockID) (ty : TType) :
    UpTo u db (db.run [.updateBal bal u, .insertTrig u tid st ty funds value]) := by
  cases hins : [Stmt.insertTrig u tid st ty funds value].foldlM exec (db.setBalance u x) with
  | none =>
    rw [run_of_none (by simpa [exec_updateBal hb] using hins)]
    exact ⟨fun _ => rfl, rfl⟩
  | some db' =>
    have hrows := sameRows_insertTrig (db.setBalance u x) u tid funds value st ty
    rw [run_of_foldlM hins] at hrows
    have hrun : db.run [.updateBal bal u, .insertTrig u tid st ty funds value] = db' :=
      run_of_foldlM (by simpa [exec_updateBal hb] using hins)
    rw [hrun]
    refine ⟨fun y => ?_, hrows.stocks⟩
    rw [← (hrows.upTo u).accounts y, setBalance_setBalance]

/-- A statement that changes the stocks only, and always can. -/
def StockStmt (stk : Stmt) : Prop :=
  ∃ f : List StkRow → List StkRow, ∀ db : Db, db.exec stk = some { db with stocks := f db.stocks }

theorem stockStmt_updateStk (n : ℤ) (u : UserID) (st : StockID) : StockStmt (.updateStk n u st) :=
  ⟨_, fun _ => rfl⟩

theorem stockStmt_takeStock (w : ℤ → ℤ) (u : UserID) (us : Trie UserStock) (st : StockID) (n : ℤ) :
    StockStmt (takeStock w u us st n).2 := by
  unfold takeStock
  split
  · exact ⟨fun rows => rows ++ [⟨u, st, n⟩], fun _ => rfl⟩
  · exact stockStmt_updateStk _ _ _

/-- An entry in `transactions`, which needs its amount to be a number. -/
def TranStmt (adj : CStr) (tran : Stmt) : Prop :=
  ∀ db : Db, db.exec tran = (numeric adj).map fun _ => db

section Final
variable {stk tran tran' : Stmt} {bal adj : CStr} (hstk : StockStmt stk) (htran : TranStmt adj tran)
  (htran' : TranStmt adj tran') (st : StockID) (ty : TType)
include hstk htran htran'

/-- The last requests of a BUY and of a firing. -/
theorem sameRows_bought (h : UpTo u db db') {x y : ℤ} (hb : numeric bal = some x)
    (ha : numeric adj = some y) :
    SameRows (db.run [stk, .updateBal bal u, tran])
      (db'.run [stk, .updateBal bal u, tran', .deleteTrig u st ty]) := by
  obtain ⟨f, hf⟩ := hstk
  have hleft : db.run [stk, .updateBal bal u, tran] =
      ({ db with stocks := f db.stocks } : Db).setBalance u x :=
    run_of_foldlM (by simp [hf, exec_updateBal hb, htran _, ha])
  have hright : db'.run [stk, .updateBal bal u, tran', .deleteTrig u st ty] =
      (({ db' with stocks := f db'.stocks } : Db).setBalance u x).deleteTrig u st ty :=
    run_of_foldlM (by simp [hf, exec_updateBal hb, htran' _, ha]; rfl)
  rw [hleft, hright]
  exact ⟨h.accounts x, congrArg f h.stocks⟩

/-- The last requests of a SELL and of a firing: both run, or neither. -/
theorem sameRows_sold (h : SameRows db db') (u : UserID) :
    SameRows (db.run [.updateBal bal u, stk, tran])
      (db'.run [stk, .updateBal bal u, tran', .deleteTrig u st ty]) := by
  have hstk' := hstk
  obtain ⟨f, hf⟩ := hstk
  cases hb : numeric bal with
  | none =>
    rw [run_of_none (by simp [exec, hb]), run_of_none (by simp [exec, hb])]
    exact h
  | some x =>
    cases ha : numeric adj with
    | none =>
      rw [run_of_none (by simp [hf, exec_updateBal hb, htran _, ha]),
        run_of_none (by simp [hf, exec_updateBal hb, htran' _, ha])]
      exact h
    | some y =>
      have hleft : db.run [.updateBal bal u, stk, tran] = db.run [stk, .updateBal bal u, tran] := by
        simp only [run, List.foldlM_cons, hf, exec_updateBal hb, Option.bind_eq_bind, Option.bind_some]
        rfl
      rw [hleft]
      exact sameRows_bought hstk' htran htran' st ty (h.upTo u) hb ha

end Final

end Db

/-! ### Both ways -/

section Both
variable {s : Server} {u : UserID} {usr : User} {st : StockID} {a p trigPrc : ℤ} {es₁ es₂ : List Event}

/-- What comes back of an escrow, less the trade, is the balance less the trade. -/
theorem refund (b a t : ℤ) : wrap64 (wrap64 (wrap64 (b - a) + a) - t) = wrap64 (b - t) := by
  rw [wrap64_wrap64_add, sub_add_cancel, sub_eq_add_neg, wrap64_wrap64_add, ← sub_eq_add_neg]

theorem agrees_of {s₁ s₂ : Server} {usr₁ usr₂ : User} (h₁ : s₁.user u = some usr₁)
    (h₂ : s₂.user u = some usr₂) (hbal : usr₁.balance = usr₂.balance) (hus : usr₁.usTree = usr₂.usTree)
    (hdb : Db.SameRows s₁.db s₂.db) : s₁.Agrees s₂ u :=
  ⟨⟨usr₁, usr₂, h₁, h₂, hbal, fun st => by rw [hus]⟩, hdb.accounts, hdb.stocks⟩

theorem bought_alike (hw : s.WF) (hs : s.Stored wrap64) (husr : s.user u = some usr)
    (hidle : usr.buysell = 0) (ha : 0 ≤ a) (hp : 1 ≤ p) (hbal : a ≤ usr.balance) (hno : 1 ≤ a / p)
    (hnone : s.mem.getTrigger u st .b = none) (hpt : p < trigPrc)
    (h₁ : s.ByHand wrap64 "BUY" "COMMIT_BUY" u st a p es₁)
    (h₂ : s.ByTrigger wrap64 .b u st a trigPrc p es₂) :
    ∃ s₁ s₂, exec (step wrap64) s es₁ = some s₁ ∧ exec (step wrap64) s es₂ = some s₂ ∧
      s₁.Agrees s₂ u := by
  have hdiv : a.tdiv p = a / p := Int.tdiv_eq_ediv_of_nonneg ha
  have hno' : a.tdiv p ≠ 0 := by omega
  have hlong := (wrap64_eq_iff _).mp (hs.balance husr)
  have hcost := cost_le ha hp
  have hcost' : 0 ≤ p * a.tdiv p := mul_nonneg (by omega) (by omega)
  have hkeep : wrap64 (p * a.tdiv p) = p * a.tdiv p := (wrap64_eq_iff _).mpr ⟨by omega, by omega⟩
  obtain ⟨c₁, c₁', e₁, e₁', rfl, he₁, he₁', rfl, hc₁, hprice, htime⟩ := h₁
  obtain ⟨c₂, c₂', e₂, e₂', now, rfl, he₂, he₂', hc₂, hc₂'⟩ := h₂
  obtain ⟨s₁, hs₁, heff₁⟩ := exec_buy he₁ he₁' hc₁ husr hidle hbal hprice hp hno' htime
  obtain ⟨stk, amt, his, hst, hamt, hne⟩ := he₂
  obtain ⟨s₂, hs₂, hlisted, heff₂⟩ := step_setBuyAmount (w := wrap64) his hst hamt hne (hc₂ ▸ husr) hidle
    hbal (hc₂ ▸ hnone) rfl
  rw [hc₂] at heff₂
  obtain ⟨s₃, amt', hs₃, harmed, husr₃, hdb₃⟩ := exec_arm hw hnone hs₂ hlisted heff₂ he₂' hc₂'
  obtain ⟨⟨m', freed⟩, hrem⟩ := harmed.removable
  obtain ⟨s₄, hs₄, heff₄⟩ := step_fireBuy (w := wrap64) (p := p) now harmed.obj husr₃
    harmed.linked rfl hp hpt hno' hrem
  refine ⟨s₁, s₄, hs₁, ?_, agrees_of heff₁.at heff₄.at ?_ rfl ?_⟩
  · rw [show ([e₂, e₂', .examine s.mem.fresh p now] : List Event) = [e₂, e₂'] ++ [.examine s.mem.fresh p now]
      from rfl, exec_append, hs₃]
    simp [exec, hs₄]
  · exact (refund _ _ _).symm
  · have hleft : wrap64 (usr.balance - p * a.tdiv p) = usr.balance - p * a.tdiv p :=
      (wrap64_eq_iff _).mpr ⟨by omega, by omega⟩
    have hrest : wrap64 (usr.balance - a) = usr.balance - a :=
      (wrap64_eq_iff _).mpr ⟨by omega, by omega⟩
    have hfirst := (Db.upTo_insertTrig s.db (numeric_price2str (x := usr.balance - a) (by omega))
      c₂.transID amt "0.00".toList st .b).trans ((Db.sameRows_updateTrig _ c₁.userID amt' st .b).upTo c₁.userID)
    rw [heff₁.db, heff₄.db, hdb₃]
    simp only [refund]
    simp only [hkeep, hleft, hrest]
    exact Db.sameRows_bought (Db.stockStmt_takeStock ..) (fun _ => rfl) (fun _ => rfl) _ _ hfirst
      (numeric_price2str (by omega)) (numeric_price2str hcost')

theorem sold_alike {uso : UserStock} (hw : s.WF) (husr : s.user u = some usr)
    (hidle : usr.buysell = 0) (hp : 1 ≤ p) (huso : getUserStock usr.usTree st = some uso)
    (hnum : 0 < uso.num) (hnone : s.mem.getTrigger u st .s = none) (hzero : 0 < trigPrc)
    (hpt : trigPrc < p) (h₁ : s.ByHand wrap64 "SELL" "COMMIT_SELL" u st a p es₁)
    (h₂ : s.ByTrigger wrap64 .s u st a trigPrc p es₂) :
    ∃ s₁ s₂, exec (step wrap64) s es₁ = some s₁ ∧ exec (step wrap64) s es₂ = some s₂ ∧
      s₁.Agrees s₂ u := by
  obtain ⟨c₁, c₁', e₁, e₁', rfl, he₁, he₁', rfl, hc₁, hprice, htime⟩ := h₁
  obtain ⟨c₂, c₂', e₂, e₂', now, rfl, he₂, he₂', hc₂, hc₂'⟩ := h₂
  obtain ⟨s₁, hs₁, heff₁⟩ := exec_sell he₁ he₁' hc₁ husr hidle huso hnum.ne' hprice hp htime
  obtain ⟨stk, amt, his, hst, hamt, hne⟩ := he₂
  obtain ⟨s₂, hs₂, hlisted, heff₂⟩ := step_setSellAmount (w := wrap64) his hst hamt hne (hc₂ ▸ husr) hidle
    (Option.isSome_of_eq_some huso) (hc₂ ▸ hnone) rfl
  rw [hc₂] at heff₂
  obtain ⟨s₃, amt', hs₃, harmed, husr₃, hdb₃⟩ := exec_arm hw hnone hs₂ hlisted heff₂ he₂' hc₂'
  obtain ⟨⟨m', freed⟩, hrem⟩ := harmed.removable
  obtain ⟨s₄, hs₄, heff₄⟩ := step_fireSell (w := wrap64) (p := p) now harmed.obj husr₃
    harmed.linked rfl hp hpt hzero.ne' huso hnum.ne' hrem
  refine ⟨s₁, s₄, hs₁, ?_, agrees_of heff₁.at heff₄.at rfl rfl ?_⟩
  · rw [show ([e₂, e₂', .examine s.mem.fresh p now] : List Event) = [e₂, e₂'] ++ [.examine s.mem.fresh p now]
      from rfl, exec_append, hs₃]
    simp [exec, hs₄]
  · have hfirst := (Db.sameRows_insertTrig s.db c₁.userID c₂.transID amt "0.00".toList st .s).trans
      (Db.sameRows_updateTrig _ c₁.userID amt' st .s)
    rw [heff₁.db, heff₄.db, hdb₃]
    exact Db.sameRows_sold (Db.stockStmt_updateStk ..) (fun _ => rfl) (fun _ => rfl) _ _ hfirst _

end Both

/-- In every state of a run, for a user without an order: a BUY and its commit agree with a buy
    trigger that fires at the same price, and a SELL and its commit with a sell trigger. -/
theorem trades_agree {es : List Event} {s : Server}
    (hrun : exec (step wrap64) Server.init es = some s) {u : UserID} {usr : User}
    (husr : s.user u = some usr) (hidle : usr.buysell = 0) (st : StockID) {a p : ℤ} (ha : 0 ≤ a)
    (hp : 1 ≤ p) :
    (∀ trigPrc es₁ es₂, a ≤ usr.balance → 1 ≤ a / p → s.mem.getTrigger u st .b = none →
      p < trigPrc → s.ByHand wrap64 "BUY" "COMMIT_BUY" u st a p es₁ →
      s.ByTrigger wrap64 .b u st a trigPrc p es₂ →
      ∃ s₁ s₂, exec (step wrap64) s es₁ = some s₁ ∧ exec (step wrap64) s es₂ = some s₂ ∧
        s₁.Agrees s₂ u) ∧
    (∀ trigPrc es₁ es₂ uso, getUserStock usr.usTree st = some uso → 0 < uso.num →
      s.mem.getTrigger u st .s = none → 0 < trigPrc → trigPrc < p →
      s.ByHand wrap64 "SELL" "COMMIT_SELL" u st a p es₁ →
      s.ByTrigger wrap64 .s u st a trigPrc p es₂ →
      ∃ s₁ s₂, exec (step wrap64) s es₁ = some s₁ ∧ exec (step wrap64) s es₂ = some s₂ ∧
        s₁.Agrees s₂ u) := by
  have hw := exec_wf hrun
  constructor
  · intro trigPrc es₁ es₂ hbal hno hnone hpt h₁ h₂
    exact bought_alike hw (exec_stored hrun) husr hidle ha hp hbal hno hnone hpt h₁ h₂
  · intro trigPrc es₁ es₂ uso huso hnum hnone hzero hpt h₁ h₂
    exact sold_alike hw husr hidle hp huso hnum hnone hzero hpt h₁ h₂

/-- A trigger for an amount, with its price, and the sweep at it. -/
def triggerFor (ty : TType) (amt trigPrc : String) : List Event :=
  [commandAt 100000 100 ty.amountCommand ("ABC," ++ amt),
    commandAt 100000 100 ty.priceCommand ("ABC," ++ trigPrc), .examine 0 100 100000]

theorem twentyShares_ready : ∃ s ∈ exec (step wrap64) Server.init twentyShares,
    ∃ usr ∈ s.user aUser, ∃ uso ∈ getUserStock usr.usTree stockABC, usr.buysell = 0 ∧
      1000 ≤ usr.balance ∧ 0 < uso.num ∧ s.mem.getTrigger aUser stockABC .b = none ∧
      s.mem.getTrigger aUser stockABC .s = none ∧ s.mem.fresh = 0 ∧
      (s.stock stockABC).price = 100 ∧ (s.stock stockABC).ts = 100000 := by
  decide +kernel

/-- Ten dollars, by hand and by a trigger. -/
theorem trades_agree_tenDollars : ∃ s, exec (step wrap64) Server.init twentyShares = some s ∧
    (∃ s₁ s₂, exec (step wrap64) s (tradeFor "BUY" "COMMIT_BUY" "10.00") = some s₁ ∧
      exec (step wrap64) s (triggerFor .b "10.00" "2.00") = some s₂ ∧ s₁.Agrees s₂ aUser) ∧
    ∃ s₁ s₂, exec (step wrap64) s (tradeFor "SELL" "COMMIT_SELL" "10.00") = some s₁ ∧
      exec (step wrap64) s (triggerFor .s "10.00" "0.50") = some s₂ ∧ s₁.Agrees s₂ aUser := by
  obtain ⟨s, hs, usr, husr, uso, huso, hidle, hbal, hnum, hnob, hnos, hfresh, hprice, hts⟩ :=
    twentyShares_ready
  have hand : ∀ order commit, s.ByHand wrap64 order commit aUser stockABC 1000 100
      (tradeFor order commit "10.00") := fun order commit =>
    byHand_tradeFor hprice hts order commit (by decide) (by decide) (by decide)
  have hagree := trades_agree hs husr hidle stockABC (a := 1000) (p := 100) (by decide) (by decide)
  obtain ⟨hbuy, hsell⟩ := hagree
  refine ⟨s, hs, hbuy 200 _ _ hbal (by decide) hnob (by decide) (hand _ _) ?_,
    hsell 50 _ _ uso huso hnum hnos (by decide) (by decide) (hand _ _) ?_⟩
  · exact ⟨_, _, _, _, _, by rw [hfresh]; rfl, ⟨_, _, ⟨_, rfl, rfl, rfl⟩, by decide, by decide, by decide⟩,
      ⟨_, _, ⟨_, rfl, rfl, rfl⟩, by decide, by decide, by decide⟩, rfl, rfl⟩
  · exact ⟨_, _, _, _, _, by rw [hfresh]; rfl, ⟨_, _, ⟨_, rfl, rfl, rfl⟩, by decide, by decide, by decide⟩,
      ⟨_, _, ⟨_, rfl, rfl, rfl⟩, by decide, by decide, by decide⟩, rfl, rfl⟩

end TradeC
