import TradeC.Orders
import TradeC.Stored
import TradeC.Lib.Run

/-! Every step keeps the well-formed state, whatever the arithmetic does to the results.

    `Server.WF` is about the trees, the rings and the rows, never about an amount; so it holds in every
    run of the machine, also where a result overflows. -/

namespace TradeC
open Server

namespace Server
variable {s s' : Server} {u : UserID}

theorem WF.lenq (hw : s.WF) (line : LogLine) : (s.lenq line).WF :=
  ⟨hw.mem, hw.us, hw.owner, hw.listed, hw.nodup, hw.rows⟩

theorem WF.settle (hw : s.WF) (u : UserID) (x : Settlement) : (s.settle u x).WF :=
  ⟨hw.mem, hw.us, hw.owner, hw.listed, hw.nodup, hw.rows⟩

theorem WF.setUser (hw : s.WF) {u : UserID} {r : User} (hus : Trie.WF STOCK_CHARS r.usTree) :
    (s.setUser u r).WF := by
  have hsome : ∀ {v}, (s.user v).isSome → ((s.setUser u r).user v).isSome := by
    intro v hv
    by_cases huv : v = u
    · simp [huv]
    · simpa [huv] using hv
  refine ⟨hw.mem, fun {v usr} h => ?_, fun ht => hsome (hw.owner ht), hw.listed, hw.nodup,
    hw.rows.mono fun _ => hsome⟩
  by_cases huv : v = u
  · subst huv
    simp only [user_setUser, Function.update_self, Option.some.injEq] at h
    exact h ▸ hus
  · exact hw.us (by simpa [huv] using h)

/-- A request about a user that is loaded. -/
theorem WF.dbenq (hw : s.WF) (hu : (s.user u).isSome) {req : List Stmt}
    (hreq : ∀ st ∈ req, st.userID = u) : (s.dbenq req).WF :=
  ⟨hw.mem, hw.us, hw.owner, hw.listed, hw.nodup, hw.rows.run fun st hst => hreq st hst ▸ hu⟩

/-- One object changes, is new or goes. -/
theorem WF.setMem (hw : s.WF) {m : Mem} (hm : m.WF) {t : TrigID} {tr? : Option Trigger}
    (hobj : m.obj = Function.update s.mem.obj t tr?)
    (htr : ∀ tr ∈ tr?, (s.user tr.userObj).isSome ∧ tr.stockObj ∈ s.stocks) :
    ({ s with mem := m } : Server).WF where
  mem := hm
  us := hw.us
  owner h := (owned_update hw htr (hobj ▸ h)).1
  listed h := (owned_update hw htr (hobj ▸ h)).2
  nodup := hw.nodup
  rows := hw.rows

/-- Where there is no trigger of the key. -/
theorem WF.addTrigger (hw : s.WF) (hu : (s.user u).isSome) {st : StockID} (hst : st ∈ s.stocks)
    {ty : TType} (hnone : s.mem.getTrigger u st ty = none) (tid : CStr) (amount trigPrc : ℤ) :
    ({ s with mem := (s.mem.addTrigger u tid st ty amount trigPrc).1 } : Server).WF := by
  obtain ⟨m', hadd, hm, -, hobj, -⟩ := hw.mem.addTrigger_new hnone tid amount trigPrc
  rw [hadd]
  exact hw.setMem hm hobj (by simp [hu, hst])

theorem WF.removeTrigger (hw : s.WF) {t : TrigID} {r : Mem × List (Path × Node TrigID)}
    (h : s.mem.removeTrigger t = some r) : ({ s with mem := r.1 } : Server).WF := by
  obtain ⟨hm, hobj⟩ := removeTrigger_obj hw.mem h
  exact hw.setMem hm hobj (by simp)

end Server

/-! ### Commands -/

section Commands
variable {w : ℤ → ℤ} {s : Server} {c : Cmd} {cUser : User} (hw : s.WF)
  (husr : s.user c.userID = some cUser)
include hw husr

theorem wf_add (amt : CStr) : (Command.add w s c cUser amt).1.WF := by
  have hus := hw.us husr
  unfold Command.add
  dsimp only
  split_ifs
  · exact hw
  · refine ((((hw.lenq _).setUser ?_).lenq _).settle _ _).dbenq (u := c.userID) (by simp) ?_
    · exact hus
    · simp [Cmd.insertTran, Stmt.userID]

omit husr in
theorem wf_quote (stk : CStr) : (Command.quote s c stk).1.WF := by
  unfold Command.quote
  split
  · exact hw
  · rename_i st _
    have hq := (quiet_findStock st).wf (hw.lenq (c.logLine stk spc spc))
    dsimp only
    split_ifs
    · exact (quiet_setQuote st c.quote).wf hq
    · exact hq

theorem wf_buy (stk amt : CStr) : (Command.buy w s c cUser stk amt).1.WF := by
  have hus := hw.us husr
  unfold Command.buy
  split
  · exact hw
  rename_i st _
  have hlog := hw.lenq (c.logLine stk spc amt)
  have hq := (quiet_freshQuote c st).wf ((quiet_findStock st).wf hlog)
  dsimp only
  split_ifs
  · exact hw
  · exact hlog
  · exact hlog
  · exact hq
  · exact hq
  · exact hq.setUser hus

theorem wf_commitBuy {r : Server × Reply} (h : Command.commitBuy w s c cUser = some r) : r.1.WF := by
  have hus := hw.us husr
  have hlog := hw.lenq (c.logLine spc spc spc)
  unfold Command.commitBuy at h
  dsimp only at h
  split_ifs at h
  · cases h
    exact hlog
  · cases h
    exact hlog.setUser hus
  · split at h
    · cases h
    · rename_i st _
      cases h
      have hown : (takeStock w c.userID cUser.usTree st cUser.no).2.userID = c.userID := by
        unfold takeStock
        split <;> rfl
      refine (((hlog.lenq _).settle _ _).dbenq (u := c.userID) (Option.isSome_of_eq_some husr)
        ?_).setUser (holds_takeStock w c.userID _ st _ hus).1
      simp only [List.forall_mem_cons]
      exact ⟨hown, rfl, rfl, by simp⟩

theorem wf_cancelOrder (side : ℤ) : (Command.cancelOrder s c cUser side).1.WF := by
  have hus := hw.us husr
  unfold Command.cancelOrder
  dsimp only
  split_ifs
  · exact hw.lenq _
  · exact (hw.lenq _).setUser hus

theorem wf_sell (stk amt : CStr) : (Command.sell w s c cUser stk amt).1.WF := by
  have hus := hw.us husr
  unfold Command.sell
  split
  · exact hw
  rename_i st _
  have hlog := (quiet_findStock st).wf (hw.lenq (c.logLine stk spc amt))
  have hq := (quiet_freshQuote c st).wf hlog
  dsimp only
  split
  · exact hw
  split
  · exact hlog
  split_ifs
  · exact hlog
  · exact hlog
  · exact hq
  · exact hq.setUser hus
  · exact hq.setUser hus

theorem wf_commitSell {r : Server × Reply} (h : Command.commitSell w s c cUser = some r) : r.1.WF := by
  have hus := hw.us husr
  have hlog := hw.lenq (c.logLine spc spc spc)
  unfold Command.commitSell at h
  dsimp only at h
  split_ifs at h
  · cases h
    exact hlog
  · cases h
    exact hlog.setUser hus
  · split at h
    · cases h
    split at h
    · cases h
      exact hlog
    · rename_i st _ uso huso
      cases h
      refine (((hlog.lenq _).settle _ _).dbenq (u := c.userID) (Option.isSome_of_eq_some husr)
        ?_).setUser (getUserStock_setNum hus huso _).1
      simp [Cmd.insertTran, Stmt.userID]

theorem wf_setBuyAmount (stk amt : CStr) : (Command.setBuyAmount w s c cUser stk amt).1.WF := by
  have hus := hw.us husr
  unfold Command.setBuyAmount
  split
  · exact hw
  rename_i st _
  have hlog := hw.lenq (c.logLine stk spc amt)
  have hq := (quiet_findStock st).wf hlog
  dsimp only
  split_ifs
  · exact hw
  · exact hlog
  · exact hlog
  split
  · exact hq
  · rename_i hnone
    have hset := (hq.setUser (u := c.userID) (r :=
      { cUser with balance := w (cUser.balance - str2price w amt) }) hus).lenq (c.accTrans "remove" amt)
    have hadd := hset.addTrigger (u := c.userID) (by simp) (mem_findStock _ st) hnone c.transID
      (str2price w amt) 0
    exact hadd.dbenq (u := c.userID) (by simp) (by simp [Stmt.userID])

theorem wf_cancelSetBuy {stk : CStr} {r : Server × Reply}
    (h : Command.cancelSetBuy w s c cUser stk = some r) : r.1.WF := by
  have hus := hw.us husr
  unfold Command.cancelSetBuy at h
  split at h
  · cases h
    exact hw
  rename_i st _
  have hq := (quiet_findStock st).wf (hw.lenq (c.logLine stk spc spc))
  dsimp only at h
  split at h
  · cases h
    exact hq
  · obtain ⟨tr, -, h⟩ := Option.bind_eq_some_iff.mp h
    obtain ⟨rm, hrem, rfl⟩ := Option.map_eq_some_iff.mp h
    have hset := hq.setUser (u := c.userID) (r :=
      { cUser with balance := w (cUser.balance + tr.amount) }) hus
    exact ((hset.removeTrigger hrem).lenq _).dbenq (u := c.userID) (by simp) (by simp [Stmt.userID])

theorem wf_setTrigger (type : TType) (stk amt : CStr) :
    (Command.setTrigger w s c type stk amt).1.WF := by
  unfold Command.setTrigger
  split
  · exact hw
  rename_i st _
  have hq := (quiet_findStock st).wf (hw.lenq (c.logLine stk spc amt))
  dsimp only
  split_ifs
  · exact hw
  split
  · exact hq
  · rename_i t hget
    obtain ⟨tr, htr, -⟩ := hq.mem.getTrigger_some hget
    obtain ⟨hm, hobj⟩ := wf_setTrig hq.mem htr (str2price w amt)
    have howner := hq.owner htr
    have hlisted := hq.listed htr
    have hset := hq.setMem hm hobj fun tr' htr' => by
      cases htr'
      exact ⟨howner, hlisted⟩
    exact hset.dbenq (u := c.userID) (by simp [husr]) (by simp [Stmt.userID])

theorem wf_setSellAmount (stk amt : CStr) : (Command.setSellAmount w s c cUser stk amt).1.WF := by
  unfold Command.setSellAmount
  split
  · exact hw
  rename_i st _
  have hlog := hw.lenq (c.logLine stk spc amt)
  have hq := (quiet_findStock st).wf hlog
  dsimp only
  split_ifs with _ _ _ hget
  · exact hw
  · exact hlog
  · exact hq
  · exact hq
  · have hadd := hq.addTrigger (u := c.userID) (by simp [husr]) (mem_findStock _ st)
      (by simpa using hget) c.transID (str2price w amt) 0
    exact hadd.dbenq (u := c.userID) (by simp [husr]) (by simp [Stmt.userID])

theorem wf_cancelSetSell {stk : CStr} {r : Server × Reply}
    (h : Command.cancelSetSell s c stk = some r) : r.1.WF := by
  unfold Command.cancelSetSell at h
  split at h
  · cases h
    exact hw
  rename_i st _
  have hq := (quiet_findStock st).wf (hw.lenq (c.logLine stk spc spc))
  dsimp only at h
  split at h
  · cases h
    exact hq
  · obtain ⟨rm, hrem, rfl⟩ := Option.map_eq_some_iff.mp h
    exact (hq.removeTrigger hrem).dbenq (u := c.userID) (by simp [husr]) (by simp [Stmt.userID])

omit husr in
theorem wf_dumplog (file : CStr) : (Command.dumplog s c file).1.WF := by
  unfold Command.dumplog
  split_ifs
  · exact hw
  · exact (hw.lenq _).lenq _

theorem wf_dispatch {comm : List CStr} {r : Server × Reply}
    (h : Command.dispatch w s c cUser comm = some r) : r.1.WF := by
  cases Command.dispatched h with
  | commitBuy _ h => exact wf_commitBuy hw husr h
  | cancelBuy _ => exact wf_cancelOrder hw husr 1
  | commitSell _ h => exact wf_commitSell hw husr h
  | cancelSell _ => exact wf_cancelOrder hw husr (-1)
  | displaySummary _ => exact hw.lenq _
  | add _ => exact wf_add hw husr _
  | quote _ => exact wf_quote hw _
  | cancelSetBuy _ h => exact wf_cancelSetBuy hw husr h
  | cancelSetSell _ h => exact wf_cancelSetSell hw husr h
  | dumplog _ => exact wf_dumplog hw _
  | buy _ => exact wf_buy hw husr _ _
  | sell _ => exact wf_sell hw husr _ _
  | setBuyAmount _ => exact wf_setBuyAmount hw husr _ _
  | setBuyTrigger _ => exact wf_setTrigger hw husr .b _ _
  | setSellAmount _ => exact wf_setSellAmount hw husr _ _
  | setSellTrigger _ => exact wf_setTrigger hw husr .s _ _
  | badcmd _ => exact hw

end Commands

/-! ### Firings, and all steps -/

section Firing
variable {w : ℤ → ℤ} {s s' : Server} {t : TrigID} {tr : Trigger} {cUser : User} {p now : ℤ}

theorem wf_consume {s₁ : Server} (hw : s₁.WF) (hu : (s₁.user tr.userObj).isSome) {req : List Stmt}
    (hreq : ∀ st ∈ req, st.userID = tr.userObj) (h : s₁.consume t tr req = some s') : s'.WF := by
  obtain ⟨rm, hrem, rfl⟩ := Option.map_eq_some_iff.mp h
  refine (hw.removeTrigger hrem).dbenq (u := tr.userObj) hu fun st hst => ?_
  rcases List.mem_append.mp hst with hst | hst
  · exact hreq st hst
  · rw [List.mem_singleton.mp hst]
    rfl

theorem wf_fireBuy (hw : s.WF) (husr : s.user tr.userObj = some cUser)
    (h : Sweep.fireBuy w s t tr cUser p now = some s') : s'.WF := by
  have hus := hw.us husr
  unfold Sweep.fireBuy at h
  dsimp only at h
  split_ifs at h
  · cases h
    exact hw
  · have hown : (takeStock w tr.userObj cUser.usTree tr.stockObj (tr.amount.tdiv p)).2.userID =
        tr.userObj := by
      unfold takeStock
      split <;> rfl
    refine wf_consume (((hw.lenq _).settle _ _).setUser ?_) (by simp) ?_ h
    · exact (holds_takeStock w tr.userObj _ tr.stockObj _ hus).1
    · simp only [List.forall_mem_cons]
      exact ⟨hown, rfl, rfl, by simp⟩

theorem wf_fireSell (hw : s.WF) (husr : s.user tr.userObj = some cUser)
    (h : Sweep.fireSell w s t tr cUser p now = some s') : s'.WF := by
  have hus := hw.us husr
  unfold Sweep.fireSell at h
  dsimp only at h
  split at h
  · cases h
    exact hw
  · rename_i uso huso
    split at h
    · cases h
      exact hw
    · refine wf_consume (((hw.lenq _).settle _ _).setUser ?_) (by simp) (by simp [Stmt.userID]) h
      exact (getUserStock_setNum hus huso _).1

end Firing

/-- One step keeps the well-formed state. -/
theorem step_wf {w : ℤ → ℤ} {s s' : Server} {e : Event} (hw : s.WF) (h : step w s e = some s') :
    s'.WF := by
  cases e with
  | connect u =>
    simp only [step, Option.isSome_iff_ne_none] at h
    split_ifs at h with hu
    cases h
    rw [addUser_fresh w hw (not_not.mp hu)]
    exact (hw.setUser Trie.wf_empty).dbenq (u := u) (by simp) (by simp [Stmt.userID])
  | command c commStr =>
    obtain ⟨r, hr, rfl⟩ := Option.map_eq_some_iff.mp h
    obtain ⟨cUser, husr, hr⟩ := Option.bind_eq_some_iff.mp hr
    exact wf_dispatch hw husr hr
  | quote st q =>
    cases h
    exact (quiet_setQuote st q).wf hw
  | examine t p now =>
    simp only [step] at h
    split_ifs at h
    obtain ⟨tr, -, h⟩ := Option.bind_eq_some_iff.mp h
    obtain ⟨cUser, husr, h⟩ := Option.bind_eq_some_iff.mp h
    dsimp only at h
    split at h <;> split_ifs at h
    · exact wf_fireBuy hw husr h
    · exact Option.some.inj h ▸ hw
    · exact wf_fireSell hw husr h
    · exact Option.some.inj h ▸ hw

/-- Every run keeps it. -/
theorem exec_wf {w : ℤ → ℤ} {es : List Event} {s : Server}
    (h : Run.exec (step w) Server.init es = some s) : s.WF :=
  Run.exec_inv (fun _ _ _ hw hs => step_wf hw hs) es Server.init s wf_init h

/-- A step of the machine stores 64-bit values. -/
theorem step_wf_stored (s : Server) (e : Event) (s' : Server) (hs : s.WF ∧ s.Stored wrap64)
    (h : step wrap64 s e = some s') : s'.WF ∧ s'.Stored wrap64 :=
  ⟨step_wf hs.1 h, step_stored (by decide) (fun _ => Int.bmod_bmod) hs.1 hs.2 h⟩

theorem exec_stored {es : List Event} {s : Server} (h : Run.exec (step wrap64) Server.init es = some s) :
    s.Stored wrap64 :=
  (Run.exec_inv step_wf_stored es Server.init s ⟨wf_init, stored_init⟩ h).2

end TradeC
