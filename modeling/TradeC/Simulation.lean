import TradeC.Refine

/-! Every step of the server, in exact arithmetic, is a move of its books: one lemma for each command
    and for each firing branch, and `step_steps` over all events. -/

namespace TradeC
open Server

/-! ### Holdings -/

theorem hold_setNum {usTree : Trie UserStock} (hus : Trie.WF STOCK_CHARS usTree) {st : StockID}
    {uso : UserStock} (hs : getUserStock usTree st = some uso) (n : ℤ) :
    Trie.WF STOCK_CHARS (setNum usTree st uso n) ∧
      (fun st' => (getUserStock (setNum usTree st uso n) st').map UserStock.num) =
        Function.update (fun st' => (getUserStock usTree st').map UserStock.num) st (some n) := by
  obtain ⟨hwf, hget⟩ := getUserStock_setNum hus hs n
  refine ⟨hwf, funext fun st' => ?_⟩
  by_cases hst : st' = st
  · simp [hget, hst]
  · simp [hget, hst]

theorem takeStock_account {usr : User} (hus : Trie.WF STOCK_CHARS usr.usTree) (u : UserID)
    (st : StockID) (n : ℤ) : Trie.WF STOCK_CHARS (takeStock id u usr.usTree st n).1 ∧
      (takeStock id u usr.usTree st n).2 = usr.account.takeStmt u st n ∧
      (fun st' => (getUserStock (takeStock id u usr.usTree st n).1 st').map UserStock.num) =
        Function.update usr.account.hold st (some (usr.account.shares st + n)) := by
  cases hs : getUserStock usr.usTree st with
  | none =>
    obtain ⟨_, hwf, hget⟩ := getUserStock_addUserStock hus hs n
    have hhold : usr.account.hold st = none := by simp [User.account, hs]
    have htake : takeStock id u usr.usTree st n =
        ((addUserStock usr.usTree st n).1, .insertStk u st n) := by simp [takeStock, hs]
    rw [htake]
    refine ⟨hwf, by simp [Account.takeStmt, hhold], funext fun st' => ?_⟩
    by_cases hst : st' = st
    · simp [hget, hst, Account.shares, hhold]
    · simp [hget, hst, User.account]
  | some uso =>
    obtain ⟨hwf, hget⟩ := hold_setNum hus hs (uso.num + n)
    have hhold : usr.account.hold st = some uso.num := by simp [User.account, hs]
    have htake : takeStock id u usr.usTree st n =
        (setNum usr.usTree st uso (uso.num + n), .updateStk (uso.num + n) u st) := by
      simp [takeStock, hs]
    rw [htake]
    exact ⟨hwf, by simp [Account.takeStmt, hhold], by rw [Account.shares, hhold]; exact hget⟩

/-! ### Triggers -/

theorem wf_setTrig {m : Mem} (hw : m.WF) {t : TrigID} {tr : Trigger} (htr : m.obj t = some tr)
    (prc : ℤ) : (Command.setTrig m t prc).WF ∧
      (Command.setTrig m t prc).obj = Function.update m.obj t (some { tr with trig := prc }) := by
  have hobj : (Command.setTrig m t prc).obj = Function.update m.obj t (some { tr with trig := prc }) := by
    simp [Command.setTrig, htr]
  -- an object keeps everything but its price
  have hback : ∀ {t' tr'}, (Command.setTrig m t prc).obj t' = some tr' →
      ∃ tr₀, m.obj t' = some tr₀ ∧ tr' = { tr₀ with trig := tr'.trig } := by
    intro t' tr' h
    by_cases ht : t' = t
    · subst ht
      simp only [hobj, Function.update_self, Option.some.injEq] at h
      exact ⟨tr, htr, by rw [← h]⟩
    · exact ⟨tr', by simpa [hobj, ht] using h, rfl⟩
  have hforth : ∀ {t' tr₀}, m.obj t' = some tr₀ →
      ∃ tr', (Command.setTrig m t prc).obj t' = some tr' ∧ tr' = { tr₀ with trig := tr'.trig } := by
    intro t' tr₀ h
    by_cases ht : t' = t
    · subst ht
      rw [htr, Option.some.injEq] at h
      exact ⟨{ tr with trig := prc }, by simp [hobj], by rw [h]⟩
    · exact ⟨tr₀, by simpa [hobj, ht] using h, rfl⟩
  refine ⟨⟨hw.tree, fun h => ?_, fun h => ?_, fun h => ?_, fun st => ?_⟩, hobj⟩
  · obtain ⟨tr₀, h₀, hu, hp⟩ := hw.held h
    obtain ⟨tr', h', heq⟩ := hforth h₀
    exact ⟨tr', h', by rw [heq]; exact hu, by rw [heq]; exact hp⟩
  · obtain ⟨tr₀, h₀, heq⟩ := hback h
    have hkey := hw.key h₀
    rw [heq]
    exact hkey
  · obtain ⟨tr₀, h₀, _⟩ := hback h
    exact hw.live h₀
  · obtain ⟨l, hl, hmem⟩ := hw.ring st
    refine ⟨l, hl, fun t' => (hmem t').trans ⟨?_, ?_⟩⟩
    · rintro ⟨tr₀, h₀, hst⟩
      obtain ⟨tr', h', heq⟩ := hforth h₀
      exact ⟨tr', h', by rw [heq]; exact hst⟩
    · rintro ⟨tr', h', hst⟩
      obtain ⟨tr₀, h₀, heq⟩ := hback h'
      exact ⟨tr₀, h₀, by rw [heq] at hst; exact hst⟩

/-- The objects of the memory after a change of one of them still have an owner and a stock. -/
theorem owned_update {s : Server} (hw : s.WF) {t : TrigID} {tr? : Option Trigger}
    (htr : ∀ tr ∈ tr?, (s.user tr.userObj).isSome ∧ tr.stockObj ∈ s.stocks) {t' : TrigID}
    {tr' : Trigger} (h : Function.update s.mem.obj t tr? t' = some tr') :
    (s.user tr'.userObj).isSome ∧ tr'.stockObj ∈ s.stocks := by
  by_cases ht : t' = t
  · subst ht
    exact htr tr' (by simpa using h)
  · have h' : s.mem.obj t' = some tr' := by simpa [ht] using h
    exact ⟨hw.owner h', hw.listed h'⟩

/-! ### Commands -/

section Commands
variable {s : Server} {c : Cmd} {cUser : User} {e : Event}

theorem steps_add (hw : s.WF) (husr : s.user c.userID = some cUser) {amt : CStr}
    (he : e.Is c "ADD" [amt]) : Steps s e (Command.add id s c cUser amt).1 := by
  have hus := hw.us husr
  unfold Command.add
  dsimp only
  split_ifs with hprc
  · exact .of_quiet (.refl s) hw
  · refine .after (quiet_logLine c spc spc amt) ?_
    have hw₁ := (quiet_logLine (s := s) c spc spc amt).wf hw
    exact .of_update hw₁ (.added he (acct_book husr) hprc) rfl rfl .same rfl hus hw.mem
      (fun ht => ⟨hw.owner ht, hw.listed ht⟩) rfl (by simp [Cmd.insertTran, Stmt.userID])
      (by simp [Cmd.accTrans, LogLine.acc]) rfl rfl rfl

theorem steps_quote (hw : s.WF) {stk : CStr} : Steps s e (Command.quote s c stk).1 := by
  unfold Command.quote
  split
  · exact .of_quiet (.refl s) hw
  · rename_i st _
    have hq := (quiet_logLine (s := s) c stk spc spc).trans (quiet_findStock st)
    dsimp only
    split_ifs
    · exact .of_quiet (hq.trans (quiet_setQuote st c.quote)) hw
    · exact .of_quiet hq hw

/-- Replacing the pending order of a user, and nothing else. -/
theorem Steps.of_order (hw : s.WF) {u : UserID} {usr usr' : User} (husr : s.user u = some usr)
    (hmove : Move s.mem.getTrigger s.book e .none (s.book.setAcct u usr'.account))
    (hus : usr'.usTree = usr.usTree) : Steps s e (s.setUser u usr') := by
  have hus' : Trie.WF STOCK_CHARS usr'.usTree := hus ▸ hw.us husr
  exact .of_update hw hmove rfl rfl .same rfl hus' hw.mem
    (fun ht => ⟨hw.owner ht, hw.listed ht⟩) rfl (by simp [Output.none]) (by simp [Output.none]) (by simp [Output.none, setUser])
    (by simp [Output.none, Db.run, setUser]) (by simp [Output.none, queued, setUser])

theorem steps_buy (hw : s.WF) (husr : s.user c.userID = some cUser) {stk amt : CStr}
    (he : e.Is c "BUY" [stk, amt]) : Steps s e (Command.buy id s c cUser stk amt).1 := by
  unfold Command.buy
  split
  · exact .of_quiet (.refl s) hw
  rename_i st _
  dsimp only
  have hlog := quiet_logLine (s := s) c stk spc amt
  have hq := (hlog.trans (quiet_findStock st)).trans (quiet_freshQuote c st)
  split_ifs with hprc hidle hbal hprice hno
  · exact .of_quiet (.refl s) hw
  · exact .of_quiet hlog hw
  · exact .of_quiet hlog hw
  · exact .of_quiet hq hw
  · exact .of_quiet hq hw
  · refine .after hq ?_
    have husr₁ := hq.user ▸ husr
    exact .of_order (hq.wf hw) husr₁ (.orderedBuy he (acct_book husr₁) hprc (not_not.mp hidle)
      (not_lt.mp hbal) (by omega) hno) rfl

theorem steps_cancelOrder (hw : s.WF) (husr : s.user c.userID = some cUser) (side : ℤ) :
    Steps s e (Command.cancelOrder s c cUser side).1 := by
  have hlog := quiet_logLine (s := s) c spc spc spc
  unfold Command.cancelOrder
  dsimp only
  split_ifs
  · exact .of_quiet hlog hw
  · exact .after hlog (.of_order (hlog.wf hw) husr (.cleared (acct_book husr)) rfl)

theorem steps_commitBuy (hw : s.WF) (husr : s.user c.userID = some cUser)
    (he : e.Is c "COMMIT_BUY" []) {r : Server × Reply}
    (h : Command.commitBuy id s c cUser = some r) : Steps s e r.1 := by
  have hus := hw.us husr
  have hlog := quiet_logLine (s := s) c spc spc spc
  unfold Command.commitBuy at h
  dsimp only at h
  split_ifs at h with hside hlate
  · cases h
    exact .of_quiet hlog hw
  · cases h
    exact .after hlog (.of_order (hlog.wf hw) husr (.cleared (acct_book husr)) rfl)
  · split at h
    · cases h
    · rename_i st hst
      obtain ⟨hwf, hstmt, hhold⟩ := takeStock_account hus c.userID st cUser.no
      cases h
      have hacct : ({ cUser with
            balance := cUser.balance - cUser.reserve
            usTree := (takeStock id c.userID cUser.usTree st cUser.no).1 } : User).clearOrder.account =
          ({ cUser.account with balance := cUser.balance - cUser.reserve }.setHold st
            (cUser.account.shares st + cUser.no)).clear := by
        simp only [User.account, User.clearOrder, Account.setHold, Account.clear, Account.mk.injEq,
          true_and]
        exact hhold
      refine .after hlog (.of_update (hlog.wf hw)
        (.bought he (acct_book husr) (not_not.mp hside) hst) hacct rfl .same rfl hwf hw.mem
        (fun ht => ⟨hw.owner ht, hw.listed ht⟩) rfl ?_ ?_ rfl ?_ ?_)
      · simp only [List.forall_mem_cons]
        exact ⟨Account.takeStmt_userID .., rfl, rfl, by simp⟩
      · simp [Cmd.accTrans, LogLine.acc, User.account]
      · simp [hstmt, setUser, dbenq, settle, lenq, User.account]
      · simp [hstmt, queued, setUser, dbenq, settle, lenq, User.account]

theorem steps_sell (hw : s.WF) (husr : s.user c.userID = some cUser) {stk amt : CStr}
    (he : e.Is c "SELL" [stk, amt]) : Steps s e (Command.sell id s c cUser stk amt).1 := by
  unfold Command.sell
  split
  · exact .of_quiet (.refl s) hw
  rename_i st _
  dsimp only
  have hlog := (quiet_logLine (s := s) c stk spc amt).trans (quiet_findStock st)
  have hq := hlog.trans (quiet_freshQuote c st)
  by_cases hprc : str2price id amt = -1
  · rw [if_pos hprc]
    exact .of_quiet (.refl s) hw
  rw [if_neg hprc]
  cases hs : getUserStock cUser.usTree st with
  | none => exact .of_quiet hlog hw
  | some uso =>
    dsimp only
    have hhold : cUser.account.hold st = some uso.num := by simp [User.account, hs]
    by_cases hnum : uso.num = 0
    · rw [if_pos hnum]
      exact .of_quiet hlog hw
    rw [if_neg hnum]
    by_cases hidle : cUser.buysell ≠ 0
    · rw [if_pos hidle]
      exact .of_quiet hlog hw
    rw [if_neg hidle]
    by_cases hprice : ((((s.lenq (c.logLine stk spc amt)).findStock st).freshQuote c st).stock st).price < 1
    · rw [if_pos hprice]
      exact .of_quiet hq hw
    simp only [if_neg hprice, id_eq, sellNo_eq]
    have husr₁ := hq.user ▸ husr
    exact .after hq (.of_order (hq.wf hw) husr₁ (.orderedSell he (acct_book husr₁) hprc
      (not_not.mp hidle) hhold hnum (not_lt.mp hprice)) rfl)

theorem steps_commitSell (hw : s.WF) (husr : s.user c.userID = some cUser)
    (he : e.Is c "COMMIT_SELL" []) {r : Server × Reply}
    (h : Command.commitSell id s c cUser = some r) : Steps s e r.1 := by
  have hus := hw.us husr
  have hlog := quiet_logLine (s := s) c spc spc spc
  unfold Command.commitSell at h
  dsimp only at h
  split_ifs at h with hside hlate
  · cases h
    exact .of_quiet hlog hw
  · cases h
    exact .after hlog (.of_order (hlog.wf hw) husr (.cleared (acct_book husr)) rfl)
  · split at h
    · cases h
    · rename_i st hst
      split at h
      · cases h
        exact .of_quiet hlog hw
      · rename_i uso hs
        have hn : cUser.account.hold st = some uso.num := by simp [User.account, hs]
        obtain ⟨hwf, hhold⟩ := hold_setNum hus hs (uso.num - cUser.no)
        cases h
        refine .after hlog (.of_update (hlog.wf hw)
          (.sold he (acct_book husr) (not_not.mp hside) hst hn) ?_ rfl .same rfl hwf hw.mem
          (fun ht => ⟨hw.owner ht, hw.listed ht⟩) rfl (by simp [Cmd.insertTran, Stmt.userID])
          (by simp [Cmd.accTrans, LogLine.acc, User.account]) rfl rfl rfl)
        simp only [User.account, User.clearOrder, Account.setHold, Account.clear, Account.mk.injEq,
          id_eq, true_and]
        exact hhold

theorem obj_fresh {m : Mem} (hw : m.WF) : m.obj m.fresh = none := by
  by_contra hne
  obtain ⟨tr, htr⟩ := Option.ne_none_iff_exists'.mp hne
  exact lt_irrefl _ (hw.live htr)

theorem steps_setBuyAmount (hw : s.WF) (husr : s.user c.userID = some cUser) {stk amt : CStr}
    (he : e.Is c "SET_BUY_AMOUNT" [stk, amt]) :
    Steps s e (Command.setBuyAmount id s c cUser stk amt).1 := by
  have hus := hw.us husr
  unfold Command.setBuyAmount
  split
  · exact .of_quiet (.refl s) hw
  rename_i st _
  dsimp only
  have hlog := quiet_logLine (s := s) c stk spc amt
  have hq := hlog.trans (quiet_findStock st)
  split_ifs with hprc hidle hbal
  · exact .of_quiet (.refl s) hw
  · exact .of_quiet hlog hw
  · exact .of_quiet hlog hw
  have hlisted : st ∈ ((s.lenq (c.logLine stk spc amt)).findStock st).stocks := mem_findStock _ st
  set s₁ := (s.lenq (c.logLine stk spc amt)).findStock st with hs₁
  have hw₁ := hq.wf hw
  have husr₁ : s₁.user c.userID = some cUser := hq.user ▸ husr
  cases hget : s₁.mem.getTrigger c.userID st .b with
  | some t => exact .of_quiet hq hw
  | none =>
    obtain ⟨m', hadd, hwm, _, hobj, _, _⟩ :=
      hw₁.mem.addTrigger_new hget c.transID (str2price id amt) 0
    obtain rfl : (s₁.mem.addTrigger c.userID c.transID st .b (str2price id amt) 0).1 = m' := by
      rw [hadd]
    dsimp only
    refine .after hq (.of_update hw₁ (.setBuy he (acct_book husr₁) hprc (not_not.mp hidle)
      (not_lt.mp hbal) hget (obj_fresh hw₁.mem)) rfl hobj (.add ..) rfl hus hwm
      (owned_update hw₁ (by simp [husr₁, hlisted])) rfl (by simp [Stmt.userID])
      (accTrans_of_logs rfl rfl) (by simp [dbenq, lenq, setUser]) rfl rfl)

/-- Changing the triggers, and no user. -/
theorem Steps.of_trig (hw : s.WF) {u : UserID} {usr : User} (husr : s.user u = some usr)
    {t : TrigID} {tr? : Option Trigger} {out : Output} {m' : Mem} {req : List Stmt}
    (hmove : Move s.mem.getTrigger s.book e out (s.book.setTrig t tr?))
    (hwm : m'.WF) (hobj : m'.obj = Function.update s.mem.obj t tr?)
    (hmm : MemMove s e m')
    (htr : ∀ tr ∈ tr?, (s.user tr.userObj).isSome ∧ tr.stockObj ∈ s.stocks)
    (hout : out = ⟨[], [], req⟩) (hreq : ∀ st ∈ req, st.userID = u) (hqueue : [req] = queued req) :
    Steps s e ({ s with mem := m' }.dbenq req) := by
  subst hout
  have hmove' : Move s.mem.getTrigger s.book e ⟨[], [], req⟩
      ⟨Function.update s.book.acct u (some usr.account), Function.update s.mem.obj t tr?⟩ := by
    rw [← acct_book husr, Function.update_eq_self]
    exact hmove
  exact .of_update hw hmove' rfl hobj hmm (by simp [dbenq, ← husr]) (hw.us husr) hwm
    (owned_update hw htr) rfl hreq (by simp [Server.accTrans, dbenq]) (by simp [dbenq]) rfl
    (congrArg (s.requests ++ ·) hqueue)

theorem steps_setSellAmount (hw : s.WF) (husr : s.user c.userID = some cUser) {stk amt : CStr}
    (he : e.Is c "SET_SELL_AMOUNT" [stk, amt]) :
    Steps s e (Command.setSellAmount id s c cUser stk amt).1 := by
  unfold Command.setSellAmount
  split
  · exact .of_quiet (.refl s) hw
  rename_i st _
  dsimp only
  have hlog := quiet_logLine (s := s) c stk spc amt
  have hq := hlog.trans (quiet_findStock st)
  split_ifs with hprc hidle hhold hget
  · exact .of_quiet (.refl s) hw
  · exact .of_quiet hlog hw
  · exact .of_quiet hq hw
  · exact .of_quiet hq hw
  have hlisted : st ∈ ((s.lenq (c.logLine stk spc amt)).findStock st).stocks := mem_findStock _ st
  set s₁ := (s.lenq (c.logLine stk spc amt)).findStock st with hs₁
  have hw₁ := hq.wf hw
  have husr₁ : s₁.user c.userID = some cUser := hq.user ▸ husr
  have hget' : s₁.mem.getTrigger c.userID st .s = none := by simpa using hget
  obtain ⟨m', hadd, hwm, _, hobj, _, _⟩ :=
    hw₁.mem.addTrigger_new hget' c.transID (str2price id amt) 0
  obtain rfl : (s₁.mem.addTrigger c.userID c.transID st .s (str2price id amt) 0).1 = m' := by
    rw [hadd]
  have hsome : (cUser.account.hold st).isSome := by
    cases hs : getUserStock cUser.usTree st <;> simp [hs, User.account] at hhold ⊢
  exact .after hq (.of_trig hw₁ husr₁ (.setSell he (acct_book husr₁) hprc (not_not.mp hidle) hsome
    hget' (obj_fresh hw₁.mem)) hwm hobj (.add ..) (by simp [husr₁, hlisted]) rfl (by simp [Stmt.userID]) rfl)

/-- The objects after `removeTrigger`. -/
theorem removeTrigger_obj {m : Mem} (hw : m.WF) {t : TrigID}
    {r : Mem × List (Path × Node TrigID)} (h : m.removeTrigger t = some r) :
    r.1.WF ∧ r.1.obj = Function.update m.obj t none := by
  obtain ⟨m', freed⟩ := r
  obtain ⟨_, _, _, hwm, _, hobj, _⟩ := hw.removeTrigger_spec h
  exact ⟨hwm, hobj⟩

theorem steps_cancelSetBuy (hw : s.WF) (husr : s.user c.userID = some cUser) {stk : CStr}
    (he : e.Is c "CANCEL_SET_BUY" [stk]) {r : Server × Reply}
    (h : Command.cancelSetBuy id s c cUser stk = some r) : Steps s e r.1 := by
  have hus := hw.us husr
  unfold Command.cancelSetBuy at h
  split at h
  · cases h
    exact .of_quiet (.refl s) hw
  rename_i st hst
  dsimp only at h
  have hq := (quiet_logLine (s := s) c stk spc spc).trans (quiet_findStock st)
  set s₁ := (s.lenq (c.logLine stk spc spc)).findStock st with hs₁
  have hw₁ := hq.wf hw
  have husr₁ : s₁.user c.userID = some cUser := hq.user ▸ husr
  cases hget : s₁.mem.getTrigger c.userID st .b with
  | none =>
    rw [hget] at h
    cases h
    exact .of_quiet hq hw
  | some t =>
    rw [hget] at h
    obtain ⟨tr, htr, h⟩ := Option.bind_eq_some_iff.mp h
    obtain ⟨rm, hrem, rfl⟩ := Option.map_eq_some_iff.mp h
    obtain ⟨hwm, hobj⟩ := removeTrigger_obj hw₁.mem hrem
    obtain ⟨tr', htr', hu, rfl, hty⟩ := hw₁.mem.getTrigger_some hget
    obtain rfl := Option.some.inj (htr'.symm.trans htr)
    exact .after hq (.of_update hw₁ (.refunded he (acct_book husr₁) hget htr hu hty hst) rfl hobj
      (.cancelled he rfl hst hget hrem) rfl hus hwm (owned_update hw₁ (by simp)) rfl (by simp [Stmt.userID])
      (accTrans_of_logs rfl rfl) (by simp [dbenq, lenq, setUser]) rfl rfl)

theorem steps_cancelSetSell (hw : s.WF) (husr : s.user c.userID = some cUser) {stk : CStr}
    (he : e.Is c "CANCEL_SET_SELL" [stk]) {r : Server × Reply}
    (h : Command.cancelSetSell s c stk = some r) : Steps s e r.1 := by
  unfold Command.cancelSetSell at h
  split at h
  · cases h
    exact .of_quiet (.refl s) hw
  rename_i st hst
  dsimp only at h
  have hq := (quiet_logLine (s := s) c stk spc spc).trans (quiet_findStock st)
  set s₁ := (s.lenq (c.logLine stk spc spc)).findStock st with hs₁
  have hw₁ := hq.wf hw
  have husr₁ : s₁.user c.userID = some cUser := hq.user ▸ husr
  cases hget : s₁.mem.getTrigger c.userID st .s with
  | none =>
    rw [hget] at h
    cases h
    exact .of_quiet hq hw
  | some t =>
    rw [hget] at h
    obtain ⟨rm, hrem, rfl⟩ := Option.map_eq_some_iff.mp h
    obtain ⟨hwm, hobj⟩ := removeTrigger_obj hw₁.mem hrem
    obtain ⟨tr, htr, hu, rfl, hty⟩ := hw₁.mem.getTrigger_some hget
    exact .after hq (.of_trig hw₁ husr₁ (.withdrawn he hget htr hu hty) hwm hobj
      (.cancelled he rfl hst hget hrem) (by simp) rfl
      (by simp [Stmt.userID]) rfl)

theorem steps_setTrigger (hw : s.WF) (husr : s.user c.userID = some cUser) {type : TType}
    {name : String} {stk amt : CStr} (he : e.Is c name [stk, amt])
    (hname : name = match type with | .b => "SET_BUY_TRIGGER" | .s => "SET_SELL_TRIGGER") :
    Steps s e (Command.setTrigger id s c type stk amt).1 := by
  unfold Command.setTrigger
  split
  · exact .of_quiet (.refl s) hw
  rename_i st _
  dsimp only
  have hlog := quiet_logLine (s := s) c stk spc amt
  have hq := hlog.trans (quiet_findStock st)
  split_ifs with hprc
  · exact .of_quiet (.refl s) hw
  set s₁ := (s.lenq (c.logLine stk spc amt)).findStock st with hs₁
  have hw₁ := hq.wf hw
  have husr₁ : s₁.user c.userID = some cUser := hq.user ▸ husr
  cases hget : s₁.mem.getTrigger c.userID st type with
  | none => exact .of_quiet hq hw
  | some t =>
    obtain ⟨tr, htr, hu, rfl, rfl⟩ := hw₁.mem.getTrigger_some hget
    obtain ⟨hwm, hobj⟩ := wf_setTrig hw₁.mem htr (str2price id amt)
    have howned := hw₁.owner htr
    have hlisted := hw₁.listed htr
    exact .after hq (.of_trig hw₁ husr₁ (.priced he hname hprc hget htr hu) hwm hobj
      (.priced ..) (by simp [howned, hlisted]) rfl (by simp [Stmt.userID]) rfl)

theorem steps_dumplog (hw : s.WF) (file : CStr) : Steps s e (Command.dumplog s c file).1 := by
  unfold Command.dumplog
  split_ifs
  · exact .of_quiet (.refl s) hw
  · exact .of_quiet ((quiet_logLine c spc file spc).trans (quiet_lenq rfl)) hw

end Commands

theorem steps_dispatch {s : Server} {c : Cmd} {cUser : User} {e : Event} (hw : s.WF)
    (husr : s.user c.userID = some cUser) {comm : List CStr}
    (he : ∀ name : String, c.userCmd = name.toList → e.Is c name comm) {r : Server × Reply}
    (h : Command.dispatch id s c cUser comm = some r) : Steps s e r.1 := by
  cases Command.dispatched h with
  | commitBuy hcmd h => exact steps_commitBuy hw husr (he "COMMIT_BUY" hcmd) h
  | cancelBuy _ => exact steps_cancelOrder hw husr 1
  | commitSell hcmd h => exact steps_commitSell hw husr (he "COMMIT_SELL" hcmd) h
  | cancelSell _ => exact steps_cancelOrder hw husr (-1)
  | displaySummary _ => exact .of_quiet (quiet_logLine c spc spc spc) hw
  | add hcmd => exact steps_add hw husr (he "ADD" hcmd)
  | quote _ => exact steps_quote hw
  | cancelSetBuy hcmd h => exact steps_cancelSetBuy hw husr (he "CANCEL_SET_BUY" hcmd) h
  | cancelSetSell hcmd h => exact steps_cancelSetSell hw husr (he "CANCEL_SET_SELL" hcmd) h
  | dumplog _ => exact steps_dumplog hw _
  | buy hcmd => exact steps_buy hw husr (he "BUY" hcmd)
  | sell hcmd => exact steps_sell hw husr (he "SELL" hcmd)
  | setBuyAmount hcmd => exact steps_setBuyAmount hw husr (he "SET_BUY_AMOUNT" hcmd)
  | setBuyTrigger hcmd => exact steps_setTrigger hw husr (he "SET_BUY_TRIGGER" hcmd) rfl
  | setSellAmount hcmd => exact steps_setSellAmount hw husr (he "SET_SELL_AMOUNT" hcmd)
  | setSellTrigger hcmd => exact steps_setTrigger hw husr (he "SET_SELL_TRIGGER" hcmd) rfl
  | badcmd _ => exact .of_quiet (.refl s) hw

/-! ### Firings, loading, all events -/

section Firing
variable {s s' : Server} {t : TrigID} {tr : Trigger} {cUser : User} {p now : ℤ}

theorem steps_fireBuy (hw : s.WF) (htr : s.mem.obj t = some tr)
    (husr : s.user tr.userObj = some cUser) (hty : tr.type = .b) (hp : 1 ≤ p) (hpt : p < tr.trig)
    (h : Sweep.fireBuy id s t tr cUser p now = some s') : Steps s (.examine t p now) s' := by
  have hus := hw.us husr
  unfold Sweep.fireBuy at h
  dsimp only at h
  split_ifs at h with hno
  · cases h
    exact .of_quiet (.refl s) hw
  obtain ⟨hwf, hstmt, hhold⟩ := takeStock_account hus tr.userObj tr.stockObj (tr.amount.tdiv p)
  obtain ⟨rm, hrem, rfl⟩ := Option.map_eq_some_iff.mp h
  obtain ⟨hwm, hobj⟩ := removeTrigger_obj hw.mem hrem
  have hfires : s.fires t p := by simp [Server.fires, htr, hty, hpt, hno]
  have hacct : ({ cUser with
        balance := cUser.balance + tr.amount - p * tr.amount.tdiv p
        usTree := (takeStock id tr.userObj cUser.usTree tr.stockObj (tr.amount.tdiv p)).1 } :
        User).account =
      { cUser.account with
        balance := cUser.balance + tr.amount - p * tr.amount.tdiv p }.setHold tr.stockObj
        (cUser.account.shares tr.stockObj + tr.amount.tdiv p) := by
    simp only [User.account, Account.setHold, Account.mk.injEq, true_and]
    exact hhold
  refine .of_update hw (.firedBuy rfl htr (acct_book husr) hty hp hpt hno) hacct hobj
    (.fired rfl hfires hrem) rfl hwf hwm (owned_update hw (by simp)) rfl ?_ (accTrans_of_logs rfl rfl) rfl ?_ ?_
  · simp only [List.forall_mem_cons]
    exact ⟨Account.takeStmt_userID .., rfl, rfl, rfl, by simp⟩
  · simp [hstmt, setUser, dbenq, settle, lenq, User.account]
  · simp [hstmt, queued, setUser, dbenq, settle, lenq, User.account]

theorem steps_fireSell (hw : s.WF) (htr : s.mem.obj t = some tr)
    (husr : s.user tr.userObj = some cUser) (hty : tr.type = .s) (hp : 1 ≤ p) (hpt : tr.trig < p)
    (ht0 : tr.trig ≠ 0) (h : Sweep.fireSell id s t tr cUser p now = some s') : Steps s (.examine t p now) s' := by
  have hus := hw.us husr
  unfold Sweep.fireSell at h
  dsimp only at h
  split at h
  · cases h
    exact .of_quiet (.refl s) hw
  rename_i uso hs
  by_cases hnum : uso.num = 0
  · rw [if_pos hnum] at h
    cases h
    exact .of_quiet (.refl s) hw
  simp only [if_neg hnum, id_eq, sellNo_eq] at h
  have hn : cUser.account.hold tr.stockObj = some uso.num := by simp [User.account, hs]
  obtain ⟨hwf, hhold⟩ := hold_setNum hus hs (uso.num - sellNo uso.num tr.amount p)
  obtain ⟨rm, hrem, rfl⟩ := Option.map_eq_some_iff.mp h
  obtain ⟨hwm, hobj⟩ := removeTrigger_obj hw.mem hrem
  have hfires : s.fires t p := by simp [Server.fires, htr, hty, hpt, ht0, husr, hs, hnum]
  have hacct : ({ cUser with
        balance := cUser.balance + p * sellNo uso.num tr.amount p
        usTree := setNum cUser.usTree tr.stockObj uso (uso.num - sellNo uso.num tr.amount p) } :
        User).account =
      { cUser.account with balance := cUser.balance + p * sellNo uso.num tr.amount p }.setHold
        tr.stockObj (uso.num - sellNo uso.num tr.amount p) := by
    simp only [User.account, Account.setHold, Account.mk.injEq, true_and]
    exact hhold
  exact .of_update hw (.firedSell rfl htr (acct_book husr) hty hp hpt ht0 hn hnum) hacct hobj
    (.fired rfl hfires hrem) rfl hwf hwm (owned_update hw (by simp)) rfl (by simp [Stmt.userID])
    (accTrans_of_logs rfl rfl) rfl rfl rfl

theorem steps_examine (hw : s.WF) (hp : 1 ≤ p) (h : Sweep.examine id s t p now = some s') :
    Steps s (.examine t p now) s' := by
  obtain ⟨tr, htr, h⟩ := Option.bind_eq_some_iff.mp h
  obtain ⟨cUser, husr, h⟩ := Option.bind_eq_some_iff.mp h
  dsimp only at h
  split at h
  · rename_i hty
    split_ifs at h with hpt
    · exact steps_fireBuy hw htr husr hty hp hpt h
    · cases h
      exact .of_quiet (.refl s) hw
  · rename_i hty
    split_ifs at h with hpt
    · exact steps_fireSell hw htr husr hty hp hpt.1 hpt.2 h
    · cases h
      exact .of_quiet (.refl s) hw

end Firing

theorem loadTriggers_none (w : ℤ → ℤ) {db : Db} {P : UserID → Prop} (hrows : db.RowsOf P) {u : UserID}
    (hu : ¬ P u) : db.loadTriggers w u = [] := by
  simp only [Db.loadTriggers, List.map_eq_nil_iff, List.filter_eq_nil_iff, decide_eq_true_eq]
  intro r hr hru
  exact hu (hru ▸ hrows.triggers r hr)

theorem loadStocks_none {db : Db} {P : UserID → Prop} (hrows : db.RowsOf P) {u : UserID}
    (hu : ¬ P u) : db.loadStocks u = [] := by
  simp only [Db.loadStocks, List.map_eq_nil_iff, List.filter_eq_nil_iff, decide_eq_true_eq]
  intro r hr hru
  exact hu (hru ▸ hrows.stocks r hr)

theorem loadBalance_none (w : ℤ → ℤ) {db : Db} {P : UserID → Prop} (hrows : db.RowsOf P) {u : UserID}
    (hu : ¬ P u) : db.loadBalance w u = 0 := by
  have hfind : (db.accounts.find? fun r => decide (r.1 = u)) = none := by
    simp only [List.find?_eq_none, decide_eq_true_eq]
    intro r hr hru
    exact hu (hru ▸ hrows.accounts r hr)
  rw [Db.loadBalance, hfind]

/-- A user that is not loaded has no rows, and starts with nothing. -/
theorem addUser_fresh (w : ℤ → ℤ) {s : Server} (hw : s.WF) {u : UserID} (hu : s.user u = none) :
    addUser w s u = (s.setUser u ⟨0, 0, none, 0, 0, 0, Trie.empty⟩).dbenq
      [.insertAcct u "0.00".toList] := by
  have hnot : ¬ (s.user u).isSome := by simp [hu]
  simp [addUser, loadTriggers_none w hw.rows hnot, loadStocks_none hw.rows hnot,
    loadBalance_none w hw.rows hnot]

theorem account_fresh : (⟨0, 0, none, 0, 0, 0, Trie.empty⟩ : User).account = .new := by
  simp [User.account, Account.new, getUserStock_eq Trie.wf_empty]

theorem steps_connect {s : Server} (hw : s.WF) {u : UserID} (hu : s.user u = none) :
    Steps s (.connect u) (addUser id s u) := by
  rw [addUser_fresh id hw hu]
  exact .of_update hw (.opened rfl (by simp [Server.book, hu])) account_fresh rfl .same rfl
    Trie.wf_empty hw.mem (fun ht => ⟨hw.owner ht, hw.listed ht⟩) rfl (by simp [Stmt.userID]) (by simp)
    (by simp [dbenq, setUser]) rfl rfl

/-- Every step is a move of the books, and keeps the invariant. -/
theorem step_steps {s s' : Server} {e : Event} (hw : s.WF) (h : step id s e = some s') :
    Steps s e s' := by
  cases e with
  | connect u =>
    simp only [step, Option.isSome_iff_ne_none] at h
    split_ifs at h with hu
    cases h
    exact steps_connect hw (not_not.mp hu)
  | command c commStr =>
    obtain ⟨r, hr, rfl⟩ := Option.map_eq_some_iff.mp h
    obtain ⟨cUser, husr, hr⟩ := Option.bind_eq_some_iff.mp hr
    exact steps_dispatch hw husr (fun name hname => ⟨commStr, rfl, hname, rfl⟩) hr
  | quote st q =>
    cases h
    exact .of_quiet (quiet_setQuote st q) hw
  | examine t p now =>
    simp only [step] at h
    split_ifs at h with hg
    exact steps_examine hw hg.1 h

end TradeC
