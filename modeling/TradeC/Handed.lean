import TradeC.Loading

/-! What a step of the server hands over to the database, and what is settled by it.

    The requests that a step adds to the queue are the ones that run on the tables, and each settlement has its
    statement for `transactions` in one of them, with the user, the text and the command of its kind. -/

namespace TradeC

/-- The user, the text of the adjustment and the command of a statement for `transactions`. -/
def Stmt.entry : Stmt → Option (UserID × CStr × Char)
  | .insertTran u _ _ adj _ c => some (u, adj, c)
  | _ => none

def Settlement.command : Settlement → Char
  | .add _ => 'a'
  | .commitBuy _ => 'b'
  | .commitSell _ => 's'
  | .firedBuy _ => 'g'
  | .firedSell _ => 'h'

def Settlement.cents : Settlement → ℤ
  | .add prc => prc
  | .commitBuy reserve => reserve
  | .commitSell reserve => reserve
  | .firedBuy tbuy => tbuy
  | .firedSell tsell => tsell

/-- What is recorded of a server. -/
def Server.record (s : Server) : List (List Stmt) × Db × List (UserID × Settlement) := (s.requests, s.db, s.settled)

@[simp] theorem Server.record_findStock (s : Server) (st : StockID) : (s.findStock st).record = s.record := by
  unfold findStock
  split_ifs <;> rfl

@[simp] theorem Server.record_freshQuote (s : Server) (c : Cmd) (st : StockID) :
    (s.freshQuote c st).record = s.record := by
  unfold freshQuote
  split_ifs <;> rfl

/-- From `s` to `s'` the requests `reqs` are handed over, all about `u`, and what is settled has its text in
    them. -/
structure Handed (w : ℤ → ℤ) (raw : CStr → Prop) (u : UserID) (s s' : Server) (reqs : List (List Stmt))
    (xs : List (CStr × Settlement)) : Prop where
  record : s'.record = (s.requests ++ reqs, s.db.runs reqs, s.settled ++ xs.map fun x => (u, x.2))
  users : ∀ req ∈ reqs, ∀ st ∈ req, st.userID = u
  entries : reqs.flatten.filterMap Stmt.entry = xs.map fun x => (u, x.1, x.2.command)
  texts : ∀ x ∈ xs, x.1 = price2str x.2.cents ∨ raw x.1 ∧ x.2 = .add (str2price w x.1)

def HandsOver (w : ℤ → ℤ) (raw : CStr → Prop) (u : UserID) (s s' : Server) : Prop :=
  ∃ reqs xs, Handed w raw u s s' reqs xs

section
variable {w : ℤ → ℤ} {raw : CStr → Prop} {u : UserID} {s s' : Server}

theorem HandsOver.nothing (h : s'.record = s.record) : HandsOver w raw u s s' := by
  refine ⟨[], [], ?_, by simp, rfl, by simp⟩
  rw [h]
  simp [Server.record, Db.runs]

theorem record_inj {reqs : List (List Stmt)} {db : Db} {xs : List (UserID × Settlement)}
    (h : s.record = (reqs, db, xs)) : s.requests = reqs ∧ s.db = db ∧ s.settled = xs :=
  ⟨(Prod.mk.inj h).1, Prod.mk.inj (Prod.mk.inj h).2⟩

/-- One request, from a state that has handed over nothing. -/
theorem HandsOver.one {s₁ : Server} {req : List Stmt} (h : s₁.record = s.record) (xs : List (CStr × Settlement))
    (hrecord : s'.record = (s₁.requests ++ [req], s₁.db.run req, s₁.settled ++ xs.map fun x => (u, x.2)))
    (husers : ∀ st ∈ req, st.userID = u)
    (hentries : req.filterMap Stmt.entry = xs.map fun x => (u, x.1, x.2.command))
    (htexts : ∀ x ∈ xs, x.1 = price2str x.2.cents ∨ raw x.1 ∧ x.2 = .add (str2price w x.1)) :
    HandsOver w raw u s s' := by
  obtain ⟨hreqs, hdb, hsettled⟩ := record_inj h
  rw [hreqs, hdb, hsettled] at hrecord
  exact ⟨[req], xs, hrecord, List.forall_mem_singleton.mpr husers, by rwa [List.flatten_singleton], htexts⟩

/-- One request that settles nothing. -/
theorem HandsOver.unsettled {s₁ : Server} {req : List Stmt} (h : s₁.record = s.record)
    (hrecord : s'.record = (s₁.requests ++ [req], s₁.db.run req, s₁.settled))
    (husers : ∀ st ∈ req, st.userID = u) (hentries : req.filterMap Stmt.entry = []) : HandsOver w raw u s s' :=
  HandsOver.one h [] (by rw [hrecord, List.map_nil, List.append_nil]) husers hentries (by simp)

end

section Commands
variable {w : ℤ → ℤ} {raw : CStr → Prop} {s : Server} {c : Cmd} {cUser : User}

theorem HandsOver.add {amt : CStr} (hraw : str2price w amt ≠ -1 → raw amt) :
    HandsOver w raw c.userID s (Command.add w s c cUser amt).1 := by
  unfold Command.add
  dsimp only
  split_ifs with hprc
  · exact HandsOver.nothing rfl
  · exact HandsOver.one (Eq.refl s.record) [(amt, .add (str2price w amt))] rfl
      (by simp [Cmd.insertTran, Stmt.userID]) rfl (by simp [hraw hprc])

theorem record_quote (stk : CStr) : (Command.quote s c stk).1.record = s.record := by
  unfold Command.quote
  cases toStockID stk with
  | none => rfl
  | some st =>
    dsimp only
    split_ifs
    · exact Server.record_findStock _ st
    · exact Server.record_findStock _ st

theorem record_buy (stk amt : CStr) : (Command.buy w s c cUser stk amt).1.record = s.record := by
  unfold Command.buy
  cases toStockID stk with
  | none => rfl
  | some st =>
    have hquote : (((s.lenq (c.logLine stk spc amt)).findStock st).freshQuote c st).record = s.record := by
      rw [Server.record_freshQuote, Server.record_findStock]
      rfl
    dsimp only
    split_ifs
    · rfl
    · rfl
    · rfl
    · exact hquote
    · exact hquote
    · exact hquote

theorem record_cancelOrder (side : ℤ) : (Command.cancelOrder s c cUser side).1.record = s.record := by
  unfold Command.cancelOrder
  dsimp only
  split_ifs <;> rfl

theorem record_sell (stk amt : CStr) : (Command.sell w s c cUser stk amt).1.record = s.record := by
  unfold Command.sell
  cases toStockID stk with
  | none => rfl
  | some st =>
    have hfind : ((s.lenq (c.logLine stk spc amt)).findStock st).record = s.record :=
      Server.record_findStock _ st
    have hquote : (((s.lenq (c.logLine stk spc amt)).findStock st).freshQuote c st).record = s.record :=
      (Server.record_freshQuote _ c st).trans hfind
    dsimp only
    cases getUserStock cUser.usTree st with
    | none =>
      dsimp only
      split_ifs
      · rfl
      · exact hfind
    | some us =>
      dsimp only
      split_ifs
      · rfl
      · exact hfind
      · exact hfind
      · exact hquote
      · exact hquote
      · exact hquote

/-- The statement for a holding is about the user, and not for `transactions`. -/
theorem takeStock_stmt (w : ℤ → ℤ) (u : UserID) (us : Trie UserStock) (st : StockID) (n : ℤ) :
    (takeStock w u us st n).2.userID = u ∧ (takeStock w u us st n).2.entry = none := by
  unfold takeStock
  split
  · exact ⟨rfl, rfl⟩
  · exact ⟨rfl, rfl⟩

theorem HandsOver.commitBuy {r : Server × Reply} (h : Command.commitBuy w s c cUser = some r) :
    HandsOver w raw c.userID s r.1 := by
  unfold Command.commitBuy at h
  dsimp only at h
  split_ifs at h
  · cases h
    exact HandsOver.nothing rfl
  · cases h
    exact HandsOver.nothing rfl
  · cases hst : cUser.stockObj with
    | none => simp [hst] at h
    | some st =>
      simp only [hst] at h
      cases h
      obtain ⟨huser, hentry⟩ := takeStock_stmt w c.userID cUser.usTree st cUser.no
      refine HandsOver.one (Eq.refl s.record) [(price2str cUser.reserve, .commitBuy cUser.reserve)] rfl
        (List.forall_mem_cons.mpr ⟨huser, by simp [Cmd.insertTran, Stmt.userID]⟩) ?_
        (by simp [Settlement.cents])
      rw [List.filterMap_cons_none hentry]
      rfl

theorem HandsOver.commitSell {r : Server × Reply} (h : Command.commitSell w s c cUser = some r) :
    HandsOver w raw c.userID s r.1 := by
  unfold Command.commitSell at h
  dsimp only at h
  split_ifs at h
  · cases h
    exact HandsOver.nothing rfl
  · cases h
    exact HandsOver.nothing rfl
  · cases hst : cUser.stockObj with
    | none => simp [hst] at h
    | some st =>
      simp only [hst] at h
      cases hus : getUserStock cUser.usTree st with
      | none =>
        simp only [hus] at h
        cases h
        exact HandsOver.nothing rfl
      | some us =>
        simp only [hus] at h
        cases h
        exact HandsOver.one (Eq.refl s.record) [(price2str cUser.reserve, .commitSell cUser.reserve)] rfl
          (by simp [Cmd.insertTran, Stmt.userID]) rfl (by simp [Settlement.cents])

theorem HandsOver.setBuyAmount {stk amt : CStr} :
    HandsOver w raw c.userID s (Command.setBuyAmount w s c cUser stk amt).1 := by
  unfold Command.setBuyAmount
  cases toStockID stk with
  | none => exact HandsOver.nothing rfl
  | some st =>
    have hfind : ((s.lenq (c.logLine stk spc amt)).findStock st).record = s.record :=
      Server.record_findStock _ st
    dsimp only
    split_ifs
    · exact HandsOver.nothing rfl
    · exact HandsOver.nothing rfl
    · exact HandsOver.nothing rfl
    · cases ((s.lenq (c.logLine stk spc amt)).findStock st).mem.getTrigger c.userID st .b with
      | some t => exact HandsOver.nothing hfind
      | none =>
        exact HandsOver.unsettled hfind rfl (by simp [Stmt.userID]) rfl

theorem HandsOver.setSellAmount {stk amt : CStr} :
    HandsOver w raw c.userID s (Command.setSellAmount w s c cUser stk amt).1 := by
  unfold Command.setSellAmount
  cases toStockID stk with
  | none => exact HandsOver.nothing rfl
  | some st =>
    have hfind : ((s.lenq (c.logLine stk spc amt)).findStock st).record = s.record :=
      Server.record_findStock _ st
    dsimp only
    split_ifs
    · exact HandsOver.nothing rfl
    · exact HandsOver.nothing rfl
    · exact HandsOver.nothing hfind
    · exact HandsOver.nothing hfind
    · exact HandsOver.unsettled hfind rfl (by simp [Stmt.userID]) rfl

theorem HandsOver.setTrigger {type : TType} {stk amt : CStr} :
    HandsOver w raw c.userID s (Command.setTrigger w s c type stk amt).1 := by
  unfold Command.setTrigger
  cases toStockID stk with
  | none => exact HandsOver.nothing rfl
  | some st =>
    have hfind : ((s.lenq (c.logLine stk spc amt)).findStock st).record = s.record :=
      Server.record_findStock _ st
    dsimp only
    split_ifs with hprc
    · exact HandsOver.nothing rfl
    · cases ((s.lenq (c.logLine stk spc amt)).findStock st).mem.getTrigger c.userID st type with
      | none => exact HandsOver.nothing hfind
      | some t =>
        exact HandsOver.unsettled hfind rfl (by simp [Stmt.userID]) rfl

theorem HandsOver.cancelSetBuy {stk : CStr} {r : Server × Reply} (h : Command.cancelSetBuy w s c cUser stk = some r) :
    HandsOver w raw c.userID s r.1 := by
  unfold Command.cancelSetBuy at h
  cases hst : toStockID stk with
  | none =>
    simp only [hst] at h
    cases h
    exact HandsOver.nothing rfl
  | some st =>
    have hfind : ((s.lenq (c.logLine stk spc spc)).findStock st).record = s.record :=
      Server.record_findStock _ st
    simp only [hst] at h
    cases hget : ((s.lenq (c.logLine stk spc spc)).findStock st).mem.getTrigger c.userID st .b with
    | none =>
      simp only [hget] at h
      cases h
      exact HandsOver.nothing hfind
    | some t =>
      simp only [hget] at h
      obtain ⟨tr, -, h⟩ := Option.bind_eq_some_iff.mp h
      obtain ⟨m, -, rfl⟩ := Option.map_eq_some_iff.mp h
      exact HandsOver.unsettled hfind rfl (by simp [Stmt.userID]) rfl

theorem HandsOver.cancelSetSell {stk : CStr} {r : Server × Reply} (h : Command.cancelSetSell s c stk = some r) :
    HandsOver w raw c.userID s r.1 := by
  unfold Command.cancelSetSell at h
  cases hst : toStockID stk with
  | none =>
    simp only [hst] at h
    cases h
    exact HandsOver.nothing rfl
  | some st =>
    have hfind : ((s.lenq (c.logLine stk spc spc)).findStock st).record = s.record :=
      Server.record_findStock _ st
    simp only [hst] at h
    cases hget : ((s.lenq (c.logLine stk spc spc)).findStock st).mem.getTrigger c.userID st .s with
    | none =>
      simp only [hget] at h
      cases h
      exact HandsOver.nothing hfind
    | some t =>
      simp only [hget] at h
      obtain ⟨m, -, rfl⟩ := Option.map_eq_some_iff.mp h
      exact HandsOver.unsettled hfind rfl (by simp [Stmt.userID]) rfl

/-- The texts of a command that may be written as they are. -/
def RawText (w : ℤ → ℤ) (c : Cmd) (comm : List CStr) (v : CStr) : Prop :=
  str2price w v ≠ -1 ∧ (c.userCmd = "ADD".toList ∧ comm = [v] ∨
    c.userCmd ∈ ["SET_BUY_AMOUNT".toList, "SET_BUY_TRIGGER".toList, "SET_SELL_AMOUNT".toList,
      "SET_SELL_TRIGGER".toList] ∧ ∃ stk, comm = [stk, v])

theorem HandsOver.dispatch {comm : List CStr} {r : Server × Reply} (h : Command.dispatch w s c cUser comm = some r) :
    HandsOver w (RawText w c comm) c.userID s r.1 := by
  cases Command.dispatched h with
  | commitBuy _ hr => exact HandsOver.commitBuy hr
  | cancelBuy _ => exact HandsOver.nothing (record_cancelOrder 1)
  | commitSell _ hr => exact HandsOver.commitSell hr
  | cancelSell _ => exact HandsOver.nothing (record_cancelOrder (-1))
  | displaySummary _ => exact HandsOver.nothing rfl
  | add hcmd => exact HandsOver.add fun hprc => ⟨hprc, .inl ⟨hcmd, rfl⟩⟩
  | quote _ => exact HandsOver.nothing (record_quote _)
  | cancelSetBuy _ hr => exact HandsOver.cancelSetBuy hr
  | cancelSetSell _ hr => exact HandsOver.cancelSetSell hr
  | @dumplog file _ =>
    refine HandsOver.nothing ?_
    unfold Command.dumplog
    split_ifs <;> rfl
  | buy _ => exact HandsOver.nothing (record_buy _ _)
  | sell _ => exact HandsOver.nothing (record_sell _ _)
  | setBuyAmount _ => exact HandsOver.setBuyAmount
  | setBuyTrigger _ => exact HandsOver.setTrigger
  | setSellAmount _ => exact HandsOver.setSellAmount
  | setSellTrigger _ => exact HandsOver.setTrigger
  | badcmd _ => exact HandsOver.nothing rfl

end Commands

section Firing
variable {w : ℤ → ℤ} {raw : CStr → Prop} {s s' : Server} {t : TrigID} {tr : Trigger} {cUser : User} {p now : ℤ}

theorem HandsOver.fireBuy (h : Sweep.fireBuy w s t tr cUser p now = some s') : HandsOver w raw tr.userObj s s' := by
  unfold Sweep.fireBuy at h
  dsimp only at h
  split_ifs at h
  · cases h
    exact HandsOver.nothing rfl
  · obtain ⟨m, -, rfl⟩ := Option.map_eq_some_iff.mp h
    obtain ⟨huser, hentry⟩ := takeStock_stmt w tr.userObj cUser.usTree tr.stockObj (tr.amount.tdiv p)
    refine HandsOver.one (Eq.refl s.record)
      [(price2str (w (p * tr.amount.tdiv p)), .firedBuy (w (p * tr.amount.tdiv p)))] rfl
      (List.forall_mem_cons.mpr ⟨huser, by simp [Stmt.userID]⟩) ?_ (by simp [Settlement.cents])
    rw [List.cons_append, List.filterMap_cons_none hentry]
    rfl

theorem HandsOver.fireSell (h : Sweep.fireSell w s t tr cUser p now = some s') : HandsOver w raw tr.userObj s s' := by
  unfold Sweep.fireSell at h
  dsimp only at h
  cases hus : getUserStock cUser.usTree tr.stockObj with
  | none =>
    simp only [hus] at h
    cases h
    exact HandsOver.nothing rfl
  | some us =>
    simp only [hus] at h
    generalize (if us.num < w (tr.amount.tdiv p + 1) then us.num else w (tr.amount.tdiv p + 1)) = no at h
    split_ifs at h
    · cases h
      exact HandsOver.nothing rfl
    · obtain ⟨m, -, rfl⟩ := Option.map_eq_some_iff.mp h
      exact HandsOver.one (Eq.refl s.record) [(price2str (w (p * no)), .firedSell (w (p * no)))] rfl
        (by simp [Stmt.userID]) rfl (by simp [Settlement.cents])

theorem HandsOver.examine (h : Sweep.examine w s t p now = some s') :
    ∃ u, (s.user u).isSome ∧ HandsOver w (fun _ => False) u s s' := by
  unfold Sweep.examine at h
  obtain ⟨tr, -, h⟩ := Option.bind_eq_some_iff.mp h
  obtain ⟨cUser, husr, h⟩ := Option.bind_eq_some_iff.mp h
  refine ⟨tr.userObj, Option.isSome_of_eq_some husr, ?_⟩
  cases hty : tr.type with
  | b =>
    simp only [hty] at h
    split_ifs at h
    · exact HandsOver.fireBuy h
    · cases h
      exact HandsOver.nothing rfl
  | s =>
    simp only [hty] at h
    split_ifs at h
    · exact HandsOver.fireSell h
    · cases h
      exact HandsOver.nothing rfl

end Firing

def Event.rawText (w : ℤ → ℤ) : Event → CStr → Prop
  | .command c commStr => RawText w c (delimSepNoCpy commStr ',')
  | _ => fun _ => False

/-- A step that loads no user hands over requests about a user in memory. -/
theorem step_hands {w : ℤ → ℤ} {s s' : Server} {e : Event} (he : e.loads = false)
    (h : step w s e = some s') :
    s'.record = s.record ∨ ∃ u, (s.user u).isSome ∧ HandsOver w (e.rawText w) u s s' := by
  cases e with
  | connect u => cases he
  | command c commStr =>
    obtain ⟨r, hr, rfl⟩ := Option.map_eq_some_iff.mp h
    obtain ⟨cUser, husr, hr⟩ := Option.bind_eq_some_iff.mp hr
    exact .inr ⟨c.userID, Option.isSome_of_eq_some husr, HandsOver.dispatch hr⟩
  | quote st q =>
    cases h
    exact .inl rfl
  | examine t p now =>
    simp only [step] at h
    split_ifs at h
    exact .inr (HandsOver.examine h)

theorem record_addUser (w : ℤ → ℤ) (s : Server) (u : UserID) : (addUser w s u).record =
    (s.requests ++ [[.insertAcct u "0.00".toList]], s.db.run [.insertAcct u "0.00".toList], s.settled) := by
  have htriggers : ∀ (rows : List LoadedRow) (s : Server), (loadTriggers u s rows).record = s.record := by
    intro rows
    induction rows with
    | nil => exact fun s => rfl
    | cons row rows ih =>
      intro s
      rw [loadTriggers, List.foldl_cons]
      exact (ih _).trans (Server.record_findStock s row.2.1)
  have hstocks : ∀ (stocks : List (StockID × ℤ)) (s : Server),
      (stocks.foldl (fun s r => s.findStock r.1) s).record = s.record := by
    intro stocks
    induction stocks with
    | nil => exact fun s => rfl
    | cons r stocks ih =>
      intro s
      exact (ih _).trans (Server.record_findStock s r.1)
  have hdb := db_addUser w s u
  have hboth := (hstocks ((loadTriggers u s (s.db.loadTriggers w u)).db.loadStocks u) _).trans
    (htriggers (s.db.loadTriggers w u) s)
  obtain ⟨hreqs, -, hsettled⟩ := record_inj hboth
  have hreqs' : (addUser w s u).requests = s.requests ++ [[.insertAcct u "0.00".toList]] :=
    congrArg (· ++ [[Stmt.insertAcct u "0.00".toList]]) hreqs
  have hsettled' : (addUser w s u).settled = s.settled := hsettled
  rw [Server.record, hdb, hreqs', hsettled']

end TradeC
