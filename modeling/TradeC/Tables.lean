import TradeC.WellFormed

/-! No command and no firing reads the tables.

    What a step does and answers, and the requests that it hands over, are the same over any tables;
    its requests are about one user, so that they change the rows of this user only. -/

namespace TradeC
open Decimal

/-! ### The rows of some users -/

section Rows
variable {ρ : Type*} {p : ρ → Bool} {f : ρ → ρ}

theorem filter_map_same (hf : ∀ r, p (f r) = p r) (l : List ρ) :
    (l.map f).filter p = (l.filter p).map f := by
  rw [List.filter_map]
  exact congrArg (List.map f) (List.filter_congr fun r _ => hf r)

theorem filter_map_other (hf : ∀ r, p (f r) = p r) (hid : ∀ r, p r = true → f r = r) (l : List ρ) :
    (l.map f).filter p = l.filter p := by
  rw [filter_map_same hf]
  exact (List.map_congr_left fun r hr => hid r (List.mem_filter.mp hr).2).trans (List.map_id' _)

end Rows

namespace Db
variable {db db' : Db} {P : UserID → Bool}

/-- The rows of the users of `P`. -/
def part (db : Db) (P : UserID → Bool) : Db :=
  ⟨db.accounts.filter fun r => P r.1, db.stocks.filter fun r => P r.userID,
    db.triggers.filter fun r => P r.userID⟩

/-- Requests, one after the other. -/
def runs (db : Db) (reqs : List (List Stmt)) : Db := reqs.foldl run db

theorem any_accounts_part {u : UserID} (hu : P u = true) :
    (db.part P).accounts.any (fun r => decide (r.1 = u)) = db.accounts.any fun r => decide (r.1 = u) := by
  rw [Bool.eq_iff_iff, List.any_eq_true, List.any_eq_true]
  constructor
  · rintro ⟨r, hr, h⟩
    exact ⟨r, (List.mem_filter.mp hr).1, h⟩
  · rintro ⟨r, hr, h⟩
    have hp : P r.1 = true := (of_decide_eq_true h).symm ▸ hu
    exact ⟨r, List.mem_filter.mpr ⟨hr, hp⟩, h⟩

/-- A statement about a user of `P` does to the rows of `P` what it does to all. -/
theorem exec_part {st : Stmt} (h : P st.userID = true) :
    (db.part P).exec st = (db.exec st).map (·.part P) := by
  cases st with
  | insertAcct u bal =>
    have hu : P u = true := h
    cases hbal : numeric bal with
    | none => simp only [exec, hbal, Option.map_none]
    | some x =>
      simp only [exec, hbal, Option.map_some, any_accounts_part hu]
      split_ifs
      · rfl
      · simp [part, List.filter_append, hu]
  | updateBal bal u =>
    cases hbal : numeric bal with
    | none => simp only [exec, hbal, Option.map_none]
    | some x =>
      simp only [exec, hbal, Option.map_some, part]
      rw [filter_map_same fun r => ?_]
      split_ifs with hr
      · rw [hr]
      · rfl
  | insertStk u st n =>
    have hu : P u = true := h
    simp [exec, part, List.filter_append, hu]
  | updateStk n u st =>
    simp only [exec, Option.map_some, part]
    rw [filter_map_same fun r => ?_]
    split_ifs <;> rfl
  | insertTran u tid st adj ts c =>
    cases hadj : numeric adj <;> simp only [exec, hadj, Option.map_none, Option.map_some]
  | insertTrig u tid st ty funds value =>
    have hu : P u = true := h
    cases hf : numeric funds with
    | none => simp only [exec, hf, Option.bind_none, Option.map_none]
    | some f =>
      cases hv : numeric value with
      | none => simp only [exec, hf, hv, Option.bind_some, Option.map_none]
      | some v => simp [exec, hf, hv, part, List.filter_append, hu]
  | updateTrig value u st ty =>
    cases hv : numeric value with
    | none => simp only [exec, hv, Option.map_none]
    | some v =>
      simp only [exec, hv, Option.map_some, part]
      rw [filter_map_same fun r => ?_]
      split_ifs <;> rfl
  | deleteTrig u st ty =>
    simp only [exec, Option.map_some, part, List.filter_filter]
    simp only [Bool.and_comm]

/-- A statement about another user leaves them. -/
theorem part_exec_other {st : Stmt} (h : P st.userID = false) (hst : db.exec st = some db') :
    db'.part P = db.part P := by
  have hne : ∀ {u v : UserID}, P u = false → P v = true → v ≠ u := by
    rintro u v hu hv rfl
    rw [hu] at hv
    cases hv
  cases st with
  | insertAcct u bal =>
    obtain ⟨x, _, rfl⟩ := Option.map_eq_some_iff.mp hst
    have hu : P u = false := h
    split_ifs
    · rfl
    · simp [part, List.filter_append, hu]
  | updateBal bal u =>
    obtain ⟨x, _, rfl⟩ := Option.map_eq_some_iff.mp hst
    have hu : P u = false := h
    simp only [part]
    rw [filter_map_other (fun r => ?_) fun r hr => if_neg (hne hu hr)]
    split_ifs with hr
    · rw [hr]
    · rfl
  | insertStk u st n =>
    cases hst
    have hu : P u = false := h
    simp [part, List.filter_append, hu]
  | updateStk n u st =>
    cases hst
    simp only [part]
    rw [filter_map_other (fun r => ?_) fun r hr => if_neg fun heq => hne h hr heq.1]
    split_ifs <;> rfl
  | insertTran u tid st adj ts c =>
    obtain ⟨x, _, rfl⟩ := Option.map_eq_some_iff.mp hst
    rfl
  | insertTrig u tid st ty funds value =>
    obtain ⟨f, _, hst⟩ := Option.bind_eq_some_iff.mp hst
    obtain ⟨v, _, rfl⟩ := Option.map_eq_some_iff.mp hst
    have hu : P u = false := h
    simp [part, List.filter_append, hu]
  | updateTrig value u st ty =>
    obtain ⟨v, _, rfl⟩ := Option.map_eq_some_iff.mp hst
    simp only [part]
    rw [filter_map_other (fun r => ?_) fun r hr => if_neg fun heq => hne h hr heq.1]
    split_ifs <;> rfl
  | deleteTrig u st ty =>
    cases hst
    have hu : P u = false := h
    simp only [part, List.filter_filter]
    congr 1
    refine List.filter_congr fun r _ => ?_
    by_cases hr : P r.userID = true
    · simp [hr, hne hu hr]
    · simp [hr]

theorem foldlM_part : ∀ (req : List Stmt) {db : Db}, (∀ st ∈ req, P st.userID = true) →
    req.foldlM exec (db.part P) = (req.foldlM exec db).map (·.part P) := by
  intro req
  induction req with
  | nil =>
    intro db _
    rfl
  | cons st req ih =>
    intro db h
    rw [List.foldlM_cons, List.foldlM_cons, exec_part (h st List.mem_cons_self)]
    cases hst : db.exec st with
    | none => rfl
    | some db₁ => exact ih fun st' hst' => h st' (List.mem_cons_of_mem st hst')

theorem part_foldlM_other : ∀ (req : List Stmt) {db db' : Db}, (∀ st ∈ req, P st.userID = false) →
    req.foldlM exec db = some db' → db'.part P = db.part P := by
  intro req
  induction req with
  | nil =>
    intro db db' _ hrun
    cases hrun
    rfl
  | cons st req ih =>
    intro db db' h hrun
    rw [List.foldlM_cons] at hrun
    obtain ⟨db₁, hst, hrun⟩ := Option.bind_eq_some_iff.mp hrun
    rw [ih (fun st' hst' => h st' (List.mem_cons_of_mem st hst')) hrun,
      part_exec_other (h st List.mem_cons_self) hst]

theorem run_part {req : List Stmt} (h : ∀ st ∈ req, P st.userID = true) :
    (db.part P).run req = (db.run req).part P := by
  rw [run, run, foldlM_part req h]
  cases req.foldlM exec db <;> rfl

theorem part_run_other {req : List Stmt} (h : ∀ st ∈ req, P st.userID = false) :
    (db.run req).part P = db.part P := by
  rw [run]
  cases hrun : req.foldlM exec db with
  | none => rfl
  | some db' => exact part_foldlM_other req h hrun

/-- Requests about users of `P`. -/
theorem runs_part : ∀ (reqs : List (List Stmt)) {db : Db}, (∀ req ∈ reqs, ∀ st ∈ req, P st.userID = true) →
    (db.part P).runs reqs = (db.runs reqs).part P := by
  intro reqs
  induction reqs with
  | nil =>
    intro db _
    rfl
  | cons req reqs ih =>
    intro db h
    rw [runs, List.foldl_cons, run_part (h req List.mem_cons_self)]
    exact ih fun req' hreq' => h req' (List.mem_cons_of_mem req hreq')

theorem part_runs_other : ∀ (reqs : List (List Stmt)) {db : Db},
    (∀ req ∈ reqs, ∀ st ∈ req, P st.userID = false) → (db.runs reqs).part P = db.part P := by
  intro reqs
  induction reqs with
  | nil =>
    intro db _
    rfl
  | cons req reqs ih =>
    intro db h
    rw [runs, List.foldl_cons]
    exact (ih fun req' hreq' => h req' (List.mem_cons_of_mem req hreq')).trans
      (part_run_other (h req List.mem_cons_self))

end Db

/-! ### A step over other tables -/

namespace Server
variable (s : Server) (db : Db)

def withDb (s : Server) (db : Db) : Server := { s with db }

@[simp] theorem withDb_self : s.withDb s.db = s := rfl

@[simp] theorem user_withDb : (s.withDb db).user = s.user := rfl

@[simp] theorem mem_withDb : (s.withDb db).mem = s.mem := rfl

@[simp] theorem mem_setUser (u : UserID) (usr : User) : (s.setUser u usr).mem = s.mem := rfl

@[simp] theorem stock_withDb : (s.withDb db).stock = s.stock := rfl

@[simp] theorem db_withDb : (s.withDb db).db = db := rfl

@[simp] theorem lenq_withDb (line : LogLine) : (s.withDb db).lenq line = (s.lenq line).withDb db := rfl

@[simp] theorem settle_withDb (u : UserID) (x : Settlement) :
    (s.withDb db).settle u x = (s.settle u x).withDb db := rfl

@[simp] theorem setUser_withDb (u : UserID) (usr : User) :
    (s.withDb db).setUser u usr = (s.setUser u usr).withDb db := rfl

@[simp] theorem setQuote_withDb (st : StockID) (q : Quote) :
    (s.withDb db).setQuote st q = (s.setQuote st q).withDb db := rfl

@[simp] theorem setMem_withDb (m : Mem) :
    ({ s.withDb db with mem := m } : Server) = ({ s with mem := m } : Server).withDb db := rfl

@[simp] theorem dbenq_withDb (req : List Stmt) :
    (s.withDb db).dbenq req = (s.dbenq req).withDb (db.run req) := rfl

@[simp] theorem findStock_withDb (st : StockID) :
    (s.withDb db).findStock st = (s.findStock st).withDb db := by
  unfold findStock
  split_ifs with h h' h'
  · rfl
  · exact absurd h h'
  · exact absurd h' h
  · rfl

@[simp] theorem freshQuote_withDb (c : Cmd) (st : StockID) :
    (s.withDb db).freshQuote c st = (s.freshQuote c st).withDb db := by
  unfold freshQuote
  split_ifs with h h' h'
  · rfl
  · exact absurd h h'
  · exact absurd h' h
  · rfl

end Server

/-- Over any tables the result is the same, with its requests run on these; they are about `u`. -/
def Blind {α : Type*} (u : UserID) (s : Server) (f : Server → Option (Server × α)) : Prop :=
  ∃ reqs : List (List Stmt), (∀ req ∈ reqs, ∀ st ∈ req, st.userID = u) ∧
    ∀ db, f (s.withDb db) = (f s).map fun r => (r.1.withDb (db.runs reqs), r.2)

theorem Blind.spec {α : Type*} {u : UserID} {s : Server} {f : Server → Option (Server × α)}
    {r : Server × α} (h : Blind u s f) (hr : f s = some r) :
    ∃ reqs : List (List Stmt), (∀ req ∈ reqs, ∀ st ∈ req, st.userID = u) ∧ r.1.db = s.db.runs reqs ∧
      ∀ db, f (s.withDb db) = some (r.1.withDb (db.runs reqs), r.2) := by
  obtain ⟨reqs, hu, hdb⟩ := h
  simp only [hr, Option.map_some] at hdb
  have hself := hdb s.db
  rw [Server.withDb_self, hr] at hself
  exact ⟨reqs, hu, congrArg Server.db (congrArg Prod.fst (Option.some.inj hself)), hdb⟩

section Commands
variable {w : ℤ → ℤ} {s : Server} {c : Cmd} {cUser : User}

theorem blind_add (amt : CStr) : Blind c.userID s fun s => some (Command.add w s c cUser amt) := by
  unfold Blind Command.add
  simp only [Server.lenq_withDb, Server.setUser_withDb, Server.settle_withDb, Server.dbenq_withDb,
    Option.map_some]
  split_ifs
  · exact ⟨[], by simp, fun db => rfl⟩
  · exact ⟨[_], by simp [Cmd.insertTran, Stmt.userID], fun db => rfl⟩

theorem blind_buy (stk amt : CStr) : Blind c.userID s fun s => some (Command.buy w s c cUser stk amt) := by
  unfold Blind Command.buy
  cases toStockID stk with
  | none => exact ⟨[], by simp, fun db => rfl⟩
  | some st =>
    refine ⟨[], by simp, fun db => ?_⟩
    simp only [Server.lenq_withDb, Server.findStock_withDb, Server.freshQuote_withDb, Server.stock_withDb,
      Server.setUser_withDb, Option.map_some]
    split_ifs <;> rfl

theorem blind_quote (stk : CStr) : Blind c.userID s fun s => some (Command.quote s c stk) := by
  unfold Blind Command.quote
  cases toStockID stk with
  | none => exact ⟨[], by simp, fun db => rfl⟩
  | some st =>
    refine ⟨[], by simp, fun db => ?_⟩
    simp only [Server.lenq_withDb, Server.findStock_withDb, Server.stock_withDb, Server.setQuote_withDb,
      Option.map_some]
    split_ifs <;> rfl

theorem blind_cancelOrder (side : ℤ) :
    Blind c.userID s fun s => some (Command.cancelOrder s c cUser side) := by
  refine ⟨[], by simp, fun db => ?_⟩
  simp only [Command.cancelOrder, Option.map_some]
  split_ifs <;> rfl

theorem blind_commitBuy : Blind c.userID s fun s => Command.commitBuy w s c cUser := by
  unfold Blind Command.commitBuy
  dsimp only
  split_ifs
  · exact ⟨[], by simp, fun db => rfl⟩
  · exact ⟨[], by simp, fun db => rfl⟩
  · cases cUser.stockObj with
    | none => exact ⟨[], by simp, fun db => rfl⟩
    | some st =>
      refine ⟨[_], ?_, fun db => rfl⟩
      have hstk : (takeStock w c.userID cUser.usTree st cUser.no).2.userID = c.userID := by
        unfold takeStock
        split <;> rfl
      simp only [List.forall_mem_singleton, List.forall_mem_cons]
      exact ⟨hstk, rfl, rfl⟩

theorem blind_sell (stk amt : CStr) : Blind c.userID s fun s => some (Command.sell w s c cUser stk amt) := by
  unfold Blind Command.sell
  cases toStockID stk with
  | none => exact ⟨[], by simp, fun db => rfl⟩
  | some st =>
    refine ⟨[], by simp, fun db => ?_⟩
    simp only [Server.lenq_withDb, Server.findStock_withDb, Server.freshQuote_withDb, Server.stock_withDb,
      Server.setUser_withDb, Option.map_some]
    cases getUserStock cUser.usTree st with
    | none =>
      dsimp only
      split_ifs <;> rfl
    | some us =>
      dsimp only
      split_ifs <;> rfl

theorem blind_commitSell : Blind c.userID s fun s => Command.commitSell w s c cUser := by
  unfold Blind Command.commitSell
  dsimp only
  split_ifs
  · exact ⟨[], by simp, fun db => rfl⟩
  · exact ⟨[], by simp, fun db => rfl⟩
  · cases cUser.stockObj with
    | none => exact ⟨[], by simp, fun db => rfl⟩
    | some st =>
      dsimp only
      cases getUserStock cUser.usTree st with
      | none => exact ⟨[], by simp, fun db => rfl⟩
      | some us => exact ⟨[_], by simp [Cmd.insertTran, Stmt.userID], fun db => rfl⟩

theorem blind_setBuyAmount (stk amt : CStr) :
    Blind c.userID s fun s => some (Command.setBuyAmount w s c cUser stk amt) := by
  unfold Blind Command.setBuyAmount
  cases toStockID stk with
  | none => exact ⟨[], by simp, fun db => rfl⟩
  | some st =>
    simp only [Server.lenq_withDb, Server.findStock_withDb, Server.mem_withDb, Option.map_some]
    cases ((s.lenq (c.logLine stk spc amt)).findStock st).mem.getTrigger c.userID st .b with
    | none =>
      split_ifs
      · exact ⟨[], by simp, fun db => rfl⟩
      · exact ⟨[], by simp, fun db => rfl⟩
      · exact ⟨[], by simp, fun db => rfl⟩
      · exact ⟨[_], by simp [Stmt.userID], fun db => rfl⟩
    | some t =>
      refine ⟨[], by simp, fun db => ?_⟩
      split_ifs <;> rfl

theorem blind_cancelSetBuy (stk : CStr) : Blind c.userID s fun s => Command.cancelSetBuy w s c cUser stk := by
  unfold Blind Command.cancelSetBuy
  cases toStockID stk with
  | none => exact ⟨[], by simp, fun db => rfl⟩
  | some st =>
    simp only [Server.lenq_withDb, Server.findStock_withDb, Server.mem_withDb]
    set s₁ := (s.lenq (c.logLine stk spc spc)).findStock st
    cases s₁.mem.getTrigger c.userID st .b with
    | none => exact ⟨[], by simp, fun db => rfl⟩
    | some t =>
      cases htr : s₁.mem.obj t with
      | none => exact ⟨[], by simp, fun db => by simp [htr]⟩
      | some tr =>
        simp only [htr, Option.bind_some, Server.setUser_withDb, Server.mem_withDb, Server.mem_setUser]
        cases s₁.mem.removeTrigger t with
        | none => exact ⟨[], by simp, fun db => rfl⟩
        | some r => exact ⟨[_], by simp [Stmt.userID], fun db => rfl⟩

theorem blind_setTrigger (type : TType) (stk amt : CStr) :
    Blind c.userID s fun s => some (Command.setTrigger w s c type stk amt) := by
  unfold Blind Command.setTrigger
  cases toStockID stk with
  | none => exact ⟨[], by simp, fun db => rfl⟩
  | some st =>
    simp only [Server.lenq_withDb, Server.findStock_withDb, Server.mem_withDb, Option.map_some]
    cases ((s.lenq (c.logLine stk spc amt)).findStock st).mem.getTrigger c.userID st type with
    | none =>
      refine ⟨[], by simp, fun db => ?_⟩
      split_ifs <;> rfl
    | some t =>
      split_ifs
      · exact ⟨[], by simp, fun db => rfl⟩
      · exact ⟨[_], by simp [Stmt.userID], fun db => rfl⟩

theorem blind_setSellAmount (stk amt : CStr) :
    Blind c.userID s fun s => some (Command.setSellAmount w s c cUser stk amt) := by
  unfold Blind Command.setSellAmount
  cases toStockID stk with
  | none => exact ⟨[], by simp, fun db => rfl⟩
  | some st =>
    simp only [Server.lenq_withDb, Server.findStock_withDb, Server.mem_withDb, Option.map_some]
    split_ifs
    · exact ⟨[], by simp, fun db => rfl⟩
    · exact ⟨[], by simp, fun db => rfl⟩
    · exact ⟨[], by simp, fun db => rfl⟩
    · exact ⟨[], by simp, fun db => rfl⟩
    · exact ⟨[_], by simp [Stmt.userID], fun db => rfl⟩

theorem blind_cancelSetSell (stk : CStr) : Blind c.userID s fun s => Command.cancelSetSell s c stk := by
  unfold Blind Command.cancelSetSell
  cases toStockID stk with
  | none => exact ⟨[], by simp, fun db => rfl⟩
  | some st =>
    simp only [Server.lenq_withDb, Server.findStock_withDb, Server.mem_withDb]
    set s₁ := (s.lenq (c.logLine stk spc spc)).findStock st
    cases s₁.mem.getTrigger c.userID st .s with
    | none => exact ⟨[], by simp, fun db => rfl⟩
    | some t =>
      dsimp only
      cases s₁.mem.removeTrigger t with
      | none => exact ⟨[], by simp, fun db => rfl⟩
      | some r => exact ⟨[[.deleteTrig c.userID st .s]], by simp [Stmt.userID], fun db => rfl⟩

theorem blind_dumplog (file : CStr) : Blind c.userID s fun s => some (Command.dumplog s c file) := by
  refine ⟨[], by simp, fun db => ?_⟩
  simp only [Command.dumplog, Option.map_some]
  split_ifs <;> rfl

/-- No command reads the tables. -/
theorem blind_dispatch (comm : List CStr) : Blind c.userID s fun s => Command.dispatch w s c cUser comm := by
  have hrefused : Blind c.userID s fun s => some (s, Reply.badcmd) := ⟨[], by simp, fun db => rfl⟩
  unfold Command.dispatch
  split
  · split_ifs
    · exact blind_commitBuy
    · exact blind_cancelOrder 1
    · exact blind_commitSell
    · exact blind_cancelOrder (-1)
    · exact ⟨[], by simp, fun db => rfl⟩
    · exact hrefused
  · split_ifs
    · exact blind_add _
    · exact blind_quote _
    · exact blind_cancelSetBuy _
    · exact blind_cancelSetSell _
    · exact blind_dumplog _
    · exact hrefused
  · split_ifs
    · exact blind_buy _ _
    · exact blind_sell _ _
    · exact blind_setBuyAmount _ _
    · exact blind_setTrigger .b _ _
    · exact blind_setSellAmount _ _
    · exact blind_setTrigger .s _ _
    · exact hrefused
  · exact ⟨[], by simp, fun db => rfl⟩

end Commands

section Firing
variable {w : ℤ → ℤ} {s : Server} {t : TrigID} {tr : Trigger} {cUser : User} {p now : ℤ}

theorem blind_consume {f : Server → Server} (hf : ∀ db, f (s.withDb db) = (f s).withDb db) {req : List Stmt}
    (hreq : ∀ st ∈ req, st.userID = tr.userObj) :
    Blind tr.userObj s fun s => ((f s).consume t tr req).map fun s' => (s', ()) := by
  unfold Blind Server.consume
  simp only [hf, Server.mem_withDb]
  cases (f s).mem.removeTrigger t with
  | none => exact ⟨[], by simp, fun db => rfl⟩
  | some r =>
    refine ⟨[req ++ [.deleteTrig tr.userObj tr.stockObj tr.type]], ?_, fun db => rfl⟩
    simp only [List.forall_mem_singleton, List.forall_mem_append]
    exact ⟨hreq, rfl⟩

theorem blind_fireBuy :
    Blind tr.userObj s fun s => (Sweep.fireBuy w s t tr cUser p now).map fun s' => (s', ()) := by
  unfold Sweep.fireBuy
  dsimp only
  split_ifs
  · exact ⟨[], by simp, fun db => rfl⟩
  · refine blind_consume (f := fun s => ((s.lenq _).settle _ _).setUser _ _) (fun db => rfl) ?_
    have hstk : (takeStock w tr.userObj cUser.usTree tr.stockObj (tr.amount.tdiv p)).2.userID =
        tr.userObj := by
      unfold takeStock
      split <;> rfl
    simp only [List.forall_mem_singleton, List.forall_mem_cons]
    exact ⟨hstk, rfl, rfl⟩

theorem blind_fireSell :
    Blind tr.userObj s fun s => (Sweep.fireSell w s t tr cUser p now).map fun s' => (s', ()) := by
  unfold Sweep.fireSell
  dsimp only
  cases getUserStock cUser.usTree tr.stockObj with
  | none => exact ⟨[], by simp, fun db => rfl⟩
  | some us =>
    dsimp only
    split
    · exact ⟨[], by simp, fun db => rfl⟩
    · refine blind_consume (f := fun s => ((s.lenq _).settle _ _).setUser _ _) (fun db => rfl) ?_
      simp [Stmt.userID]

/-- No firing reads the tables. -/
theorem blind_examine (htr : s.mem.obj t = some tr) (husr : s.user tr.userObj = some cUser) :
    Blind tr.userObj s fun s => (Sweep.examine w s t p now).map fun s' => (s', ()) := by
  have hkept : Blind tr.userObj s fun s => some (s, ()) := ⟨[], by simp, fun db => rfl⟩
  unfold Blind Sweep.examine
  simp only [Server.mem_withDb, Server.user_withDb, htr, husr, Option.bind_some]
  cases tr.type with
  | b =>
    dsimp only
    split_ifs
    · exact blind_fireBuy
    · exact hkept
  | s =>
    dsimp only
    split_ifs
    · exact blind_fireSell
    · exact hkept

end Firing

/-- The step is the loading of a user. -/
def Event.loads : Event → Bool
  | .connect _ => true
  | _ => false

/-- A step that loads no user hands over requests about a loaded user, and over any other tables it is the
    same, with the requests run on these. -/
theorem step_withDb {w : ℤ → ℤ} {s s' : Server} {e : Event} (he : e.loads = false)
    (h : step w s e = some s') :
    ∃ reqs : List (List Stmt), (∀ req ∈ reqs, ∀ st ∈ req, (s.user st.userID).isSome) ∧
      s'.db = s.db.runs reqs ∧ ∀ db, step w (s.withDb db) e = some (s'.withDb (db.runs reqs)) := by
  have hloaded : ∀ {u : UserID} {usr : User} {reqs : List (List Stmt)}, s.user u = some usr →
      (∀ req ∈ reqs, ∀ st ∈ req, st.userID = u) →
      ∀ req ∈ reqs, ∀ st ∈ req, (s.user st.userID).isSome := by
    intro u usr reqs husr hu req hreq st hst
    rw [hu req hreq st hst, husr]
    rfl
  cases e with
  | connect u => cases he
  | command c commStr =>
    obtain ⟨r, hr, rfl⟩ := Option.map_eq_some_iff.mp h
    obtain ⟨cUser, husr, hr⟩ := Option.bind_eq_some_iff.mp hr
    obtain ⟨reqs, hu, hdb, hall⟩ := (blind_dispatch (delimSepNoCpy commStr ',')).spec hr
    refine ⟨reqs, hloaded husr hu, hdb, fun db => ?_⟩
    rw [step, commandHandler, Server.user_withDb, husr, Option.bind_some, hall db]
    rfl
  | quote st q =>
    cases h
    exact ⟨[], by simp, rfl, fun db => rfl⟩
  | examine t p now =>
    simp only [step] at h
    split_ifs at h with hguard
    obtain ⟨tr, htr, hrest⟩ := Option.bind_eq_some_iff.mp h
    obtain ⟨cUser, husr, -⟩ := Option.bind_eq_some_iff.mp hrest
    obtain ⟨reqs, hu, hdb, hall⟩ := (blind_examine htr husr).spec (Option.map_eq_some_iff.mpr ⟨s', h, rfl⟩)
    refine ⟨reqs, hloaded husr hu, hdb, fun db => ?_⟩
    obtain ⟨s₁, hs₁, heq⟩ := Option.map_eq_some_iff.mp (hall db)
    have hstep : step w (s.withDb db) (.examine t p now) = Sweep.examine w (s.withDb db) t p now := if_pos hguard
    rw [hstep, hs₁, (Prod.mk.inj heq).1]

end TradeC
