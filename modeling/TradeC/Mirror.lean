import TradeC.Money
import TradeC.Priced
import TradeC.Stored
import TradeC.Lib.Table
import TradeC.Trigger.Coherence

/-! The tables mirror the memory.

    A balance is written as `price2str` renders it, a share count as a number; both are read back as
    they were. The amounts of SET_BUY_AMOUNT, SET_SELL_AMOUNT and of the triggers' prices are written
    as the client sent them, and `str2price` and the database do not read every text alike: 12.5 is
    1205 cents to the one and 12.50 to the other. -/

namespace TradeC
open Run Decimal Table

/-- The client's texts that the event writes as they are: the ones of SET_*_AMOUNT and SET_*_TRIGGER
    denote the cents that `str2price` reads, and the one of ADD is a number. -/
def RawTexts (_ : Server) : Event → Bool
  | .command c comm =>
    match delimSepNoCpy comm ',' with
    | [a] => c.userCmd ≠ "ADD".toList || str2price id a = -1 || (numeric a).isSome
    | [_, a] =>
      c.userCmd ∉ ["SET_BUY_AMOUNT".toList, "SET_BUY_TRIGGER".toList, "SET_SELL_AMOUNT".toList,
        "SET_SELL_TRIGGER".toList] || str2price id a = -1 || numeric a = some (str2price id a)
    | _ => true
  | _ => true

/-- A trigger that is removed clears its own slots in the tree. -/
def RemovalClears (s : Server) : Event → Bool
  | .examine t quotePrice _ => !s.fires t quotePrice || s.mem.clearsOwn t
  | .command c comm =>
    match delimSepNoCpy comm ',' with
    | [a] =>
      (toStockID a).all fun st =>
        (c.userCmd ≠ "CANCEL_SET_BUY".toList ||
          (s.mem.getTrigger c.userID st .b).all fun t => s.mem.clearsOwn t) &&
        (c.userCmd ≠ "CANCEL_SET_SELL".toList ||
          (s.mem.getTrigger c.userID st .s).all fun t => s.mem.clearsOwn t)
    | _ => true
  | _ => true

/-! ### The triggers keep their keys -/

theorem indexed_priced {m : Mem} (hi : m.Indexed) (t : TrigID) (prc : ℤ) :
    (Command.setTrig m t prc).Indexed := by
  cases htr : m.obj t with
  | none =>
    have hsame : Command.setTrig m t prc = m := by
      simp only [Command.setTrig, htr, Option.map_none]
      rw [← htr, Function.update_eq_self]
    rw [hsame]
    exact hi
  | some tr =>
    obtain ⟨hw, hobj⟩ := wf_setTrig hi.toWF htr prc
    refine ⟨hw, fun {t' tr'} h => ?_, hi.depth⟩
    rw [hobj] at h
    by_cases ht : t' = t
    · subst ht
      simp only [Function.update_self, Option.some.injEq] at h
      have hent := hi.entered htr
      rw [← h]
      exact hent
    · exact hi.entered (by simpa [ht] using h)

theorem MemMove.indexed {s : Server} {e : Event} {m : Mem} (h : MemMove s e m)
    (hi : s.mem.Indexed) (hok : RemovalClears s e) : m.Indexed := by
  cases h with
  | same => exact hi
  | add u tid st ty amount => exact Mem.indexed_add hi u tid st ty amount 0
  | priced t prc => exact indexed_priced hi t prc
  | @fired t p now r he hf hrem =>
    subst he
    have hclears : s.mem.clearsOwn t := by simpa [RemovalClears, hf] using hok
    exact Mem.indexed_remove hi hclears (by simp [Mem.step, hrem])
  | @cancelled c name stk st ty t r he hname hst hget hrem =>
    obtain ⟨comm, rfl, hcmd, hcomm⟩ := he
    have hclears : s.mem.clearsOwn t := by
      subst hname
      simp only [RemovalClears, hcomm, hst, Option.all_some, Bool.and_eq_true] at hok
      cases ty with
      | b => simpa [hcmd, hget] using hok.1
      | s => simpa [hcmd, hget] using hok.2
    exact Mem.indexed_remove hi hclears (by simp [Mem.step, hrem])

theorem Mem.Indexed.finds {m : Mem} (hi : m.Indexed) {t : TrigID} {tr : Trigger}
    (h : m.obj t = some tr) : m.getTrigger tr.userObj tr.stockObj tr.type = some t := by
  rw [hi.getTrigger_eq, ← hi.key h]
  exact hi.entered h

/-! ### One statement -/

namespace Db
variable (db : Db)

def setBalance (u : UserID) (x : ℤ) : Db :=
  { db with accounts := db.accounts.map fun r => if r.1 = u then (u, x) else r }

def setStock (u : UserID) (st : StockID) (n : ℤ) : Db :=
  { db with stocks := db.stocks.map fun r =>
      if r.userID = u ∧ r.stockID = st then { r with amount := n } else r }

def addStock (u : UserID) (st : StockID) (n : ℤ) : Db :=
  { db with stocks := db.stocks ++ [⟨u, st, n⟩] }

def addTrig (row : TrigRow) : Db := { db with triggers := db.triggers ++ [row] }

def setTrigValue (u : UserID) (st : StockID) (ty : TType) (v : ℤ) : Db :=
  { db with triggers := db.triggers.map fun r =>
      if r.userID = u ∧ r.stockID = st ∧ r.type = ty then { r with triggerValue := v } else r }

def deleteTrig (u : UserID) (st : StockID) (ty : TType) : Db :=
  { db with triggers := db.triggers.filter fun r =>
      ¬ (r.userID = u ∧ r.stockID = st ∧ r.type = ty) }

variable {db}

theorem exec_updateBal {bal : CStr} {x : ℤ} (h : numeric bal = some x) (u : UserID) :
    db.exec (.updateBal bal u) = some (db.setBalance u x) := by
  simp only [exec, h, Option.map_some]
  rfl

theorem exec_insertTran {adj : CStr} (h : (numeric adj).isSome) (u : UserID) (tid st : CStr) (ts : ℤ)
    (c : Char) : db.exec (.insertTran u tid st adj ts c) = some db := by
  obtain ⟨x, hx⟩ := Option.isSome_iff_exists.mp h
  simp only [exec, hx, Option.map_some]

theorem exec_insertTrig {funds value : CStr} {f v : ℤ} (hf : numeric funds = some f)
    (hv : numeric value = some v) (u : UserID) (tid : CStr) (st : StockID) (ty : TType) :
    db.exec (.insertTrig u tid st ty funds value) = some (db.addTrig ⟨u, tid, st, ty, f, v⟩) := by
  simp only [exec, hf, hv, Option.bind_some, Option.map_some]
  rfl

theorem exec_updateTrig {value : CStr} {v : ℤ} (hv : numeric value = some v) (u : UserID)
    (st : StockID) (ty : TType) :
    db.exec (.updateTrig value u st ty) = some (db.setTrigValue u st ty v) := by
  simp only [exec, hv, Option.map_some]
  rfl

theorem exec_takeStmt {a : Account} (u : UserID) (st : StockID) (n : ℤ) :
    db.exec (a.takeStmt u st n) = some (match a.hold st with
      | none => db.addStock u st n
      | some k => db.setStock u st (k + n)) := by
  unfold Account.takeStmt
  cases a.hold st <;> rfl

theorem run_of_foldlM {db' : Db} {req : List Stmt} (h : req.foldlM exec db = some db') :
    db.run req = db' := by
  rw [run, h, Option.getD_some]

end Db

/-! ### Rows and memory -/

def TrigRow.key (r : TrigRow) : UserID × StockID × TType := (r.userID, r.stockID, r.type)

def TrigRow.val (r : TrigRow) : ℤ × ℤ := (r.reservedFunds, r.triggerValue)

def Trigger.key (tr : Trigger) : UserID × StockID × TType := (tr.userObj, tr.stockObj, tr.type)

def Trigger.val (tr : Trigger) : ℤ × ℤ := (tr.amount, tr.trig)

/-- The tables show the books. -/
structure Mirrors (db : Db) (b : Book) : Prop where
  accounts : Shows Prod.fst Prod.snd db.accounts fun u x => ∃ a, b.acct u = some a ∧ a.balance = x
  stocks : Shows (fun r => (r.userID, r.stockID)) StkRow.amount db.stocks fun k n =>
    ∃ a, b.acct k.1 = some a ∧ a.hold k.2 = some n
  triggers : Shows TrigRow.key TrigRow.val db.triggers fun k v =>
    ∃ t tr, b.trig t = some tr ∧ tr.key = k ∧ tr.val = v

/-- Run on the tables, the statements all succeed, and the tables then show the books. -/
def Takes (db : Db) (req : List Stmt) (b : Book) : Prop :=
  ∃ db', req.foldlM Db.exec db = some db' ∧ Mirrors db' b

theorem Takes.run {db : Db} {req : List Stmt} {b : Book} (h : Takes db req b) :
    Mirrors (db.run req) b := by
  obtain ⟨db', hrun, hm⟩ := h
  exact Db.run_of_foldlM hrun ▸ hm

theorem Mirrors.takes_nil {db : Db} {b : Book} (h : Mirrors db b) : Takes db [] b := ⟨db, rfl, h⟩

theorem Takes.cons {db db₁ : Db} {st : Stmt} {req : List Stmt} {b : Book}
    (hst : db.exec st = some db₁) (h : Takes db₁ req b) : Takes db (st :: req) b := by
  obtain ⟨db', hrun, hm⟩ := h
  refine ⟨db', ?_, hm⟩
  rw [List.foldlM_cons, hst]
  exact hrun

theorem Book.setAcct_setAcct (b : Book) (u : UserID) (a a' : Account) :
    (b.setAcct u a).setAcct u a' = b.setAcct u a' := by
  simp [Book.setAcct]

theorem Book.acct_setAcct (b : Book) (u u' : UserID) (a : Account) :
    (b.setAcct u a).acct u' = if u' = u then some a else b.acct u' := by
  simp [Book.setAcct, Function.update_apply]

theorem Book.acct_setAcct_self (b : Book) (u : UserID) (a : Account) :
    (b.setAcct u a).acct u = some a := by
  simp [Book.setAcct]

theorem Book.trig_setTrig (b : Book) (t t' : TrigID) (tr : Option Trigger) :
    (b.setTrig t tr).trig t' = if t' = t then tr else b.trig t' := by
  simp [Book.setTrig, Function.update_apply]

theorem Book.exists_setTrig (b : Book) (t : TrigID) (tr? : Option Trigger) (P : Trigger → Prop) :
    (∃ t' tr', (b.setTrig t tr?).trig t' = some tr' ∧ P tr') ↔
      (∃ tr', tr? = some tr' ∧ P tr') ∨ ∃ t' tr', t' ≠ t ∧ b.trig t' = some tr' ∧ P tr' := by
  constructor
  · rintro ⟨t', tr', htr, hP⟩
    rw [Book.trig_setTrig] at htr
    split_ifs at htr with ht
    · exact .inl ⟨tr', htr, hP⟩
    · exact .inr ⟨t', tr', ht, htr, hP⟩
  · rintro (⟨tr', htr, hP⟩ | ⟨t', tr', ht, htr, hP⟩)
    · exact ⟨t, tr', by rw [Book.trig_setTrig, if_pos rfl, htr], hP⟩
    · exact ⟨t', tr', by rw [Book.trig_setTrig, if_neg ht, htr], hP⟩

section Rows
variable {db : Db} {b : Book} (h : Mirrors db b)
include h

/-- A change of an account that leaves its holdings alone. -/
theorem Mirrors.stocks_setAcct {u : UserID} {a a' : Account} (ha : b.acct u = some a)
    (hhold : a'.hold = a.hold) : Shows (fun r => (r.userID, r.stockID)) StkRow.amount db.stocks
      fun k n => ∃ a, (b.setAcct u a').acct k.1 = some a ∧ a.hold k.2 = some n := by
  refine h.stocks.congr fun k n => ?_
  rw [Book.acct_setAcct]
  split_ifs with hk
  · simp [hk, ha, hhold]
  · rfl

/-- A change of an account that leaves its balance alone. -/
theorem Mirrors.accounts_setAcct {u : UserID} {a a' : Account} (ha : b.acct u = some a)
    (hbal : a'.balance = a.balance) : Shows Prod.fst Prod.snd db.accounts
      fun u' x => ∃ a, (b.setAcct u a').acct u' = some a ∧ a.balance = x := by
  refine h.accounts.congr fun k n => ?_
  rw [Book.acct_setAcct]
  split_ifs with hk
  · simp [hk, ha, hbal]
  · rfl

theorem Mirrors.setAcct {u : UserID} {a : Account} (ha : b.acct u = some a) (a' : Account)
    (hbal : a'.balance = a.balance) (hhold : a'.hold = a.hold) : Mirrors db (b.setAcct u a') :=
  ⟨h.accounts_setAcct ha hbal, h.stocks_setAcct ha hhold, h.triggers⟩

theorem Mirrors.takes_opened {u : UserID} (hu : b.acct u = none) :
    Takes db [.insertAcct u "0.00".toList] (b.setAcct u .new) := by
  have hzero : numeric "0.00".toList = some 0 := by decide
  have hany : db.accounts.any (fun r => decide (r.1 = u)) = false := by
    rw [List.any_eq_false]
    intro r hr hru
    obtain ⟨a, ha, _⟩ := (h.accounts.iff r.1 r.2).mp ⟨r, hr, rfl, rfl⟩
    rw [decide_eq_true_eq] at hru
    exact absurd (hru ▸ ha) (by simp [hu])
  have hrun : [Stmt.insertAcct u "0.00".toList].foldlM Db.exec db =
      some { db with accounts := db.accounts ++ [(u, 0)] } := by
    simp only [List.foldlM_cons, List.foldlM_nil, Db.exec, hzero, Option.map_some, hany]
    rfl
  refine ⟨_, hrun, (h.accounts.append (u, 0) (by simp [hu])).congr fun k x => ?_, h.stocks.congr fun k n => ?_, h.triggers⟩
  · rw [Book.acct_setAcct]
    by_cases hk : k = u
    · simp [hk, hu, Account.new, eq_comm]
    · simp [hk]
  · rw [Book.acct_setAcct]
    by_cases hk : k.1 = u
    · simp [hk, hu, Account.new]
    · simp [hk]

theorem Mirrors.setBalance {u : UserID} {a : Account} (ha : b.acct u = some a) (a' : Account)
    (hhold : a'.hold = a.hold) : Mirrors (db.setBalance u a'.balance) (b.setAcct u a') := by
  refine ⟨?_, h.stocks_setAcct ha hhold, h.triggers⟩
  refine (h.accounts.update u (fun _ => a'.balance) (fun r => ?_) (fun r hr => ?_)
    fun r hr => ?_).congr fun k x => ?_
  · split_ifs with hr
    · exact hr.symm
    · rfl
  · rw [if_pos hr]
  · rw [if_neg hr]
  · rw [Book.acct_setAcct]
    by_cases hk : k = u
    · simp [hk, ha, eq_comm]
    · simp [hk]

theorem Mirrors.setStock {u : UserID} {a : Account} (ha : b.acct u = some a) {st : StockID} {k : ℤ}
    (hk : a.hold st = some k) (n : ℤ) :
    Mirrors (db.setStock u st n) (b.setAcct u (a.setHold st n)) := by
  refine ⟨h.accounts_setAcct ha rfl, ?_, h.triggers⟩
  refine (h.stocks.update (u, st) (fun _ => n) (fun r => ?_) (fun r hr => ?_)
    fun r hr => ?_).congr fun k' x => ?_
  · split_ifs <;> rfl
  · rw [if_pos (Prod.mk.inj hr)]
  · rw [if_neg fun hk => hr (Prod.ext hk.1 hk.2)]
  · obtain ⟨u', st'⟩ := k'
    rw [Book.acct_setAcct]
    by_cases hu : u' = u
    · subst hu
      by_cases hst : st' = st
      · simp [hst, ha, hk, Account.setHold, eq_comm]
      · simp [hst, ha, Account.setHold]
    · simp [hu]

theorem Mirrors.addStock {u : UserID} {a : Account} (ha : b.acct u = some a) {st : StockID}
    (hk : a.hold st = none) (n : ℤ) :
    Mirrors (db.addStock u st n) (b.setAcct u (a.setHold st n)) := by
  refine ⟨h.accounts_setAcct ha rfl, ?_, h.triggers⟩
  refine (h.stocks.append ⟨u, st, n⟩ (by simp [ha, hk])).congr fun k' x => ?_
  obtain ⟨u', st'⟩ := k'
  rw [Book.acct_setAcct]
  by_cases hu : u' = u
  · subst hu
    by_cases hst : st' = st
    · simp [hst, ha, hk, Account.setHold, eq_comm]
    · simp [hst, ha, Account.setHold]
  · simp [hu]

theorem Mirrors.takeStock {u : UserID} {a : Account} (ha : b.acct u = some a) (st : StockID) (n : ℤ) :
    ∃ db', db.exec (a.takeStmt u st n) = some db' ∧
      Mirrors db' (b.setAcct u (a.setHold st (a.shares st + n))) := by
  refine ⟨_, Db.exec_takeStmt u st n, ?_⟩
  unfold Account.shares
  cases hk : a.hold st with
  | none =>
    rw [Option.getD_none, zero_add]
    exact h.addStock ha hk n
  | some k => exact h.setStock ha hk (k + n)

theorem Mirrors.addTrig {t : TrigID} (ht : b.trig t = none) (tr : Trigger)
    (hnew : ∀ {t' tr'}, b.trig t' = some tr' → tr'.key ≠ tr.key) (tid : CStr) :
    Mirrors (db.addTrig ⟨tr.userObj, tid, tr.stockObj, tr.type, tr.amount, tr.trig⟩)
      (b.setTrig t (some tr)) := by
  refine ⟨h.accounts, h.stocks, (h.triggers.append _ fun v ⟨_, _, htr', hk, _⟩ =>
    hnew htr' hk).congr fun k v => ?_⟩
  rw [Book.exists_setTrig]
  constructor
  · rintro (⟨t', tr', htr, hk, hv⟩ | ⟨rfl, rfl⟩)
    · refine .inr ⟨t', tr', ?_, htr, hk, hv⟩
      rintro rfl
      exact absurd (ht.symm.trans htr) (by simp)
    · exact .inl ⟨tr, rfl, rfl, rfl⟩
  · rintro (⟨tr', htr, hk, hv⟩ | ⟨t', tr', _, htr, hk, hv⟩)
    · obtain rfl := Option.some.inj htr
      exact .inr ⟨hk.symm, hv.symm⟩
    · exact .inl ⟨t', tr', htr, hk, hv⟩

section Unique
variable {t : TrigID} {tr : Trigger} (htr : b.trig t = some tr)
  (hunique : ∀ {t' tr'}, b.trig t' = some tr' → tr'.key = tr.key → t' = t)
include htr hunique

theorem Mirrors.deleteTrig :
    Mirrors (db.deleteTrig tr.userObj tr.stockObj tr.type) (b.setTrig t none) := by
  refine ⟨h.accounts, h.stocks, (h.triggers.delete tr.key fun r => ?_).congr fun k v => ?_⟩
  · simp only [decide_eq_true_eq, TrigRow.key, Trigger.key, ne_eq, Prod.mk.injEq]
  · rw [Book.exists_setTrig]
    constructor
    · rintro ⟨hne, t', tr', htr', rfl, hv⟩
      refine .inr ⟨t', tr', ?_, htr', rfl, hv⟩
      rintro rfl
      exact hne (by rw [Option.some.inj (htr'.symm.trans htr)])
    · rintro (⟨_, hnone, _⟩ | ⟨t', tr', hne, htr', rfl, hv⟩)
      · exact absurd hnone (by simp)
      · exact ⟨fun hk => hne (hunique htr' hk), t', tr', htr', rfl, hv⟩

theorem Mirrors.setTrigValue (x : ℤ) :
    Mirrors (db.setTrigValue tr.userObj tr.stockObj tr.type x)
      (b.setTrig t (some { tr with trig := x })) := by
  refine ⟨h.accounts, h.stocks, ?_⟩
  refine (h.triggers.update tr.key (fun v => (v.1, x)) (fun r => ?_) (fun r hr => ?_)
    fun r hr => ?_).congr fun k v => ?_
  · split_ifs <;> rfl
  · obtain ⟨hu, hst, hty⟩ : r.userID = tr.userObj ∧ r.stockID = tr.stockObj ∧ r.type = tr.type := by
      simpa [TrigRow.key, Trigger.key] using hr
    rw [if_pos ⟨hu, hst, hty⟩]
    rfl
  · rw [if_neg fun hk => hr (by simp [TrigRow.key, Trigger.key, hk])]
  · rw [Book.exists_setTrig]
    constructor
    · rintro (⟨hne, t', tr', htr', rfl, hv⟩ | ⟨rfl, _, ⟨t', tr', htr', hk, rfl⟩, rfl⟩)
      · refine .inr ⟨t', tr', ?_, htr', rfl, hv⟩
        rintro rfl
        exact hne (by rw [Option.some.inj (htr'.symm.trans htr)])
      · obtain rfl := hunique htr' hk
        obtain rfl := Option.some.inj (htr'.symm.trans htr)
        exact .inl ⟨_, rfl, rfl, rfl⟩
    · rintro (⟨tr', htr', rfl, rfl⟩ | ⟨t', tr', hne, htr', rfl, hv⟩)
      · obtain rfl := Option.some.inj htr'
        exact .inr ⟨rfl, tr.val, ⟨t, tr, htr, rfl, rfl⟩, rfl⟩
      · exact .inl ⟨fun hk => hne (hunique htr' hk), t', tr', htr', rfl, hv⟩

end Unique

end Rows
/-! ### One move -/

/-- `RawTexts`, for a text that is written as it is. -/
theorem RawTexts.set {s : Server} {e : Event} (h : RawTexts s e) {c : Cmd} {name : String}
    {stk amt : CStr} (he : e.Is c name [stk, amt]) (hname : name ∈ ["SET_BUY_AMOUNT",
      "SET_BUY_TRIGGER", "SET_SELL_AMOUNT", "SET_SELL_TRIGGER"]) (hprc : str2price id amt ≠ -1) :
    numeric amt = some (str2price id amt) := by
  obtain ⟨comm, rfl, hcmd, hcomm⟩ := he
  have hin : c.userCmd ∈ ["SET_BUY_AMOUNT".toList, "SET_BUY_TRIGGER".toList,
      "SET_SELL_AMOUNT".toList, "SET_SELL_TRIGGER".toList] := by
    rw [hcmd]
    exact List.mem_map_of_mem (f := String.toList) hname
  simp only [RawTexts, hcomm, hin, not_true_eq_false, decide_false, Bool.false_or, hprc,
    decide_eq_true_eq] at h
  exact h

theorem RawTexts.add {s : Server} {e : Event} (h : RawTexts s e) {c : Cmd} {amt : CStr}
    (he : e.Is c "ADD" [amt]) (hprc : str2price id amt ≠ -1) : (numeric amt).isSome := by
  obtain ⟨comm, rfl, hcmd, hcomm⟩ := he
  simpa [RawTexts, hcomm, hcmd, hprc] using h

section Move
variable {find : UserID → StockID → TType → Option TrigID} {b b' : Book} {e : Event} {out : Output}

theorem Move.takes (h : Move find b e out b') {db : Db} (hm : Mirrors db b) {s : Server}
    (htexts : RawTexts s e) (hb : b.Priced) (hb' : b'.Priced) (hok : b.SalesCovered e)
    (hfinds : ∀ {t tr}, b.trig t = some tr → find tr.userObj tr.stockObj tr.type = some t) :
    Takes db out.request b' := by
  have hunique : ∀ {t t' tr tr'}, b.trig t = some tr → b.trig t' = some tr' → tr'.key = tr.key →
      t' = t := fun h h' hk => by
    obtain ⟨hu, hst, hty⟩ : _ ∧ _ ∧ _ := by simpa [Trigger.key] using hk
    have h₁ := hfinds h'
    rw [hu, hst, hty, hfinds h] at h₁
    exact (Option.some.inj h₁).symm
  have hnew : ∀ {u st ty}, find u st ty = none → ∀ {t' tr'}, b.trig t' = some tr' →
      tr'.key ≠ (u, st, ty) := fun hfind _ _ h' hk => by
    obtain ⟨rfl, rfl, rfl⟩ : _ ∧ _ ∧ _ := by simpa [Trigger.key] using hk
    exact absurd ((hfinds h').symm.trans hfind) (by simp)
  cases h with
  | idle => exact hm.takes_nil
  | opened _ hu => exact hm.takes_opened hu
  | @added c amt a he ha hprc =>
    have hpos := (hb'.acct (Book.acct_setAcct_self b _ _)).funded
    have hm₁ := hm.setBalance ha { a with balance := a.balance + str2price id amt } rfl
    exact Takes.cons (Db.exec_updateBal (numeric_price2str hpos) _)
      (.cons (Db.exec_insertTran (RawTexts.add htexts he hprc) _ _ _ _ _) hm₁.takes_nil)
  | orderedBuy _ ha _ _ _ _ _ => exact Mirrors.takes_nil (hm.setAcct ha _ rfl rfl)
  | orderedSell _ ha _ _ _ _ _ => exact Mirrors.takes_nil (hm.setAcct ha _ rfl rfl)
  | cleared ha => exact Mirrors.takes_nil (hm.setAcct ha _ rfl rfl)
  | @bought c a st he ha hside hst =>
    have hpos := (hb'.acct (Book.acct_setAcct_self b _ _)).funded
    have hreserve := numeric_price2str ((hb.acct ha).reserve hside)
    obtain ⟨db₁, htake, hm₁⟩ := hm.takeStock ha st a.no
    have hm₂ := hm₁.setBalance (Book.acct_setAcct_self b _ _)
      ({ a with balance := a.balance - a.reserve }.setHold st (a.shares st + a.no)).clear rfl
    rw [Book.setAcct_setAcct] at hm₂
    exact Takes.cons htake (.cons (Db.exec_updateBal (numeric_price2str hpos) _)
      (.cons (Db.exec_insertTran (by simp [hreserve]) _ _ _ _ _) hm₂.takes_nil))
  | @sold c a st n he ha hside hst hn =>
    have hpos := (hb'.acct (Book.acct_setAcct_self b _ _)).funded
    have hreserve := numeric_price2str (hok.sold he ha hside)
    have hm₁ := hm.setBalance ha { a with balance := a.balance + a.reserve } rfl
    have hm₂ := hm₁.setStock (Book.acct_setAcct_self b _ _) hn (n - a.no)
    have hm₃ := hm₂.setAcct (Book.acct_setAcct_self _ _ _)
      ({ a with balance := a.balance + a.reserve }.setHold st (n - a.no)).clear rfl rfl
    rw [Book.setAcct_setAcct, Book.setAcct_setAcct] at hm₃
    exact Takes.cons (Db.exec_updateBal (numeric_price2str hpos) _) (.cons rfl
      (.cons (Db.exec_insertTran (by simp [hreserve]) _ _ _ _ _) hm₃.takes_nil))
  | @setBuy c stk amt a st t path he ha hprc hidle hbal hfind ht =>
    have hpos := (hb'.acct (Book.acct_setAcct_self b _ _)).funded
    have hamt := RawTexts.set htexts he (by simp) hprc
    have hzero : numeric "0.00".toList = some 0 := by decide
    have hm₁ := hm.setBalance ha { a with balance := a.balance - str2price id amt } rfl
    have hm₂ := hm₁.addTrig (t := t) ht ⟨.b, 0, str2price id amt, c.transID, path, c.userID, st⟩
      (hnew hfind) c.transID
    exact Takes.cons (Db.exec_updateBal (numeric_price2str hpos) _)
      (.cons (Db.exec_insertTrig hamt hzero _ _ _ _) hm₂.takes_nil)
  | @setSell c stk amt a st t path he ha hprc hidle hhold hfind ht =>
    have hamt := RawTexts.set htexts he (by simp) hprc
    have hzero : numeric "0.00".toList = some 0 := by decide
    have hm₁ := hm.addTrig ht ⟨.s, 0, str2price id amt, c.transID, path, c.userID, st⟩
      (hnew hfind) c.transID
    exact Takes.cons (Db.exec_insertTrig hamt hzero _ _ _ _) hm₁.takes_nil
  | @priced c name stk amt t tr he hname hprc hfind ht hu =>
    have hin : name ∈ ["SET_BUY_AMOUNT", "SET_BUY_TRIGGER", "SET_SELL_AMOUNT",
        "SET_SELL_TRIGGER"] := by
      rw [hname]
      cases tr.type <;> simp
    have hm₁ := hm.setTrigValue ht (fun h' hk => hunique ht h' hk) (str2price id amt)
    rw [← hu]
    exact Takes.cons (Db.exec_updateTrig (RawTexts.set htexts he hin hprc) _ _ _) hm₁.takes_nil
  | @refunded c stk a t tr he ha hfind ht hu hty =>
    have hpos := (hb'.acct (Book.acct_setAcct_self b _ _)).funded
    have hm₁ := hm.setBalance ha { a with balance := a.balance + tr.amount } rfl
    have hm₂ := hm₁.deleteTrig ht fun h' hk => hunique ht h' hk
    rw [hu, hty] at hm₂
    exact Takes.cons (Db.exec_updateBal (numeric_price2str hpos) _) (.cons rfl hm₂.takes_nil)
  | @withdrawn c stk t tr he hfind ht hu hty =>
    have hm₁ := hm.deleteTrig ht fun h' hk => hunique ht h' hk
    rw [hu, hty] at hm₁
    exact Takes.cons rfl hm₁.takes_nil
  | @firedBuy t p now tr a he ht ha hty hp hpt hno =>
    have hpos := (hb'.acct (Book.acct_setAcct_self b _ _)).funded
    have hcost : 0 ≤ p * tr.amount.tdiv p :=
      mul_nonneg (le_trans zero_le_one hp) (Int.tdiv_nonneg (hb.trig ht) (le_trans zero_le_one hp))
    obtain ⟨db₁, htake, hm₁⟩ := hm.takeStock ha tr.stockObj (tr.amount.tdiv p)
    have hm₂ := hm₁.setBalance (Book.acct_setAcct_self b _ _)
      ({ a with balance := a.balance + tr.amount - p * tr.amount.tdiv p }.setHold tr.stockObj
        (a.shares tr.stockObj + tr.amount.tdiv p)) rfl
    rw [Book.setAcct_setAcct] at hm₂
    have hm₃ := hm₂.deleteTrig ht fun h' hk => hunique ht h' hk
    exact Takes.cons htake (.cons (Db.exec_updateBal (numeric_price2str hpos) _)
      (.cons (Db.exec_insertTran (by simp [numeric_price2str hcost]) _ _ _ _ _)
        (.cons rfl hm₃.takes_nil)))
  | @firedSell t p now tr a n he ht ha hty hp hpt ht0 hn hn0 =>
    have hpos := (hb'.acct (Book.acct_setAcct_self b _ _)).funded
    have hsale := mul_nonneg (le_trans zero_le_one hp)
      (sellNo_nonneg (hok.fired he ht ha hty hpt ht0 hn hn0) (hb.trig ht) hp)
    have hm₁ := hm.setStock ha hn (n - sellNo n tr.amount p)
    have hm₂ := hm₁.setBalance (Book.acct_setAcct_self b _ _)
      ({ a with balance := a.balance + p * sellNo n tr.amount p }.setHold tr.stockObj
        (n - sellNo n tr.amount p)) rfl
    rw [Book.setAcct_setAcct] at hm₂
    have hm₃ := hm₂.deleteTrig ht fun h' hk => hunique ht h' hk
    exact Takes.cons rfl (.cons (Db.exec_updateBal (numeric_price2str hpos) _)
      (.cons (Db.exec_insertTran (by simp [numeric_price2str hsale]) _ _ _ _ _)
        (.cons rfl hm₃.takes_nil)))

end Move

/-! ### What is read back -/

/-- The user's rows, loaded back as `addUser` loads them, give the balance, the holdings and the
    triggers. -/
structure Server.Reloads (w : ℤ → ℤ) (s : Server) (u : UserID) (usr : User) : Prop where
  balance : s.db.loadBalance w u = usr.balance
  stocks : ((s.db.loadStocks u).map Prod.fst).Nodup
  stock_iff : ∀ st n, (st, n) ∈ s.db.loadStocks u ↔
    (getUserStock usr.usTree st).map UserStock.num = some n
  triggers : ((s.db.loadTriggers w u).map fun r => (r.2.1, r.2.2.1)).Nodup
  trigger_iff : ∀ st ty amount trig,
    (∃ transID, (transID, st, ty, amount, trig) ∈ s.db.loadTriggers w u) ↔
      ∃ t ∈ s.mem.linked st, ∃ tr, s.mem.obj t = some tr ∧ tr.userObj = u ∧ tr.type = ty ∧
        tr.amount = amount ∧ tr.trig = trig

/-- The database mirrors the memory. -/
def Server.Mirrored (w : ℤ → ℤ) (s : Server) : Prop :=
  ∀ u usr, s.user u = some usr → s.Reloads w u usr

/-- The invariant of the mirror. -/
structure Server.Kept (s : Server) : Prop where
  wf : s.WF
  indexed : s.mem.Indexed
  priced : s.book.Priced
  stored : s.Stored wrap64
  mirrors : Mirrors s.db s.book

theorem text_read {x : ℤ} (hx : 0 ≤ x) (hw : wrap64 x = x) : str2price wrap64 (Db.text x) = x := by
  rw [Db.text, if_neg (not_lt.mpr hx), str2price_wrap64 hx hw]

namespace Server.Kept
variable {s : Server} (hs : s.Kept)
include hs

theorem loadBalance {u : UserID} {usr : User} (hu : s.user u = some usr) :
    s.db.loadBalance wrap64 u = usr.balance := by
  have ha := Server.acct_book hu
  obtain ⟨r, hr, hval⟩ := hs.mirrors.accounts.find? ⟨_, ha, rfl⟩
  simp only [Db.loadBalance, hr, hval]
  exact text_read (hs.priced.acct ha).funded (hs.stored.balance hu)

theorem mem_loadStocks {u : UserID} {usr : User} (hu : s.user u = some usr) (st : StockID) (n : ℤ) :
    (st, n) ∈ s.db.loadStocks u ↔ (getUserStock usr.usTree st).map UserStock.num = some n := by
  have ha := Server.acct_book hu
  have hiff := hs.mirrors.stocks.iff (u, st) n
  simp only [ha, Option.some.injEq, exists_eq_left'] at hiff
  rw [Db.loadStocks, List.mem_map]
  refine Iff.trans ?_ hiff
  simp only [List.mem_filter, decide_eq_true_eq, Prod.mk.injEq]
  constructor
  · rintro ⟨r, ⟨hr, hu'⟩, hst, hn⟩
    exact ⟨r, hr, ⟨hu', hst⟩, hn⟩
  · rintro ⟨r, hr, ⟨hu', hst⟩, hn⟩
    exact ⟨r, ⟨hr, hu'⟩, hst, hn⟩

/-- The texts of a row are read back as its values. -/
theorem row_read {r : TrigRow} (hr : r ∈ s.db.triggers) :
    str2price wrap64 (Db.text r.reservedFunds) = r.reservedFunds ∧
      str2price wrap64 (Db.text r.triggerValue) = r.triggerValue := by
  obtain ⟨t, tr, htr, _, hval⟩ := (hs.mirrors.triggers.iff r.key r.val).mp ⟨r, hr, rfl, rfl⟩
  obtain ⟨hamount, htrig⟩ := Prod.mk.inj hval
  have hst := hs.stored.trigger htr
  rw [← hamount, ← htrig]
  exact ⟨text_read (hs.priced.trig htr) hst.1, text_read (hs.priced.price htr) hst.2⟩

theorem mem_loadTriggers {u : UserID} (st : StockID) (ty : TType) (amount trig : ℤ) :
    (∃ transID, (transID, st, ty, amount, trig) ∈ s.db.loadTriggers wrap64 u) ↔
      ∃ t ∈ s.mem.linked st, ∃ tr, s.mem.obj t = some tr ∧ tr.userObj = u ∧ tr.type = ty ∧
        tr.amount = amount ∧ tr.trig = trig := by
  have hiff := hs.mirrors.triggers.iff (u, st, ty) (amount, trig)
  have hload : (∃ transID, (transID, st, ty, amount, trig) ∈ s.db.loadTriggers wrap64 u) ↔
      ∃ r ∈ s.db.triggers, r.key = (u, st, ty) ∧ r.val = (amount, trig) := by
    simp only [Db.loadTriggers, List.mem_map, List.mem_filter, decide_eq_true_eq, Prod.mk.injEq,
      TrigRow.key, TrigRow.val]
    constructor
    · rintro ⟨tid, r, ⟨hr, hu⟩, _, hst, hty, hamount, htrig⟩
      obtain ⟨h₁, h₂⟩ := hs.row_read hr
      exact ⟨r, hr, ⟨hu, hst, hty⟩, h₁.symm.trans hamount, h₂.symm.trans htrig⟩
    · rintro ⟨r, hr, ⟨hu, hst, hty⟩, hamount, htrig⟩
      obtain ⟨h₁, h₂⟩ := hs.row_read hr
      exact ⟨r.transID, r, ⟨hr, hu⟩, rfl, hst, hty, h₁.trans hamount, h₂.trans htrig⟩
  rw [hload, hiff]
  simp only [Trigger.key, Trigger.val, Prod.mk.injEq]
  constructor
  · rintro ⟨t, tr, htr, ⟨hu, hst, hty⟩, hamount, htrig⟩
    exact ⟨t, hs.wf.mem.mem_linked.mpr ⟨tr, htr, hst⟩, tr, htr, hu, hty, hamount, htrig⟩
  · rintro ⟨t, ht, tr, htr, hu, hty, hamount, htrig⟩
    obtain ⟨tr', htr', hst⟩ := hs.wf.mem.mem_linked.mp ht
    obtain rfl := Option.some.inj (htr.symm.trans htr')
    exact ⟨t, tr, htr, ⟨hu, hst, hty⟩, hamount, htrig⟩

theorem reloads {u : UserID} {usr : User} (hu : s.user u = some usr) : s.Reloads wrap64 u usr where
  balance := hs.loadBalance hu
  stocks := by
    rw [Db.loadStocks, List.map_map]
    exact hs.mirrors.stocks.nodup_part fun r r' h h' heq =>
      Prod.ext ((of_decide_eq_true h).trans (of_decide_eq_true h').symm) heq
  stock_iff := hs.mem_loadStocks hu
  triggers := by
    rw [Db.loadTriggers, List.map_map]
    exact hs.mirrors.triggers.nodup_part fun r r' h h' heq =>
      Prod.ext ((of_decide_eq_true h).trans (of_decide_eq_true h').symm) heq
  trigger_iff := hs.mem_loadTriggers

end Server.Kept

theorem kept_init : Server.init.Kept where
  wf := Server.wf_init
  indexed := Mem.indexed_init
  priced := priced_init
  stored := stored_init
  mirrors :=
    ⟨shows_nil (by simp [Server.init, Server.book]), shows_nil (by simp [Server.init, Server.book]),
      shows_nil (by simp [Server.init, Server.book, Mem.init])⟩

/-- A step as a move of the books, whose request the tables take. -/
theorem step_takes {s s' : Server} {e : Event} (hs : s.Kept) (hread : ReadAmounts s e)
    (htexts : RawTexts s e) (hok : SalesCovered s e) (hclears : RemovalClears s e)
    (hfits : Fits wrap64 s e) (h : step wrap64 s e = some s') : s'.Kept ∧
      ∃ out, Move s.mem.getTrigger s.book e out s'.book ∧ Takes s.db out.request s'.book ∧
        s'.db = s.db.run out.request ∧ s'.requests = s.requests ++ queued out.request := by
  have hstored := step_stored (by decide) (fun _ => Int.bmod_bmod) hs.wf hs.stored h
  rw [step_fits hs.wf hfits] at h
  obtain ⟨hw', hmem, out, hmove, _, _, hdb, hreq⟩ := step_steps hs.wf h
  have hpriced := hmove.priced_of hs.priced hread (SalesCovered.book hok)
  have htakes := hmove.takes hs.mirrors htexts hs.priced hpriced (SalesCovered.book hok) hs.indexed.finds
  refine ⟨⟨hw', hmem.indexed hs.indexed hclears, hpriced, hstored, ?_⟩, out, hmove, htakes, hdb, hreq⟩
  rw [hdb]
  exact htakes.run

theorem step_kept {s s' : Server} {e : Event} (hs : s.Kept) (hread : ReadAmounts s e)
    (htexts : RawTexts s e) (hok : SalesCovered s e) (hclears : RemovalClears s e)
    (hfits : Fits wrap64 s e) (h : step wrap64 s e = some s') : s'.Kept :=
  (step_takes hs hread htexts hok hclears hfits h).1

end TradeC
