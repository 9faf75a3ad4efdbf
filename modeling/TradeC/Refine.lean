import TradeC.Book
import Mathlib.Tactic.Tauto

/-! Each step of the server is a move of its books.

    `Server.WF` is what every run keeps without any condition: the trees are well formed, a trigger
    belongs to a loaded user and to a listed stock, and the tables have rows of loaded users only, so
    that a user that is loaded has none yet. -/

namespace TradeC

def LogLine.acc : LogLine → Option (UserID × CStr × CStr)
  | .accTrans _ _ action userID funds => some (userID, action, funds)
  | _ => none

def User.account (usr : User) : Account :=
  ⟨usr.balance, usr.stockObj, usr.reserve, usr.no, usr.buysell,
    fun st => (getUserStock usr.usTree st).map UserStock.num⟩

def Stmt.userID : Stmt → UserID
  | .insertAcct u _ => u
  | .updateBal _ u => u
  | .insertStk u _ _ => u
  | .updateStk _ u _ => u
  | .insertTran u _ _ _ _ _ => u
  | .insertTrig u _ _ _ _ _ => u
  | .updateTrig _ u _ _ => u
  | .deleteTrig u _ _ => u

@[simp] theorem Account.takeStmt_userID (a : Account) (u : UserID) (st : StockID) (n : ℤ) :
    (a.takeStmt u st n).userID = u := by
  unfold Account.takeStmt
  split <;> rfl

/-! ### Rows of loaded users -/

structure Db.RowsOf (db : Db) (P : UserID → Prop) : Prop where
  accounts : ∀ r ∈ db.accounts, P r.1
  stocks : ∀ r ∈ db.stocks, P r.userID
  triggers : ∀ r ∈ db.triggers, P r.userID

namespace Db
variable {P : UserID → Prop} {db db' : Db}

theorem RowsOf.mono {Q : UserID → Prop} (h : db.RowsOf P) (hPQ : ∀ u, P u → Q u) : db.RowsOf Q :=
  ⟨fun r hr => hPQ _ (h.accounts r hr), fun r hr => hPQ _ (h.stocks r hr),
    fun r hr => hPQ _ (h.triggers r hr)⟩

theorem RowsOf.exec (h : db.RowsOf P) {st : Stmt} (hu : P st.userID) (hst : db.exec st = some db') :
    db'.RowsOf P := by
  cases st with
  | insertAcct u bal =>
    obtain ⟨x, _, rfl⟩ := Option.map_eq_some_iff.mp hst
    split_ifs with hany
    · exact h
    · refine ⟨fun r hr => ?_, h.stocks, h.triggers⟩
      rcases List.mem_append.mp hr with hr | hr
      · exact h.accounts r hr
      · rw [List.mem_singleton.mp hr]
        exact hu
  | updateBal bal u =>
    obtain ⟨x, _, rfl⟩ := Option.map_eq_some_iff.mp hst
    refine ⟨fun r hr => ?_, h.stocks, h.triggers⟩
    obtain ⟨r₀, hr₀, rfl⟩ := List.mem_map.mp hr
    split_ifs with hk
    · exact hu
    · exact h.accounts r₀ hr₀
  | insertStk u st n =>
    cases hst
    refine ⟨h.accounts, fun r hr => ?_, h.triggers⟩
    rcases List.mem_append.mp hr with hr | hr
    · exact h.stocks r hr
    · rw [List.mem_singleton.mp hr]
      exact hu
  | updateStk n u st =>
    cases hst
    refine ⟨h.accounts, fun r hr => ?_, h.triggers⟩
    obtain ⟨r₀, hr₀, rfl⟩ := List.mem_map.mp hr
    split_ifs with hk
    · exact h.stocks r₀ hr₀
    · exact h.stocks r₀ hr₀
  | insertTran u tid st adj ts c =>
    obtain ⟨x, _, rfl⟩ := Option.map_eq_some_iff.mp hst
    exact h
  | insertTrig u tid st ty funds value =>
    obtain ⟨f, _, hst⟩ := Option.bind_eq_some_iff.mp hst
    obtain ⟨v, _, rfl⟩ := Option.map_eq_some_iff.mp hst
    refine ⟨h.accounts, h.stocks, fun r hr => ?_⟩
    rcases List.mem_append.mp hr with hr | hr
    · exact h.triggers r hr
    · rw [List.mem_singleton.mp hr]
      exact hu
  | updateTrig value u st ty =>
    obtain ⟨v, _, rfl⟩ := Option.map_eq_some_iff.mp hst
    refine ⟨h.accounts, h.stocks, fun r hr => ?_⟩
    obtain ⟨r₀, hr₀, rfl⟩ := List.mem_map.mp hr
    split_ifs with hk
    · exact h.triggers r₀ hr₀
    · exact h.triggers r₀ hr₀
  | deleteTrig u st ty =>
    cases hst
    exact ⟨h.accounts, h.stocks, fun r hr => h.triggers r (List.mem_filter.mp hr).1⟩

theorem foldlM_rowsOf : ∀ (req : List Stmt) {db db' : Db}, db.RowsOf P →
    (∀ st ∈ req, P st.userID) → req.foldlM Db.exec db = some db' → db'.RowsOf P := by
  intro req
  induction req with
  | nil =>
    intro db db' h _ hrun
    cases hrun
    exact h
  | cons st req ih =>
    intro db db' h hu hrun
    rw [List.foldlM_cons] at hrun
    obtain ⟨db₁, hst, hrun⟩ := Option.bind_eq_some_iff.mp hrun
    exact ih (h.exec (hu st List.mem_cons_self) hst)
      (fun st' h' => hu st' (List.mem_cons_of_mem st h')) hrun

theorem RowsOf.run (h : db.RowsOf P) {req : List Stmt} (hu : ∀ st ∈ req, P st.userID) :
    (db.run req).RowsOf P := by
  unfold Db.run
  cases hrun : req.foldlM Db.exec db with
  | none => exact h
  | some db' => exact foldlM_rowsOf req h hu hrun

end Db

/-! ### The invariant of every run -/

namespace Server

def accTrans (s : Server) : List (UserID × CStr × CStr) := s.logs.filterMap LogLine.acc

def book (s : Server) : Book := ⟨fun u => (s.user u).map User.account, s.mem.obj⟩

theorem accTrans_of_logs {s s' : Server} {line : LogLine} {x : UserID × CStr × CStr}
    (h : s'.logs = s.logs ++ [line]) (hacc : line.acc = some x) :
    s'.accTrans = s.accTrans ++ [x] := by
  simp [accTrans, h, hacc]

@[simp] theorem accTrans_lenq (s : Server) (line : LogLine) :
    (s.lenq line).accTrans = s.accTrans ++ line.acc.toList := by
  cases h : line.acc <;> simp [accTrans, lenq, h]

@[simp] theorem accTrans_dbenq (s : Server) (req : List Stmt) :
    (s.dbenq req).accTrans = s.accTrans := rfl

@[simp] theorem accTrans_settle (s : Server) (u : UserID) (x : Settlement) :
    (s.settle u x).accTrans = s.accTrans := rfl

@[simp] theorem accTrans_setUser (s : Server) (u : UserID) (usr : User) :
    (s.setUser u usr).accTrans = s.accTrans := rfl

@[simp] theorem accTrans_mem (s : Server) (m : Mem) : { s with mem := m }.accTrans = s.accTrans :=
  rfl

theorem acct_book {s : Server} {u : UserID} {usr : User} (h : s.user u = some usr) :
    s.book.acct u = some usr.account := by
  simp [book, h]

structure WF (s : Server) : Prop where
  mem : s.mem.WF
  us : ∀ {u usr}, s.user u = some usr → Trie.WF STOCK_CHARS usr.usTree
  owner : ∀ {t tr}, s.mem.obj t = some tr → (s.user tr.userObj).isSome
  listed : ∀ {t tr}, s.mem.obj t = some tr → tr.stockObj ∈ s.stocks
  nodup : s.stocks.Nodup
  rows : s.db.RowsOf fun u => (s.user u).isSome

theorem wf_init : WF init where
  mem := Mem.wf_init
  us h := by simp [init] at h
  owner h := by simp [init, Mem.init] at h
  listed h := by simp [init, Mem.init] at h
  nodup := List.nodup_nil
  rows := ⟨by simp [init, Db.init], by simp [init, Db.init], by simp [init, Db.init]⟩

/-- `s'` differs from `s` at most in command lines of the log, stocks and quotes. -/
structure Quiet (s s' : Server) : Prop where
  user : s'.user = s.user
  mem : s'.mem = s.mem
  accTrans : s'.accTrans = s.accTrans
  settled : s'.settled = s.settled
  db : s'.db = s.db
  stocks : s.stocks ⊆ s'.stocks
  nodup : s.stocks.Nodup → s'.stocks.Nodup
  requests : s'.requests = s.requests

variable {s s' s₁ : Server}

theorem Quiet.refl (s : Server) : Quiet s s := ⟨rfl, rfl, rfl, rfl, rfl, fun _ h => h, id, rfl⟩

theorem Quiet.trans (h : Quiet s s₁) (h' : Quiet s₁ s') : Quiet s s' :=
  ⟨h'.user.trans h.user, h'.mem.trans h.mem, h'.accTrans.trans h.accTrans,
    h'.settled.trans h.settled, h'.db.trans h.db, fun _ hx => h'.stocks (h.stocks hx),
    fun hn => h'.nodup (h.nodup hn), h'.requests.trans h.requests⟩

theorem Quiet.book (h : Quiet s s') : s'.book = s.book := by
  simp only [Server.book, h.user, h.mem]

theorem Quiet.wf (h : Quiet s s') (hw : s.WF) : s'.WF where
  mem := h.mem ▸ hw.mem
  us hu := hw.us (h.user ▸ hu)
  owner ht := by
    rw [h.user]
    exact hw.owner (h.mem ▸ ht)
  listed ht := h.stocks (hw.listed (h.mem ▸ ht))
  nodup := h.nodup hw.nodup
  rows := by
    rw [h.db, h.user]
    exact hw.rows

theorem quiet_lenq {line : LogLine} (hl : line.acc = none) : Quiet s (s.lenq line) :=
  ⟨rfl, rfl, by simp [hl], rfl, rfl, fun _ h => h, id, rfl⟩

theorem quiet_logLine (c : Cmd) (stockID file funds : CStr) :
    Quiet s (s.lenq (c.logLine stockID file funds)) := quiet_lenq rfl

theorem quiet_findStock (st : StockID) : Quiet s (s.findStock st) := by
  unfold findStock
  split_ifs with hmem
  · exact Quiet.refl s
  · refine ⟨rfl, rfl, rfl, rfl, rfl, List.subset_append_left _ _, fun hn => ?_, rfl⟩
    exact List.nodup_append.mpr ⟨hn, List.nodup_singleton st, fun a ha b hb => by
      rw [List.mem_singleton.mp hb]
      rintro rfl
      exact hmem ha⟩

theorem mem_findStock (s : Server) (st : StockID) : st ∈ (s.findStock st).stocks := by
  unfold findStock
  split_ifs with hmem
  · exact hmem
  · simp

theorem quiet_setQuote (st : StockID) (q : Quote) : Quiet s (s.setQuote st q) :=
  ⟨rfl, rfl, rfl, rfl, rfl, fun _ h => h, id, rfl⟩

theorem quiet_freshQuote (c : Cmd) (st : StockID) : Quiet s (s.freshQuote c st) := by
  unfold freshQuote
  split_ifs
  · exact quiet_setQuote st c.quote
  · exact Quiet.refl s

@[simp] theorem user_lenq (s : Server) (line : LogLine) : (s.lenq line).user = s.user := rfl

@[simp] theorem user_dbenq (s : Server) (req : List Stmt) : (s.dbenq req).user = s.user := rfl

@[simp] theorem user_settle (s : Server) (u : UserID) (x : Settlement) :
    (s.settle u x).user = s.user := rfl

@[simp] theorem user_setUser (s : Server) (u : UserID) (usr : User) :
    (s.setUser u usr).user = Function.update s.user u (some usr) := rfl

@[simp] theorem user_findStock (s : Server) (st : StockID) : (s.findStock st).user = s.user :=
  (quiet_findStock st).user

@[simp] theorem user_freshQuote (s : Server) (c : Cmd) (st : StockID) :
    (s.freshQuote c st).user = s.user := (quiet_freshQuote c st).user

end Server

/-! ### The parts of a step -/

/-- The trigger fires at the price. -/
def Server.fires (s : Server) (t : TrigID) (quotePrice : ℤ) : Bool :=
  (s.mem.obj t).any fun tr =>
    match tr.type with
    | .b => quotePrice < tr.trig && tr.amount.tdiv quotePrice ≠ 0
    | .s => tr.trig < quotePrice && tr.trig ≠ 0 && (s.user tr.userObj).any fun usr =>
      (getUserStock usr.usTree tr.stockObj).any fun uso => uso.num ≠ 0

/-- What a step does to the memory of the triggers. -/
inductive MemMove (s : Server) (e : Event) : Mem → Prop
  | same : MemMove s e s.mem
  | add (u tid st ty amount) : MemMove s e (s.mem.addTrigger u tid st ty amount 0).1
  | priced (t prc) : MemMove s e (Command.setTrig s.mem t prc)
  | fired {t p now r} (he : e = .examine t p now) (hf : s.fires t p)
      (h : s.mem.removeTrigger t = some r) : MemMove s e r.1
  | cancelled {c name stk st ty t r} (he : e.Is c name [stk])
      (hname : name = match ty with | .b => "CANCEL_SET_BUY" | .s => "CANCEL_SET_SELL")
      (hst : toStockID stk = some st) (hget : s.mem.getTrigger c.userID st ty = some t)
      (h : s.mem.removeTrigger t = some r) : MemMove s e r.1

/-- The requests that are queued for some statements: one, if there are any. -/
def queued : List Stmt → List (List Stmt)
  | [] => []
  | st :: req => [st :: req]

/-- A step of the server as a move of its books. -/
structure Steps (s : Server) (e : Event) (s' : Server) : Prop where
  wf : s'.WF
  mem : MemMove s e s'.mem
  move : ∃ out, Move s.mem.getTrigger s.book e out s'.book ∧ s'.accTrans = s.accTrans ++ out.logs ∧
    s'.settled = s.settled ++ out.settled ∧ s'.db = s.db.run out.request ∧
    s'.requests = s.requests ++ queued out.request

section Parts
variable {s s' s₁ : Server} {e : Event}

theorem Steps.of_quiet (h : s.Quiet s') (hw : s.WF) : Steps s e s' where
  wf := h.wf hw
  mem := h.mem ▸ .same
  move := ⟨.none, h.book ▸ .idle, by simp [Output.none, h.accTrans],
    by simp [Output.none, h.settled], by simp [Output.none, Db.run, h.db],
    by simp [Output.none, queued, h.requests]⟩

theorem MemMove.of_quiet {m : Mem} (h : s.Quiet s₁) (hm : MemMove s₁ e m) : MemMove s e m := by
  have hfires : ∀ t p, s₁.fires t p = s.fires t p := fun t p => by
    simp only [Server.fires, h.user, h.mem]
  cases hm with
  | same => exact h.mem ▸ .same
  | add u tid st ty amount => exact h.mem ▸ .add u tid st ty amount
  | priced t prc => exact h.mem ▸ .priced t prc
  | fired he hf hrem => exact .fired he (hfires _ _ ▸ hf) (h.mem ▸ hrem)
  | cancelled he hname hst hget hrem =>
    exact .cancelled he hname hst (h.mem ▸ hget) (h.mem ▸ hrem)

/-- What a quiet part before the rest of a step leaves to be shown. -/
theorem Steps.after (h : s.Quiet s₁) (hs : Steps s₁ e s') : Steps s e s' where
  wf := hs.wf
  mem := hs.mem.of_quiet h
  move := by
    obtain ⟨out, hm, hl, hset, hdb, hreq⟩ := hs.move
    rw [h.mem, h.book] at hm
    exact ⟨out, hm, by rw [hl, h.accTrans], by rw [hset, h.settled], by rw [hdb, h.db],
      by rw [hreq, h.requests]⟩

/-- A step that writes the record of a user and, it may be, the triggers. -/
theorem Steps.of_update (hw : s.WF) {u : UserID} {usr' : User} {a' : Account}
    {obj' : TrigID → Option Trigger} {out : Output}
    (hmove : Move s.mem.getTrigger s.book e out
      ⟨Function.update s.book.acct u (some a'), obj'⟩)
    (hacct : usr'.account = a') (hobj' : s'.mem.obj = obj')
    (hmm : MemMove s e s'.mem) (hu : s'.user = Function.update s.user u (some usr'))
    (hus : Trie.WF STOCK_CHARS usr'.usTree) (hmem : s'.mem.WF)
    (hobj : ∀ {t tr}, obj' t = some tr →
      (s.user tr.userObj).isSome ∧ tr.stockObj ∈ s.stocks)
    (hstocks : s'.stocks = s.stocks) (hreq : ∀ st ∈ out.request, st.userID = u)
    (hlogs : s'.accTrans = s.accTrans ++ out.logs) (hset : s'.settled = s.settled ++ out.settled)
    (hdb : s'.db = s.db.run out.request) (hqueue : s'.requests = s.requests ++ queued out.request) :
    Steps s e s' := by
  subst hacct hobj'
  have hsome : ∀ {u'}, (s.user u').isSome → (s'.user u').isSome := by
    intro u' h
    by_cases hk : u' = u
    · subst hk
      simp [hu]
    · simpa [hu, hk] using h
  have hbook : s'.book = ⟨Function.update s.book.acct u (some usr'.account), s'.mem.obj⟩ := by
    simp only [Server.book, hu, Book.mk.injEq, and_true]
    funext u'
    by_cases hk : u' = u
    · subst hk
      simp
    · simp [hk]
  refine ⟨⟨hmem, ?_, fun ht => hsome (hobj ht).1, fun ht => hstocks ▸ (hobj ht).2,
    hstocks ▸ hw.nodup, ?_⟩, hmm, out, hbook ▸ hmove, hlogs, hset, hdb, hqueue⟩
  · intro u' usr₁ h
    by_cases hk : u' = u
    · subst hk
      simp only [hu, Function.update_self, Option.some.injEq] at h
      exact h ▸ hus
    · exact hw.us (by simpa [hu, hk] using h)
  · rw [hdb]
    refine (hw.rows.mono fun _ => hsome).run fun st hst => ?_
    rw [hreq st hst]
    simp [hu]

end Parts
end TradeC
