import TradeC.Refusal
import TradeC.System
import TradeC.Message
import TradeC.Lib.Sql

/-! The values in the requests to the database, and which of them clients choose.

    A client's text reaches the templates as a user ID, which `validUserID` has seen, as a stock ID, which
    `validStockID` has seen, as an amount, which `str2price` has read, and as a Trans_ID, which nothing has
    looked at. What goes wrong with a bad value is what the text of the request then says. -/

namespace TradeC
open Decimal

/-! ### The queries and their values -/

/-- Digits, after a sign or none. -/
def intLit : CStr → Bool
  | '-' :: s => s ≠ [] && s.all Char.isDigit
  | s => s ≠ [] && s.all Char.isDigit

/-- What a value is in the tables. -/
inductive Column where
  | userID
  | stockID
  | transID
  | integer
  | money
  | letter

/-- One literal of the column's type. The stock of an ADD is the code's own "...". -/
def Column.Literal : Column → CStr → Prop
  | .userID, v => v ≠ [] ∧ v.all isAlnum
  | .stockID, v => v = "...".toList ∨ v ≠ [] ∧ v.all isAlnum
  | .transID, v => intLit v
  | .integer, v => intLit v
  | .money, v => (numeric v).isSome
  | .letter, v => v.length = 1 ∧ v.all isAlnum

/-- The values of a statement, in the order of its template. -/
def Stmt.values : Stmt → List (Column × CStr)
  | .insertAcct u bal => [(.userID, u.str), (.money, bal), (.userID, u.str)]
  | .updateBal bal u => [(.money, bal), (.userID, u.str)]
  | .insertStk u st n => [(.userID, u.str), (.stockID, st.str), (.integer, ld n)]
  | .updateStk n u st => [(.integer, ld n), (.userID, u.str), (.stockID, st.str)]
  | .insertTran u tid st adj ts c => [(.userID, u.str), (.transID, tid), (.stockID, st), (.money, adj),
      (.integer, ld ts), (.letter, [c])]
  | .insertTrig u tid st ty funds value => [(.userID, u.str), (.transID, tid), (.stockID, st.str),
      (.letter, [ty.char]), (.money, funds), (.money, value)]
  | .updateTrig value u st ty => [(.money, value), (.userID, u.str), (.stockID, st.str), (.letter, [ty.char])]
  | .deleteTrig u st ty => [(.userID, u.str), (.stockID, st.str), (.letter, [ty.char])]

inductive Template where
  | insertAcct
  | updateBal
  | insertStk
  | updateStk
  | insertTran
  | insertTrig
  | updateTrig
  | deleteTrig
  | selectUserTrig
  | selectUserStock
  | selectUserBal
  deriving DecidableEq

def Stmt.template : Stmt → Template
  | .insertAcct .. => .insertAcct
  | .updateBal .. => .updateBal
  | .insertStk .. => .insertStk
  | .updateStk .. => .updateStk
  | .insertTran .. => .insertTran
  | .insertTrig .. => .insertTrig
  | .updateTrig .. => .updateTrig
  | .deleteTrig .. => .deleteTrig

/-- The statements of `dbWrites`, and those of `dbReads`, which `addUser` sends. -/
inductive Query where
  | write (st : Stmt)
  | selectUserTrig (userID : UserID)
  | selectUserStock (userID : UserID)
  | selectUserBal (userID : UserID)

namespace Query

def template : Query → Template
  | .write st => st.template
  | .selectUserTrig _ => .selectUserTrig
  | .selectUserStock _ => .selectUserStock
  | .selectUserBal _ => .selectUserBal

def values : Query → List (Column × CStr)
  | .write st => st.values
  | .selectUserTrig u | .selectUserStock u | .selectUserBal u => [(.userID, u.str)]

def pieces : Query → List Piece
  | .write st => st.pieces
  | .selectUserTrig u => [.lit "SELECT * FROM triggers WHERE User_ID = '", .quoted u.str, .lit "';"]
  | .selectUserStock u => [.lit "SELECT * FROM stocks WHERE User_ID = '", .quoted u.str, .lit "';"]
  | .selectUserBal u => [.lit "SELECT balance FROM accounts WHERE User_ID = '", .quoted u.str, .lit "';"]

def text (q : Query) : CStr := q.pieces.flatMap Piece.text

end Query

def Piece.value : Piece → Option CStr
  | .lit _ => none
  | .quoted v | .bare v => some v

theorem Query.values_pieces (q : Query) : q.pieces.filterMap Piece.value = q.values.map Prod.snd := by
  cases q with
  | write st => cases st <;> rfl
  | selectUserTrig u => rfl
  | selectUserStock u => rfl
  | selectUserBal u => rfl

/-! ### Literals in a text -/

theorem clean_of_all {v : CStr} {ok : Char → Bool} (h : v.all ok) (hquote : ok Sql.quote = false)
    (hend : ok ';' = false) : Sql.Clean v := by
  intro c hc
  have hok := List.all_eq_true.mp h c hc
  constructor
  · rintro rfl
    rw [hquote] at hok
    cases hok
  · rintro rfl
    rw [hend] at hok
    cases hok

theorem clean_intLit {v : CStr} (h : intLit v = true) : Sql.Clean v := by
  unfold intLit at h
  split at h
  · rw [Bool.and_eq_true] at h
    have hdigits := clean_of_all h.2 (by decide) (by decide)
    exact List.forall_mem_cons.mpr ⟨by decide, hdigits⟩
  · rw [Bool.and_eq_true] at h
    exact clean_of_all h.2 (by decide) (by decide)

theorem clean_numeric {v : CStr} (h : (numeric v).isSome) : Sql.Clean v := by
  cases v with
  | nil => exact fun c hc => absurd hc List.not_mem_nil
  | cons a v =>
    obtain ⟨hhead, htail⟩ := Decimal.mem_of_numeric h
    refine List.forall_mem_cons.mpr ⟨?_, fun c hc => ?_⟩
    · rcases hhead with ha | rfl | rfl | rfl
      · exact @clean_of_all [a] Char.isDigit (by simp [ha]) (by decide) (by decide) a (by simp)
      · decide
      · decide
      · decide
    · rcases htail c hc with hd | rfl
      · exact @clean_of_all [c] Char.isDigit (by simp [hd]) (by decide) (by decide) c (by simp)
      · decide

theorem Column.Literal.clean {col : Column} {v : CStr} (h : col.Literal v) : Sql.Clean v := by
  cases col with
  | userID => exact clean_of_all h.2 (by decide) (by decide)
  | stockID =>
    rcases h with rfl | h
    · intro c hc
      obtain rfl : c = '.' := by simpa using hc
      decide
    · exact clean_of_all h.2 (by decide) (by decide)
  | transID => exact clean_intLit h
  | integer => exact clean_intLit h
  | money => exact clean_numeric h
  | letter => exact clean_of_all h.2 (by decide) (by decide)

/-- The pieces of a template: quoted values are inside of a string, bare ones outside, and the last piece ends in
    the only semicolon that is outside. -/
inductive Closes : Bool → List Piece → Prop
  | last {inside : Bool} {s : String} {l : List Char} (hs : s = String.ofList l)
      (hend : l.getLast? = some ';') (hscan : Sql.scan inside l.dropLast = some false) : Closes inside [.lit s]
  | lit {inside mid : Bool} {s : String} {l : List Char} {ps : List Piece} (hs : s = String.ofList l)
      (hscan : Sql.scan inside l = some mid) (rest : Closes mid ps) : Closes inside (.lit s :: ps)
  | quoted {v : CStr} {ps : List Piece} (rest : Closes true ps) : Closes true (.quoted v :: ps)
  | bare {v : CStr} {ps : List Piece} (rest : Closes false ps) : Closes false (.bare v :: ps)

set_option maxRecDepth 2000 in
theorem Query.closes (q : Query) : Closes false q.pieces := by
  cases q with
  | write st =>
    cases st with
    | insertAcct => exact .lit rfl rfl (.quoted (.lit rfl rfl (.bare (.lit rfl rfl (.quoted (.last rfl rfl rfl))))))
    | updateBal => exact .lit rfl rfl (.quoted (.lit rfl rfl (.quoted (.last rfl rfl rfl))))
    | insertStk => exact .lit rfl rfl (.quoted (.lit rfl rfl (.quoted (.lit rfl rfl (.bare (.last rfl rfl rfl))))))
    | updateStk => exact .lit rfl rfl (.bare (.lit rfl rfl (.quoted (.lit rfl rfl (.quoted (.last rfl rfl rfl))))))
    | insertTran => exact .lit rfl rfl (.quoted (.lit rfl rfl (.quoted (.lit rfl rfl (.quoted (.lit rfl rfl
        (.bare (.lit rfl rfl (.bare (.lit rfl rfl (.quoted (.last rfl rfl rfl))))))))))))
    | insertTrig => exact .lit rfl rfl (.quoted (.lit rfl rfl (.quoted (.lit rfl rfl (.quoted (.lit rfl rfl
        (.quoted (.lit rfl rfl (.bare (.lit rfl rfl (.bare (.last rfl rfl rfl))))))))))))
    | updateTrig => exact .lit rfl rfl (.bare (.lit rfl rfl (.quoted (.lit rfl rfl (.quoted (.lit rfl rfl
        (.quoted (.last rfl rfl rfl))))))))
    | deleteTrig => exact .lit rfl rfl (.quoted (.lit rfl rfl (.quoted (.lit rfl rfl (.quoted (.last rfl rfl rfl))))))
  | selectUserTrig u => exact .lit rfl rfl (.quoted (.last rfl rfl rfl))
  | selectUserStock u => exact .lit rfl rfl (.quoted (.last rfl rfl rfl))
  | selectUserBal u => exact .lit rfl rfl (.quoted (.last rfl rfl rfl))

theorem scan_of_closes {inside : Bool} {ps : List Piece} (h : Closes inside ps)
    (hclean : ∀ v ∈ ps.filterMap Piece.value, Sql.Clean v) :
    ∃ body, ps.flatMap Piece.text = body ++ [';'] ∧ Sql.scan inside body = some false := by
  induction h with
  | last hs hend hscan =>
    refine ⟨_, ?_, hscan⟩
    rw [List.flatMap_singleton, Piece.text, hs, String.toList_ofList, List.dropLast_append_getLast? _ hend]
  | @lit _ _ _ l _ hs hscan _ ih =>
    obtain ⟨body, hbody, hrest⟩ := ih hclean
    refine ⟨l ++ body, ?_, ?_⟩
    · rw [List.flatMap_cons, hbody, ← List.append_assoc, Piece.text, hs, String.toList_ofList]
    · rw [Sql.scan_append, hscan]
      exact hrest
  | @quoted v ps _ ih =>
    obtain ⟨body, hbody, hrest⟩ := ih fun v' hv' => hclean v' (List.mem_cons_of_mem v hv')
    refine ⟨v ++ body, ?_, ?_⟩
    · rw [List.flatMap_cons, hbody, ← List.append_assoc, Piece.text]
    · rw [Sql.scan_append, Sql.scan_clean (hclean v List.mem_cons_self)]
      exact hrest
  | @bare v ps _ ih =>
    obtain ⟨body, hbody, hrest⟩ := ih fun v' hv' => hclean v' (List.mem_cons_of_mem v hv')
    refine ⟨v ++ body, ?_, ?_⟩
    · rw [List.flatMap_cons, hbody, ← List.append_assoc, Piece.text]
    · rw [Sql.scan_append, Sql.scan_clean (hclean v List.mem_cons_self)]
      exact hrest

/-- A query with literals only is one statement. -/
theorem Query.statement {q : Query} (h : ∀ v ∈ q.values, v.1.Literal v.2) : Sql.Statement q.text := by
  refine scan_of_closes q.closes fun v hv => ?_
  rw [q.values_pieces] at hv
  obtain ⟨x, hx, rfl⟩ := List.mem_map.mp hv
  exact (h x hx).clean

/-! ### What a message has for the database -/

/-- The requests for a message: those of `addUser` and `connection_handler` where the user is new, and those that
    the command has queued between two states. -/
def handed (new : Bool) (s s' : Server) (userID : UserID) : List (List Query) :=
  (if new then [[.selectUserTrig userID], [.selectUserStock userID], [.selectUserBal userID],
    [.write (.insertAcct userID "0.00".toList)]] else []) ++
  (s'.requests.drop s.requests.length).map fun req => req.map Query.write

/-- The templates of a command: its name and the user's account say which they are. -/
def commandTemplates (s : Server) (userID : UserID) (userCmd : CStr) : List (List Template) :=
  if userCmd = "ADD".toList then [[.updateBal, .insertTran]]
  else if userCmd = "COMMIT_BUY".toList then
    let held := (s.user userID).any fun cUser =>
      cUser.stockObj.any fun st => (getUserStock cUser.usTree st).isSome
    [[if held then .updateStk else .insertStk, .updateBal, .insertTran]]
  else if userCmd = "COMMIT_SELL".toList then [[.updateBal, .updateStk, .insertTran]]
  else if userCmd = "SET_BUY_AMOUNT".toList then [[.updateBal, .insertTrig]]
  else if userCmd = "CANCEL_SET_BUY".toList then [[.updateBal, .deleteTrig]]
  else if userCmd = "SET_BUY_TRIGGER".toList then [[.updateTrig]]
  else if userCmd = "SET_SELL_AMOUNT".toList then [[.insertTrig]]
  else if userCmd = "SET_SELL_TRIGGER".toList then [[.updateTrig]]
  else if userCmd = "CANCEL_SET_SELL".toList then [[.deleteTrig]]
  else []

def templates (new : Bool) (s : Server) (userID : UserID) (userCmd : CStr) : List (List Template) :=
  (if new then [[.selectUserTrig], [.selectUserStock], [.selectUserBal], [.insertAcct]] else []) ++
    commandTemplates s userID userCmd

/-- The requests are the intended ones: the templates of the command, with literals in them, and the text of a
    request comes apart into its statements. -/
structure Intended (new : Bool) (s : Server) (c : Cmd) (s' : Server) : Prop where
  templates : (handed new s s' c.userID).map (fun req => req.map Query.template) =
    templates new s c.userID c.userCmd
  literals : ∀ req ∈ handed new s s' c.userID, ∀ q ∈ req, ∀ v ∈ q.values, v.1.Literal v.2
  statements : ∀ req ∈ handed new s s' c.userID,
    Sql.statements (req.flatMap Query.text) = req.map Query.text

/-- A message that is received, with its command and the fields of that, executed in a state. -/
def executed (b : ConnBuf) (bytes : List Char) (s : Server) (now : ℤ) (quote : Quote) :
    Option (Cmd × List CStr × Server × Reply) :=
  (b.receive bytes).bind fun r =>
    match r.2 with
    | .command transID userCmd userID comm =>
      let c : Cmd := ⟨transID, userCmd, userID, now, quote⟩
      (commandHandler wrap64 s c comm).map fun r => (c, delimSepNoCpy comm ',', r)
    | _ => none

/-! ### The condition -/

/-- `price2str` writes a decimal number for it. -/
def Renders (x : ℤ) : Prop := 0 ≤ x ∨ 100 ∣ x

/-- What is inserted of a message is a number: the Trans_ID, and an amount that is pasted as it is. What is
    computed from it and the account can be rendered. -/
def Sound (w : ℤ → ℤ) (s : Server) (c : Cmd) (cUser : User) : List CStr → Prop
  | [] =>
    (c.userCmd = "COMMIT_BUY".toList →
      intLit c.transID ∧ Renders cUser.reserve ∧ Renders (w (cUser.balance - cUser.reserve))) ∧
    (c.userCmd = "COMMIT_SELL".toList →
      intLit c.transID ∧ Renders cUser.reserve ∧ Renders (w (cUser.balance + cUser.reserve)))
  | [a] =>
    (c.userCmd = "ADD".toList →
      intLit c.transID ∧ (numeric a).isSome ∧ Renders (w (cUser.balance + str2price w a))) ∧
    (c.userCmd = "CANCEL_SET_BUY".toList → ∀ st ∈ toStockID a, ∀ t ∈ s.mem.getTrigger c.userID st .b,
      ∀ tr ∈ s.mem.obj t, Renders (w (cUser.balance + tr.amount)))
  | [_, amt] =>
    (c.userCmd = "SET_BUY_AMOUNT".toList →
      intLit c.transID ∧ (numeric amt).isSome ∧ Renders (w (cUser.balance - str2price w amt))) ∧
    (c.userCmd = "SET_SELL_AMOUNT".toList → intLit c.transID ∧ (numeric amt).isSome) ∧
    (c.userCmd = "SET_BUY_TRIGGER".toList ∨ c.userCmd = "SET_SELL_TRIGGER".toList → (numeric amt).isSome)
  | _ => True

/-! ### Literals that the code makes itself -/

theorem ne_nil_of_length {v : CStr} {n : ℕ} (h : v.length = n + 1) : v ≠ [] := by
  rintro rfl
  cases h

@[simp] theorem literal_userID (u : UserID) : Column.userID.Literal u.str :=
  ⟨ne_nil_of_length u.length_eq, u.all_isAlnum⟩

theorem isAlnum_of_isUpper {c : Char} (h : isUpper c = true) : isAlnum c = true := by
  simp only [isUpper, Bool.and_eq_true, decide_eq_true_eq] at h
  simp only [isAlnum, Bool.or_eq_true, Bool.and_eq_true, decide_eq_true_eq]
  exact Or.inr h

@[simp] theorem literal_stockID (st : StockID) : Column.stockID.Literal st.str :=
  Or.inr ⟨ne_nil_of_length st.length_eq,
    List.all_eq_true.mpr fun c hc => isAlnum_of_isUpper (List.all_eq_true.mp st.all_isUpper c hc)⟩

@[simp] theorem literal_ld (x : ℤ) : Column.integer.Literal (ld x) := by
  have hdigits := all_isDigit_toDigits x.natAbs
  have hne : Nat.toDigits 10 x.natAbs ≠ [] := Nat.toDigits_ne_nil
  show intLit (ld x) = true
  unfold ld
  split_ifs
  · rw [intLit, hdigits, Bool.and_true, decide_eq_true hne]
  · unfold intLit
    split
    · rename_i heq
      rw [heq] at hdigits
      cases hdigits
    · rw [hdigits, Bool.and_true, decide_eq_true hne]

@[simp] theorem literal_price (x : ℤ) : Column.money.Literal (price2str x) ↔ Renders x :=
  numeric_price2str_iff x

@[simp] theorem literal_type (ty : TType) : Column.letter.Literal [ty.char] := by
  cases ty <;> exact ⟨rfl, by decide⟩

/-! ### What each command hands over -/

section
variable {w : ℤ → ℤ} {s : Server} {c : Cmd} {cUser : User} {r : Server × Reply}

def AllLiterals (reqs : List (List Stmt)) : Prop := ∀ req ∈ reqs, ∀ st ∈ req, ∀ v ∈ st.values, v.1.Literal v.2

/-- A command that is not refused has queued requests of its templates, with literals under the condition. -/
def Hands (s : Server) (c : Cmd) (cond : Prop) (r : Server × Reply) : Prop :=
  r.2.refused = false → ∃ reqs, r.1.requests = s.requests ++ reqs ∧
    reqs.map (fun req => req.map Stmt.template) = commandTemplates s c.userID c.userCmd ∧
    (AllLiterals reqs ↔ cond)

theorem hands_refused {cond : Prop} (h : r.2.refused = true) : Hands s c cond r := by
  intro hsucc
  rw [hsucc] at h
  cases h

theorem hands_nothing (hreq : r.1.requests = s.requests)
    (htempl : commandTemplates s c.userID c.userCmd = []) : Hands s c True r := by
  refine fun _ => ⟨[], ?_, htempl.symm, iff_of_true ?_ trivial⟩
  · rw [hreq, List.append_nil]
  · exact fun req h => absurd h List.not_mem_nil

theorem hands_one {req : List Stmt} {cond : Prop} (hreq : r.1.requests = s.requests ++ [req])
    (htempl : commandTemplates s c.userID c.userCmd = [req.map Stmt.template])
    (hcond : (∀ st ∈ req, ∀ v ∈ st.values, v.1.Literal v.2) ↔ cond) : Hands s c cond r := by
  refine fun _ => ⟨[req], hreq, htempl.symm, ?_⟩
  unfold AllLiterals
  rw [List.forall_mem_singleton]
  exact hcond

theorem literal_dots : Column.stockID.Literal "...".toList := Or.inl rfl

theorem literal_letter {ch : Char} (h : isAlnum ch = true) : Column.letter.Literal [ch] := ⟨rfl, by simp [h]⟩

theorem literals_insertTran {stockID adj : CStr} {ch : Char} (hstock : Column.stockID.Literal stockID)
    (hch : isAlnum ch = true) : (∀ v ∈ (c.insertTran stockID adj ch).values, v.1.Literal v.2) ↔
      intLit c.transID ∧ (numeric adj).isSome := by
  simp [Cmd.insertTran, Stmt.values, hstock, literal_letter hch]
  rfl

theorem literals_updateBal {x : ℤ} {u : UserID} :
    (∀ v ∈ (Stmt.updateBal (price2str x) u).values, v.1.Literal v.2) ↔ Renders x := by
  simp [Stmt.values]

theorem literals_updateStk {num : ℤ} {u : UserID} {st : StockID} :
    ∀ v ∈ (Stmt.updateStk num u st).values, v.1.Literal v.2 := by
  simp [Stmt.values]

theorem literals_deleteTrig {u : UserID} {st : StockID} {ty : TType} :
    ∀ v ∈ (Stmt.deleteTrig u st ty).values, v.1.Literal v.2 := by
  simp [Stmt.values]

/-- A trigger starts with a value of the code's own. -/
theorem literals_insertTrig {u : UserID} {tid amt : CStr} {st : StockID} {ty : TType} :
    (∀ v ∈ (Stmt.insertTrig u tid st ty amt "0.00".toList).values, v.1.Literal v.2) ↔
      intLit tid ∧ (numeric amt).isSome := by
  have hzero : Column.money.Literal "0.00".toList := by
    show (numeric "0.00".toList).isSome = true
    decide
  simp only [Stmt.values, List.forall_mem_cons, literal_userID, literal_stockID, literal_type, hzero, true_and,
    List.not_mem_nil, false_imp_iff, implies_true, and_true]
  rfl

theorem hands_add (hcmd : c.userCmd = "ADD".toList) (amt : CStr) :
    Hands s c (intLit c.transID ∧ (numeric amt).isSome ∧ Renders (w (cUser.balance + str2price w amt)))
      (Command.add w s c cUser amt) := by
  unfold Command.add
  dsimp only
  split_ifs
  · exact hands_refused rfl
  · refine hands_one rfl (hcmd ▸ rfl) ?_
    rw [List.forall_mem_cons, List.forall_mem_singleton, literals_updateBal,
      literals_insertTran literal_dots (by decide)]
    tauto

theorem hands_quote (hcmd : c.userCmd = "QUOTE".toList) (stk : CStr) :
    Hands s c True (Command.quote s c stk) := by
  unfold Command.quote
  split
  · exact hands_refused rfl
  · rename_i st _
    have hfind := (Server.untouched_findStock (s.lenq (c.logLine stk spc spc)) st).requests
    dsimp only
    split_ifs
    · exact hands_nothing hfind (hcmd ▸ rfl)
    · exact hands_nothing hfind (hcmd ▸ rfl)

theorem hands_buy (hcmd : c.userCmd = "BUY".toList) (stk amt : CStr) :
    Hands s c True (Command.buy w s c cUser stk amt) := by
  unfold Command.buy
  split
  · exact hands_refused rfl
  rename_i st _
  have hfresh := ((Server.untouched_findStock (s.lenq (c.logLine stk spc amt)) st).trans
    (Server.untouched_freshQuote _ c st)).requests
  dsimp only
  split_ifs
  · exact hands_refused rfl
  · exact hands_refused rfl
  · exact hands_refused rfl
  · exact hands_refused rfl
  · exact hands_refused rfl
  · exact hands_nothing hfresh (hcmd ▸ rfl)

theorem hands_sell (hcmd : c.userCmd = "SELL".toList) (stk amt : CStr) :
    Hands s c True (Command.sell w s c cUser stk amt) := by
  unfold Command.sell
  split
  · exact hands_refused rfl
  rename_i st _
  have hfresh := ((Server.untouched_findStock (s.lenq (c.logLine stk spc amt)) st).trans
    (Server.untouched_freshQuote _ c st)).requests
  dsimp only
  by_cases hprc : str2price w amt = -1
  · rw [if_pos hprc]
    exact hands_refused rfl
  rw [if_neg hprc]
  split
  · exact hands_refused rfl
  · split_ifs
    · exact hands_refused rfl
    · exact hands_refused rfl
    · exact hands_refused rfl
    all_goals exact hands_nothing hfresh (hcmd ▸ rfl)

theorem hands_cancelOrder {side : ℤ} (htempl : commandTemplates s c.userID c.userCmd = []) :
    Hands s c True (Command.cancelOrder s c cUser side) := by
  unfold Command.cancelOrder
  dsimp only
  split_ifs
  · exact hands_refused rfl
  · exact hands_nothing rfl htempl

theorem hands_dumplog (hcmd : c.userCmd = "DUMPLOG".toList) (file : CStr) :
    Hands s c True (Command.dumplog s c file) := by
  unfold Command.dumplog
  dsimp only
  split_ifs
  · exact hands_refused rfl
  · exact hands_nothing rfl (hcmd ▸ rfl)

/-- The statement for a holding has no text of the client. -/
theorem literals_takeStock (usTree : Trie UserStock) (u : UserID) (st : StockID) (num : ℤ) :
    (∀ v ∈ (takeStock w u usTree st num).2.values, v.1.Literal v.2) ∧
      (takeStock w u usTree st num).2.template =
        if (getUserStock usTree st).isSome then .updateStk else .insertStk := by
  unfold takeStock
  cases getUserStock usTree st with
  | none => exact ⟨by simp [Stmt.values], rfl⟩
  | some us => exact ⟨by simp [Stmt.values], rfl⟩

theorem templates_commitBuy {st : StockID} {u : UserID} (huser : s.user u = some cUser)
    (hst : cUser.stockObj = some st) : commandTemplates s u "COMMIT_BUY".toList =
      [[if (getUserStock cUser.usTree st).isSome then .updateStk else .insertStk, .updateBal, .insertTran]] := by
  unfold commandTemplates
  simp only [huser, Option.any_some, hst]
  rfl

theorem hands_commitBuy (huser : s.user c.userID = some cUser) (hcmd : c.userCmd = "COMMIT_BUY".toList)
    (hr : Command.commitBuy w s c cUser = some r) :
    Hands s c (intLit c.transID ∧ Renders cUser.reserve ∧ Renders (w (cUser.balance - cUser.reserve))) r := by
  unfold Command.commitBuy at hr
  dsimp only at hr
  split_ifs at hr
  · cases hr
    exact hands_refused rfl
  · cases hr
    exact hands_refused rfl
  · split at hr
    · cases hr
    · rename_i st hst
      cases hr
      obtain ⟨hliterals, htempl⟩ := literals_takeStock (w := w) cUser.usTree c.userID st cUser.no
      refine hands_one rfl ?_ ?_
      · rw [List.map_cons, htempl, hcmd, templates_commitBuy huser hst]
        rfl
      · rw [List.forall_mem_cons, and_iff_right hliterals, List.forall_mem_cons, List.forall_mem_singleton,
          literals_updateBal, literals_insertTran (literal_stockID st) (by decide), numeric_price2str_iff]
        unfold Renders
        tauto

theorem hands_commitSell (hcmd : c.userCmd = "COMMIT_SELL".toList)
    (hr : Command.commitSell w s c cUser = some r) :
    Hands s c (intLit c.transID ∧ Renders cUser.reserve ∧ Renders (w (cUser.balance + cUser.reserve))) r := by
  unfold Command.commitSell at hr
  dsimp only at hr
  split_ifs at hr
  · cases hr
    exact hands_refused rfl
  · cases hr
    exact hands_refused rfl
  · split at hr
    · cases hr
    rename_i st _
    split at hr
    · cases hr
      exact hands_refused rfl
    · cases hr
      refine hands_one rfl (hcmd ▸ rfl) ?_
      rw [List.forall_mem_cons, List.forall_mem_cons, and_iff_right literals_updateStk,
        List.forall_mem_singleton, literals_updateBal, literals_insertTran (literal_stockID st) (by decide),
        numeric_price2str_iff]
      unfold Renders
      tauto

theorem hands_setBuyAmount (hcmd : c.userCmd = "SET_BUY_AMOUNT".toList) (stk amt : CStr) :
    Hands s c (intLit c.transID ∧ (numeric amt).isSome ∧ Renders (w (cUser.balance - str2price w amt)))
      (Command.setBuyAmount w s c cUser stk amt) := by
  unfold Command.setBuyAmount
  split
  · exact hands_refused rfl
  rename_i st _
  have hfind := (Server.untouched_findStock (s.lenq (c.logLine stk spc amt)) st).requests
  dsimp only
  split_ifs
  · exact hands_refused rfl
  · exact hands_refused rfl
  · exact hands_refused rfl
  split
  · exact hands_refused rfl
  · refine hands_one (congrArg (· ++ _) hfind) (hcmd ▸ rfl) ?_
    rw [List.forall_mem_cons, List.forall_mem_singleton, literals_updateBal, literals_insertTrig]
    tauto

theorem hands_cancelSetBuy (hcmd : c.userCmd = "CANCEL_SET_BUY".toList) {stk : CStr}
    (hr : Command.cancelSetBuy w s c cUser stk = some r) :
    Hands s c (∀ st ∈ toStockID stk, ∀ t ∈ s.mem.getTrigger c.userID st .b, ∀ tr ∈ s.mem.obj t,
      Renders (w (cUser.balance + tr.amount))) r := by
  unfold Command.cancelSetBuy at hr
  split at hr
  · cases hr
    exact hands_refused rfl
  rename_i st hst
  have hfind := Server.untouched_findStock (s.lenq (c.logLine stk spc spc)) st
  dsimp only at hr
  split at hr
  · cases hr
    exact hands_refused rfl
  rename_i t ht
  rw [hfind.mem] at hr ht
  obtain ⟨tr, htr, hr⟩ := Option.bind_eq_some_iff.mp hr
  obtain ⟨m, -, rfl⟩ := Option.map_eq_some_iff.mp hr
  refine hands_one (congrArg (· ++ _) hfind.requests) (hcmd ▸ rfl) ?_
  rw [List.forall_mem_cons, List.forall_mem_singleton, literals_updateBal, and_iff_left literals_deleteTrig]
  constructor
  · intro hrenders st' hst' t' ht' tr' htr'
    rw [hst, Option.mem_some_iff] at hst'
    subst hst'
    obtain rfl := Option.some.inj (ht.symm.trans ht')
    obtain rfl := Option.some.inj (htr.symm.trans htr')
    exact hrenders
  · exact fun h => h st hst t ht tr htr

theorem hands_cancelSetSell (hcmd : c.userCmd = "CANCEL_SET_SELL".toList) {stk : CStr}
    (hr : Command.cancelSetSell s c stk = some r) : Hands s c True r := by
  unfold Command.cancelSetSell at hr
  split at hr
  · cases hr
    exact hands_refused rfl
  rename_i st _
  have hfind := Server.untouched_findStock (s.lenq (c.logLine stk spc spc)) st
  dsimp only at hr
  split at hr
  · cases hr
    exact hands_refused rfl
  obtain ⟨m, -, rfl⟩ := Option.map_eq_some_iff.mp hr
  refine hands_one (congrArg (· ++ _) hfind.requests) (hcmd ▸ rfl) ?_
  rw [List.forall_mem_singleton]
  exact iff_of_true literals_deleteTrig trivial

theorem hands_setTrigger {type : TType} (htempl : commandTemplates s c.userID c.userCmd = [[.updateTrig]])
    (stk amt : CStr) : Hands s c (numeric amt).isSome (Command.setTrigger w s c type stk amt) := by
  unfold Command.setTrigger
  split
  · exact hands_refused rfl
  rename_i st _
  have hfind := (Server.untouched_findStock (s.lenq (c.logLine stk spc amt)) st).requests
  dsimp only
  split_ifs
  · exact hands_refused rfl
  split
  · exact hands_refused rfl
  · refine hands_one (congrArg (· ++ _) hfind) htempl ?_
    rw [List.forall_mem_singleton]
    simp [Stmt.values]
    rfl

theorem hands_setSellAmount (hcmd : c.userCmd = "SET_SELL_AMOUNT".toList) (stk amt : CStr) :
    Hands s c (intLit c.transID ∧ (numeric amt).isSome) (Command.setSellAmount w s c cUser stk amt) := by
  unfold Command.setSellAmount
  split
  · exact hands_refused rfl
  rename_i st _
  have hfind := (Server.untouched_findStock (s.lenq (c.logLine stk spc amt)) st).requests
  dsimp only
  split_ifs
  · exact hands_refused rfl
  · exact hands_refused rfl
  · exact hands_refused rfl
  · exact hands_refused rfl
  · refine hands_one (congrArg (· ++ _) hfind) (hcmd ▸ rfl) ?_
    rw [List.forall_mem_singleton, literals_insertTrig]

/-- What a command of a name needs is what the condition says of it. -/
theorem hands_dispatch {comm : List CStr} (huser : s.user c.userID = some cUser)
    (hr : Command.dispatch w s c cUser comm = some r) : Hands s c (Sound w s c cUser comm) r := by
  cases Command.dispatched hr with
  | commitBuy hcmd hr => simpa [Sound, hcmd] using hands_commitBuy huser hcmd hr
  | cancelBuy hcmd =>
    have h : Hands s c True (Command.cancelBuy s c cUser) := hands_cancelOrder (hcmd ▸ rfl)
    simpa [Sound, hcmd] using h
  | commitSell hcmd hr => simpa [Sound, hcmd] using hands_commitSell hcmd hr
  | cancelSell hcmd =>
    have h : Hands s c True (Command.cancelSell s c cUser) := hands_cancelOrder (hcmd ▸ rfl)
    simpa [Sound, hcmd] using h
  | displaySummary hcmd =>
    have h : Hands s c True (Command.displaySummary s c cUser) := hands_nothing rfl (hcmd ▸ rfl)
    simpa [Sound, hcmd] using h
  | add hcmd => simpa [Sound, hcmd] using hands_add hcmd _
  | quote hcmd => simpa [Sound, hcmd] using hands_quote hcmd _
  | cancelSetBuy hcmd hr => simpa [Sound, hcmd] using hands_cancelSetBuy hcmd hr
  | cancelSetSell hcmd hr => simpa [Sound, hcmd] using hands_cancelSetSell hcmd hr
  | dumplog hcmd => simpa [Sound, hcmd] using hands_dumplog hcmd _
  | buy hcmd => simpa [Sound, hcmd] using hands_buy hcmd _ _
  | sell hcmd => simpa [Sound, hcmd] using hands_sell hcmd _ _
  | setBuyAmount hcmd => simpa [Sound, hcmd] using hands_setBuyAmount hcmd _ _
  | @setBuyTrigger stk amt hcmd =>
    have h : Hands s c (numeric amt).isSome (Command.setBuyTrigger w s c stk amt) :=
      hands_setTrigger (hcmd ▸ rfl) stk amt
    simpa [Sound, hcmd] using h
  | setSellAmount hcmd => simpa [Sound, hcmd] using hands_setSellAmount hcmd _ _
  | @setSellTrigger stk amt hcmd =>
    have h : Hands s c (numeric amt).isSome (Command.setSellTrigger w s c stk amt) :=
      hands_setTrigger (hcmd ▸ rfl) stk amt
    simpa [Sound, hcmd] using h
  | badcmd _ => exact hands_refused rfl

/-- Requests with literals only come apart into their statements. -/
theorem statements_of_literals {req : List Query} (h : ∀ q ∈ req, ∀ v ∈ q.values, v.1.Literal v.2) :
    Sql.statements (req.flatMap Query.text) = req.map Query.text := by
  rw [List.flatMap_def]
  refine Sql.statements_flatten fun text htext => ?_
  obtain ⟨q, hq, rfl⟩ := List.mem_map.mp htext
  exact Query.statement (h q hq)

/-- The requests for a new user have its ID, and a balance of the code's own. -/
theorem literals_new (new : Bool) (u : UserID) : ∀ req ∈ handed new s s u, ∀ q ∈ req, ∀ v ∈ q.values,
    v.1.Literal v.2 := by
  have hzero : Column.money.Literal "0.00".toList := by
    show (numeric "0.00".toList).isSome = true
    decide
  unfold handed
  cases new
  · simp
  · simp only [if_true, List.drop_length, List.map_nil, List.append_nil, List.forall_mem_cons, Query.values,
      Stmt.values, literal_userID, hzero, List.not_mem_nil, false_imp_iff, implies_true, and_true]

theorem handed_append {reqs : List (List Stmt)} {s' : Server} (h : s'.requests = s.requests ++ reqs)
    (new : Bool) (u : UserID) : handed new s s' u = handed new s s u ++ reqs.map fun req => req.map Query.write := by
  unfold handed
  rw [h, List.drop_left, List.drop_length, List.map_nil, List.append_nil]

theorem templates_handed (new : Bool) (u : UserID) : (handed new s s u).map (fun req => req.map Query.template) ++
    commandTemplates s u c.userCmd = templates new s u c.userCmd := by
  unfold handed templates
  rw [List.drop_length]
  cases new <;> rfl

theorem intended_iff {comm : List CStr} (huser : s.user c.userID = some cUser)
    (hr : Command.dispatch w s c cUser comm = some r) (hsucc : r.2.refused = false) (new : Bool) :
    Intended new s c r.1 ↔ Sound w s c cUser comm := by
  obtain ⟨reqs, hreqs, htempl, hsound⟩ := hands_dispatch huser hr hsucc
  have hhanded := handed_append hreqs new c.userID
  rw [← hsound]
  constructor
  · intro h req hreq st hst
    refine h.literals (req.map Query.write) ?_ (.write st) (List.mem_map_of_mem hst)
    rw [hhanded]
    exact List.mem_append_right _ (List.mem_map_of_mem hreq)
  · intro h
    have hliterals : ∀ req ∈ handed new s r.1 c.userID, ∀ q ∈ req, ∀ v ∈ q.values, v.1.Literal v.2 := by
      rw [hhanded]
      intro req hreq
      rcases List.mem_append.mp hreq with hreq | hreq
      · exact literals_new new c.userID req hreq
      · obtain ⟨sts, hsts, rfl⟩ := List.mem_map.mp hreq
        intro q hq
        obtain ⟨st, hst, rfl⟩ := List.mem_map.mp hq
        exact h sts hsts st hst
    refine ⟨?_, hliterals, fun req hreq => statements_of_literals (hliterals req hreq)⟩
    rw [hhanded, List.map_append, ← templates_handed, ← htempl, List.map_map]
    congr 1
    refine List.map_congr_left fun req _ => ?_
    rw [Function.comp_apply, List.map_map]
    rfl

end

/-! ### Messages -/

theorem executed_some {b : ConnBuf} {bytes : List Char} {s : Server} {now : ℤ} {quote : Quote} {c : Cmd}
    {comm : List CStr} {r : Server × Reply} (h : executed b bytes s now quote = some (c, comm, r)) :
    ∃ cUser, s.user c.userID = some cUser ∧ Command.dispatch wrap64 s c cUser comm = some r := by
  obtain ⟨⟨b', cmd⟩, -, h⟩ := Option.bind_eq_some_iff.mp h
  cases cmd with
  | command transID userCmd userID commStr =>
    obtain ⟨r', hr, heq⟩ := Option.map_eq_some_iff.mp h
    cases heq
    obtain ⟨cUser, huser, hdispatch⟩ := Option.bind_eq_some_iff.mp hr
    exact ⟨cUser, huser, hdispatch⟩
  | _ => cases h

/-- For every message, and the command that it is executed with success in any state: the requests are the
    intended ones exactly under the condition. -/
theorem requests_intended_iff {b : ConnBuf} {bytes : List Char} {s : Server} {now : ℤ} {quote : Quote} {c : Cmd}
    {comm : List CStr} {r : Server × Reply} (h : executed b bytes s now quote = some (c, comm, r))
    (hsucc : r.2.refused = false) (new : Bool) :
    Intended new s c r.1 ↔ ∀ cUser ∈ s.user c.userID, Sound wrap64 s c cUser comm := by
  obtain ⟨cUser, huser, hdispatch⟩ := executed_some h
  rw [intended_iff huser hdispatch hsucc new, huser]
  exact ⟨fun hsound _ husr => Option.some.inj husr ▸ hsound, fun hsound => hsound cUser rfl⟩

/-- A user with nothing, and an ADD of theirs with a Trans_ID. -/
def newcomer : User := ⟨0, 0, none, 0, 0, 0, Trie.empty⟩

def addOf (transID : CStr) : Cmd := ⟨transID, "ADD".toList, aUser, 5, ⟨0, 0⟩⟩

def loaded : Server := Server.init.setUser aUser newcomer

theorem requests_intended_iff_one : Intended true loaded (addOf "1".toList)
    (Command.add wrap64 loaded (addOf "1".toList) newcomer "1.00".toList).1 := by
  have hrun : executed (.init []) "WSC|1|ADD|aaaaaaaaaa,1.00".toList loaded 5 ⟨0, 0⟩ =
      some (addOf "1".toList, ["1.00".toList],
        Command.add wrap64 loaded (addOf "1".toList) newcomer "1.00".toList) := by rfl
  refine (requests_intended_iff hrun rfl true).mpr fun cUser huser => ?_
  cases huser
  refine ⟨fun _ => ⟨by decide, by decide, Or.inl ?_⟩, fun h => absurd h (by decide)⟩
  decide

/-- A Trans_ID that ends the INSERT, with a statement of its own behind it. -/
def deleting : CStr := "1'); DELETE FROM accounts; --".toList

/-- Its command is not refused, and its request of two statements has four in its text. -/
theorem transID_ends_statement :
    executed (.init []) ("WSC|".toList ++ deleting ++ "|ADD|aaaaaaaaaa,1.00".toList) loaded 5 ⟨0, 0⟩ =
      some (addOf deleting, ["1.00".toList],
        Command.add wrap64 loaded (addOf deleting) newcomer "1.00".toList) ∧
    (Command.add wrap64 loaded (addOf deleting) newcomer "1.00".toList).2.refused = false ∧
    (handed false loaded (Command.add wrap64 loaded (addOf deleting) newcomer "1.00".toList).1 aUser).map
      (fun req => (req.length, (Sql.statements (req.flatMap Query.text)).length)) = [(2, 4)] ∧
    ¬ Intended false loaded (addOf deleting)
      (Command.add wrap64 loaded (addOf deleting) newcomer "1.00".toList).1 := by
  refine ⟨by rfl, by rfl, by decide, fun h => ?_⟩
  have hpasted : intLit deleting = true := h.literals _ List.mem_cons_self _
    (List.mem_cons_of_mem _ List.mem_cons_self) (.transID, deleting) (List.mem_cons_of_mem _ List.mem_cons_self)
  exact absurd hpasted (by decide)

end TradeC
