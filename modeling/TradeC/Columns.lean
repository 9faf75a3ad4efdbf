import TradeC.Literals
import TradeC.Mirror
import TradeC.Quotes

/-! What the columns of the tables take, and the database's answers.

    `Db.exec` says what a statement does whose values are ones of its columns: a Trans_ID is a bigint, a sum a
    numeric(15,2), a number of shares an integer. A request with another value is refused, and `dbWrite_handler`
    asks it again for ever; a text that ends its string makes other statements of the request. `Columns` is the
    condition on a command and the state before it that keeps the requests from both. -/

namespace TradeC
open Run Decimal Quotes

/-! ### Values -/

/-- Digits, and blanks behind them. -/
def unsignedInt (v : CStr) : Option ℤ :=
  if v.takeWhile Char.isDigit ≠ [] ∧ (v.dropWhile Char.isDigit).all isspace then
    some (val (v.takeWhile Char.isDigit))
  else none

def inBigint (x : ℤ) : Bool := -2 ^ 63 ≤ x && x < 2 ^ 63

/-- The number that a text is for a bigint column: blanks, a sign or none, digits, blanks. -/
def bigint (v : CStr) : Option ℤ :=
  let x := match v.dropWhile isspace with
    | '-' :: v => (unsignedInt v).map fun x => -x
    | '+' :: v => unsignedInt v
    | v => unsignedInt v
  x.filter inBigint

def inInteger (n : ℤ) : Bool := -2 ^ 31 ≤ n && n < 2 ^ 31

/-- Fifteen digits, two of them cents. -/
def inNumeric (x : ℤ) : Bool := -10 ^ 15 < x && x < 10 ^ 15

def numericText (v : CStr) : Bool := (numeric v).any inNumeric

/-- The columns of the statement take its values. -/
def Stmt.taken : Stmt → Bool
  | .insertAcct _ balance => numericText balance
  | .updateBal balance _ => numericText balance
  | .insertStk _ _ amount => inInteger amount
  | .updateStk amount _ _ => inInteger amount
  | .insertTran _ transID stockID adjustment timestamp command =>
    (bigint transID).isSome && (stockID = "...".toList || stockID.length = 3 && stockID.all isAlnum) &&
      numericText adjustment && inBigint timestamp && isAlnum command
  | .insertTrig _ transID _ _ reservedFunds triggerValue =>
    (bigint transID).isSome && numericText reservedFunds && numericText triggerValue
  | .updateTrig triggerValue _ _ _ => numericText triggerValue
  | .deleteTrig .. => true

/-- What the database makes of a request: the text that `PQexec` gets has to come apart into the statements, and
    the columns to take their values. None where it refuses the request, or does something else. -/
def Db.answer (db : Db) (req : List Stmt) : Option Db :=
  if Sql.statements (requestText req) = req.map Stmt.text ∧ req.all Stmt.taken then req.foldlM Db.exec db else none

/-! ### Values in a text -/

theorem clean_unsignedInt {v : CStr} {x : ℤ} (h : unsignedInt v = some x) : Sql.Clean v := by
  unfold unsignedInt at h
  split_ifs at h with hv
  intro c hc
  rw [← List.takeWhile_append_dropWhile (p := Char.isDigit) (l := v), List.mem_append] at hc
  rcases hc with hc | hc
  · exact clean_of_all List.all_takeWhile (by decide) (by decide) c hc
  · exact clean_of_all hv.2 (by decide) (by decide) c hc

theorem clean_bigint {v : CStr} (h : (bigint v).isSome) : Sql.Clean v := by
  have hrest : Sql.Clean (v.dropWhile isspace) := by
    unfold bigint at h
    obtain ⟨x, hx⟩ := Option.isSome_iff_exists.mp h
    obtain ⟨hx, -⟩ := Option.filter_eq_some_iff.mp hx
    split at hx
    · rename_i heq
      obtain ⟨y, hy, -⟩ := Option.map_eq_some_iff.mp hx
      rw [heq]
      exact List.forall_mem_cons.mpr ⟨by decide, clean_unsignedInt hy⟩
    · rename_i heq
      rw [heq]
      exact List.forall_mem_cons.mpr ⟨by decide, clean_unsignedInt hx⟩
    · exact clean_unsignedInt hx
  intro c hc
  rw [← List.takeWhile_append_dropWhile (p := isspace) (l := v), List.mem_append] at hc
  rcases hc with hc | hc
  · exact clean_of_all List.all_takeWhile (by decide) (by decide) c hc
  · exact hrest c hc

theorem clean_numericText {v : CStr} (h : numericText v = true) : Sql.Clean v := by
  unfold numericText at h
  cases hv : numeric v with
  | none =>
    rw [hv] at h
    cases h
  | some x => exact clean_numeric (by rw [hv]; rfl)

/-- The values that are taken end no string and no statement. -/
theorem Stmt.clean {st : Stmt} (h : st.taken = true) : ∀ v ∈ st.values, Sql.Clean v.2 := by
  have huser : ∀ u : UserID, Sql.Clean u.str := fun u => (literal_userID u).clean
  have hstock : ∀ st : StockID, Sql.Clean st.str := fun st => (literal_stockID st).clean
  have hld : ∀ x : ℤ, Sql.Clean (ld x) := fun x => (literal_ld x).clean
  have htype : ∀ ty : TType, Sql.Clean [ty.char] := fun ty => (literal_type ty).clean
  cases st with
  | insertAcct u bal | updateBal bal u => simpa [values, huser] using clean_numericText h
  | insertStk u st n | updateStk n u st | deleteTrig u st ty => simp [values, huser, hstock, hld, htype]
  | insertTran u tid st adj ts c =>
    simp only [taken, Bool.and_eq_true] at h
    obtain ⟨⟨⟨⟨htid, hst⟩, hadj⟩, -⟩, hc⟩ := h
    have hname : Column.stockID.Literal st := by
      simp only [Bool.or_eq_true, Bool.and_eq_true, decide_eq_true_eq] at hst
      exact hst.imp_right fun h => ⟨ne_nil_of_length h.1, h.2⟩
    simp [values, huser, hld, clean_bigint htid, hname.clean, clean_numericText hadj,
      (literal_letter hc).clean]
  | insertTrig u tid st ty funds value =>
    simp only [taken, Bool.and_eq_true] at h
    simp [values, huser, hstock, htype, clean_bigint h.1.1, clean_numericText h.1.2, clean_numericText h.2]
  | updateTrig value u st ty =>
    simpa [values, huser, hstock, htype] using clean_numericText h

theorem Stmt.statement {st : Stmt} (h : st.taken = true) : Sql.Statement st.text := by
  refine scan_of_closes (Query.write st).closes fun v hv => ?_
  have hvalue : v ∈ (Query.write st).values.map Prod.snd := by
    rw [← Query.values_pieces]
    exact hv
  obtain ⟨x, hx, rfl⟩ := List.mem_map.mp hvalue
  exact Stmt.clean h x hx

theorem statements_of_taken {req : List Stmt} (h : ∀ st ∈ req, st.taken = true) :
    Sql.statements (requestText req) = req.map Stmt.text := by
  rw [requestText, List.flatMap_def]
  refine Sql.statements_flatten fun text htext => ?_
  obtain ⟨st, hst, rfl⟩ := List.mem_map.mp htext
  exact Stmt.statement (h st hst)

/-! ### The condition -/

namespace Columns
variable (find : UserID → StockID → TType → Option TrigID) (b : Book) (c : Cmd) (a : Account)

/-- What `insertTran` takes of the command itself. -/
def numbered : Bool := (bigint c.transID).isSome && inBigint c.now

def add (amt : CStr) : Bool :=
  str2price id amt = -1 || numbered c && numericText amt && inNumeric (a.balance + str2price id amt)

def commitBuy : Bool :=
  a.buysell ≠ 1 || numbered c && inNumeric a.reserve && inNumeric (a.balance - a.reserve) &&
    a.stockObj.all fun st => inInteger (a.shares st + a.no)

def commitSell : Bool :=
  a.buysell ≠ -1 || numbered c && inNumeric a.reserve && inNumeric (a.balance + a.reserve) &&
    a.stockObj.all fun st => (a.hold st).all fun n => inInteger (n - a.no)

def setBuyAmount (amt : CStr) : Bool :=
  str2price id amt = -1 || a.buysell ≠ 0 || a.balance < str2price id amt ||
    (bigint c.transID).isSome && numericText amt && inNumeric (a.balance - str2price id amt)

def setSellAmount (amt : CStr) : Bool :=
  str2price id amt = -1 || a.buysell ≠ 0 || (bigint c.transID).isSome && numericText amt

/-- SET_BUY_TRIGGER and SET_SELL_TRIGGER. -/
def setTrigger (amt : CStr) : Bool := str2price id amt = -1 || numericText amt

def cancelSetBuy (stk : CStr) : Bool :=
  (toStockID stk).all fun st => (find c.userID st .b).all fun t => (b.trig t).all fun tr =>
    inNumeric (a.balance + tr.amount)

/-- A command, by its name and fields. -/
def command (comm : List CStr) : Bool :=
  match comm with
  | [] =>
    if c.userCmd = "COMMIT_BUY".toList then commitBuy c a
    else if c.userCmd = "COMMIT_SELL".toList then commitSell c a
    else true
  | [x] =>
    if c.userCmd = "ADD".toList then add c a x
    else if c.userCmd = "CANCEL_SET_BUY".toList then cancelSetBuy find b c a x
    else true
  | [_, x] =>
    if c.userCmd = "SET_BUY_AMOUNT".toList then setBuyAmount c a x
    else if c.userCmd = "SET_SELL_AMOUNT".toList then setSellAmount c a x
    else if c.userCmd = "SET_BUY_TRIGGER".toList ∨ c.userCmd = "SET_SELL_TRIGGER".toList then setTrigger x
    else true
  | _ => true

def fireBuy (tr : Trigger) (p now : ℤ) : Bool :=
  let no := tr.amount.tdiv p
  no = 0 || (bigint tr.transID).isSome && inBigint now && inNumeric (p * no) &&
    inNumeric (a.balance + tr.amount - p * no) && inInteger (a.shares tr.stockObj + no)

def fireSell (tr : Trigger) (p now : ℤ) : Bool :=
  (a.hold tr.stockObj).all fun n =>
    let no := sellNo n tr.amount p
    n = 0 || (bigint tr.transID).isSome && inBigint now && inNumeric (p * no) &&
      inNumeric (a.balance + p * no) && inInteger (n - no)

end Columns

/-- `Columns`, of the books. -/
def Book.columns (find : UserID → StockID → TType → Option TrigID) (b : Book) : Event → Bool
  | .command c commStr =>
    (b.acct c.userID).all fun a => Columns.command find b c a (delimSepNoCpy commStr ',')
  | .examine t p now =>
    (b.trig t).all fun tr => (b.acct tr.userObj).all fun a =>
      match tr.type with
      | .b => p ≥ tr.trig || Columns.fireBuy a tr p now
      | .s => p ≤ tr.trig || tr.trig = 0 || Columns.fireSell a tr p now
  | _ => true

/-- Where an event writes to the tables: the Trans_ID that it writes is the text of a bigint, and its sums and
    shares, and the balance and the holdings that it leaves, are in the range of their columns. -/
def Columns (s : Server) (e : Event) : Bool := s.book.columns s.mem.getTrigger e

/-! ### The requests are taken -/

theorem numericText_price2str {x : ℤ} (hx : 0 ≤ x) (h : inNumeric x = true) :
    numericText (price2str x) = true := by
  rw [numericText, numeric_price2str hx]
  exact h

theorem numericText_zero : numericText "0.00".toList = true := by decide

theorem taken_updateBal {x : ℤ} {u : UserID} (hx : 0 ≤ x) (h : inNumeric x = true) :
    (Stmt.updateBal (price2str x) u).taken = true := numericText_price2str hx h

theorem taken_takeStmt {a : Account} {u : UserID} {st : StockID} {n : ℤ}
    (h : inInteger (a.shares st + n) = true) : (a.takeStmt u st n).taken = true := by
  unfold Account.shares at h
  unfold Account.takeStmt
  cases hk : a.hold st with
  | none =>
    rw [hk, Option.getD_none, zero_add] at h
    exact h
  | some k =>
    rw [hk] at h
    exact h

theorem taken_insertTran {u : UserID} {tid stk adj : CStr} {ts : ℤ} {ch : Char}
    (htid : (bigint tid).isSome = true) (hstk : stk = "...".toList ∨ ∃ st : StockID, stk = st.str)
    (hadj : numericText adj = true) (hts : inBigint ts = true) (hch : isAlnum ch = true) :
    (Stmt.insertTran u tid stk adj ts ch).taken = true := by
  have hname : (stk = "...".toList || stk.length = 3 && stk.all isAlnum) = true := by
    rcases hstk with rfl | ⟨st, rfl⟩
    · rfl
    · have halnum : st.str.all isAlnum = true :=
        List.all_eq_true.mpr fun c hc => isAlnum_of_isUpper (List.all_eq_true.mp st.all_isUpper c hc)
      simp [st.length_eq, halnum]
  simp only [Stmt.taken, htid, hname, hadj, hts, hch, Bool.and_self]

section Move
variable {find : UserID → StockID → TType → Option TrigID} {b b' : Book} {e : Event} {out : Output}
  {c : Cmd} {a : Account} {amt : CStr}

theorem Book.columns_command {name : String} {fields : List CStr} (h : b.columns find e = true)
    (he : e.Is c name fields) (ha : b.acct c.userID = some a) :
    Columns.command find b c a fields = true ∧ c.userCmd = name.toList := by
  obtain ⟨commStr, rfl, hcmd, rfl⟩ := he
  simp only [Book.columns, ha, Option.all_some] at h
  exact ⟨h, hcmd⟩

theorem Columns.added (h : b.columns find e = true) (he : e.Is c "ADD" [amt])
    (ha : b.acct c.userID = some a) (hprc : str2price id amt ≠ -1) :
    ((numbered c = true ∧ numericText amt = true) ∧ inNumeric (a.balance + str2price id amt) = true) := by
  obtain ⟨h, hcmd⟩ := Book.columns_command h he ha
  simpa [command, hcmd, add, hprc] using h

theorem Columns.bought {st : StockID} (h : b.columns find e = true) (he : e.Is c "COMMIT_BUY" [])
    (ha : b.acct c.userID = some a) (hside : a.buysell = 1) (hst : a.stockObj = some st) :
    ((numbered c = true ∧ inNumeric a.reserve = true) ∧ inNumeric (a.balance - a.reserve) = true) ∧
      inInteger (a.shares st + a.no) = true := by
  obtain ⟨h, hcmd⟩ := Book.columns_command h he ha
  simpa [command, hcmd, commitBuy, hside, hst] using h

theorem Columns.sold {st : StockID} {n : ℤ} (h : b.columns find e = true) (he : e.Is c "COMMIT_SELL" [])
    (ha : b.acct c.userID = some a) (hside : a.buysell = -1) (hst : a.stockObj = some st)
    (hn : a.hold st = some n) :
    ((numbered c = true ∧ inNumeric a.reserve = true) ∧ inNumeric (a.balance + a.reserve) = true) ∧
      inInteger (n - a.no) = true := by
  obtain ⟨h, hcmd⟩ := Book.columns_command h he ha
  simpa [command, hcmd, commitSell, hside, hst, hn] using h

theorem Columns.setBuy {stk : CStr} (h : b.columns find e = true) (he : e.Is c "SET_BUY_AMOUNT" [stk, amt])
    (ha : b.acct c.userID = some a) (hprc : str2price id amt ≠ -1) (hidle : a.buysell = 0)
    (hbal : str2price id amt ≤ a.balance) :
    ((bigint c.transID).isSome = true ∧ numericText amt = true) ∧
      inNumeric (a.balance - str2price id amt) = true := by
  obtain ⟨h, hcmd⟩ := Book.columns_command h he ha
  simpa [command, hcmd, setBuyAmount, hprc, hidle, not_lt.mpr hbal] using h

theorem Columns.setSell {stk : CStr} (h : b.columns find e = true) (he : e.Is c "SET_SELL_AMOUNT" [stk, amt])
    (ha : b.acct c.userID = some a) (hprc : str2price id amt ≠ -1) (hidle : a.buysell = 0) :
    (bigint c.transID).isSome = true ∧ numericText amt = true := by
  obtain ⟨h, hcmd⟩ := Book.columns_command h he ha
  simpa [command, hcmd, setSellAmount, hprc, hidle] using h

theorem Columns.priced {name : String} {stk : CStr} {ty : TType} (h : b.columns find e = true)
    (he : e.Is c name [stk, amt])
    (hname : name = match ty with | .b => "SET_BUY_TRIGGER" | .s => "SET_SELL_TRIGGER")
    (ha : b.acct c.userID = some a) (hprc : str2price id amt ≠ -1) : numericText amt = true := by
  obtain ⟨h, hcmd⟩ := Book.columns_command h he ha
  subst hname
  cases ty
  · simpa [command, hcmd, setTrigger, hprc] using h
  · simpa [command, hcmd, setTrigger, hprc] using h

theorem Columns.refunded {stk : CStr} {st : StockID} {t : TrigID} {tr : Trigger} (h : b.columns find e = true)
    (he : e.Is c "CANCEL_SET_BUY" [stk]) (ha : b.acct c.userID = some a) (hst : toStockID stk = some st)
    (hfind : find c.userID st .b = some t) (ht : b.trig t = some tr) :
    inNumeric (a.balance + tr.amount) = true := by
  obtain ⟨h, hcmd⟩ := Book.columns_command h he ha
  simpa [command, hcmd, cancelSetBuy, hst, hfind, ht] using h

theorem Columns.firedBuy {t : TrigID} {p now : ℤ} {tr : Trigger} (h : b.columns find e = true)
    (he : e = .examine t p now) (ht : b.trig t = some tr) (ha : b.acct tr.userObj = some a) (hty : tr.type = .b)
    (hpt : p < tr.trig) (hno : tr.amount.tdiv p ≠ 0) :
    ((((bigint tr.transID).isSome = true ∧ inBigint now = true) ∧ inNumeric (p * tr.amount.tdiv p) = true) ∧
      inNumeric (a.balance + tr.amount - p * tr.amount.tdiv p) = true) ∧
      inInteger (a.shares tr.stockObj + tr.amount.tdiv p) = true := by
  subst he
  simpa [Book.columns, ht, ha, hty, not_le.mpr hpt, fireBuy, hno] using h

theorem Columns.firedSell {t : TrigID} {p now n : ℤ} {tr : Trigger} (h : b.columns find e = true)
    (he : e = .examine t p now) (ht : b.trig t = some tr) (ha : b.acct tr.userObj = some a) (hty : tr.type = .s)
    (hpt : tr.trig < p) (ht0 : tr.trig ≠ 0) (hn : a.hold tr.stockObj = some n) (hn0 : n ≠ 0) :
    ((((bigint tr.transID).isSome = true ∧ inBigint now = true) ∧ inNumeric (p * sellNo n tr.amount p) = true) ∧
      inNumeric (a.balance + p * sellNo n tr.amount p) = true) ∧
      inInteger (n - sellNo n tr.amount p) = true := by
  subst he
  simpa [Book.columns, ht, ha, hty, not_le.mpr hpt, ht0, hn, fireSell, hn0] using h

/-- The database takes the request of a move. -/
theorem Move.taken (h : Move find b e out b') (hcols : b.columns find e = true) (hb : b.Priced)
    (hb' : b'.Priced) (hok : b.SalesCovered e)
    (howner : ∀ {t tr}, b.trig t = some tr → (b.acct tr.userObj).isSome) :
    ∀ st ∈ out.request, st.taken = true := by
  have hnumbered : ∀ {c : Cmd}, Columns.numbered c = true →
      (bigint c.transID).isSome = true ∧ inBigint c.now = true := fun h => Bool.and_eq_true_iff.mp h
  cases h with
  | idle => simp [Output.none]
  | opened => simpa [Stmt.taken] using numericText_zero
  | @added c amt a he ha hprc =>
    obtain ⟨⟨hc, hamt⟩, hbal⟩ := Columns.added hcols he ha hprc
    have hpos := (hb'.acct (Book.acct_setAcct_self b _ _)).funded
    obtain ⟨htid, hnow⟩ := hnumbered hc
    rw [List.forall_mem_cons, List.forall_mem_singleton]
    exact ⟨taken_updateBal hpos hbal, taken_insertTran htid (.inl rfl) hamt hnow rfl⟩
  | orderedBuy => simp [Output.none]
  | orderedSell => simp [Output.none]
  | cleared => simp [Output.none]
  | @bought c a st he ha hside hst =>
    obtain ⟨⟨⟨hc, hres⟩, hbal⟩, hno⟩ := Columns.bought hcols he ha hside hst
    have hpos := (hb'.acct (Book.acct_setAcct_self b _ _)).funded
    obtain ⟨htid, hnow⟩ := hnumbered hc
    rw [List.forall_mem_cons, List.forall_mem_cons, List.forall_mem_singleton]
    exact ⟨taken_takeStmt hno, taken_updateBal hpos hbal,
      taken_insertTran htid (.inr ⟨st, rfl⟩) (numericText_price2str ((hb.acct ha).reserve hside) hres) hnow rfl⟩
  | @sold c a st n he ha hside hst hn =>
    obtain ⟨⟨⟨hc, hres⟩, hbal⟩, hno⟩ := Columns.sold hcols he ha hside hst hn
    have hpos := (hb'.acct (Book.acct_setAcct_self b _ _)).funded
    obtain ⟨htid, hnow⟩ := hnumbered hc
    rw [List.forall_mem_cons, List.forall_mem_cons, List.forall_mem_singleton]
    exact ⟨taken_updateBal hpos hbal, hno,
      taken_insertTran htid (.inr ⟨st, rfl⟩) (numericText_price2str (hok.sold he ha hside) hres) hnow rfl⟩
  | @setBuy c stk amt a st t path he ha hprc hidle hbal hfind ht =>
    obtain ⟨⟨htid, hamt⟩, hleft⟩ := Columns.setBuy hcols he ha hprc hidle hbal
    have hpos := (hb'.acct (Book.acct_setAcct_self b _ _)).funded
    rw [List.forall_mem_cons, List.forall_mem_singleton]
    refine ⟨taken_updateBal hpos hleft, ?_⟩
    simp only [Stmt.taken, htid, hamt, numericText_zero, Bool.and_self]
  | @setSell c stk amt a st t path he ha hprc hidle hhold hfind ht =>
    obtain ⟨htid, hamt⟩ := Columns.setSell hcols he ha hprc hidle
    rw [List.forall_mem_singleton]
    simp only [Stmt.taken, htid, hamt, numericText_zero, Bool.and_self]
  | @priced c name stk amt t tr he hname hprc hfind ht hu =>
    obtain ⟨a, ha⟩ := Option.isSome_iff_exists.mp (hu ▸ howner ht)
    rw [List.forall_mem_singleton]
    exact Columns.priced hcols he hname ha hprc
  | @refunded c stk a t tr he ha hfind ht hu hty hst =>
    have hpos := (hb'.acct (Book.acct_setAcct_self b _ _)).funded
    rw [List.forall_mem_cons, List.forall_mem_singleton]
    exact ⟨taken_updateBal hpos (Columns.refunded hcols he ha hst hfind ht), rfl⟩
  | withdrawn =>
    rw [List.forall_mem_singleton]
    rfl
  | @firedBuy t p now tr a he ht ha hty hp hpt hno =>
    obtain ⟨⟨⟨⟨htid, hnow⟩, hcost⟩, hbal⟩, hshares⟩ := Columns.firedBuy hcols he ht ha hty hpt hno
    have hpos := (hb'.acct (Book.acct_setAcct_self b _ _)).funded
    have hcost0 : 0 ≤ p * tr.amount.tdiv p :=
      mul_nonneg (le_trans zero_le_one hp) (Int.tdiv_nonneg (hb.trig ht) (le_trans zero_le_one hp))
    rw [List.forall_mem_cons, List.forall_mem_cons, List.forall_mem_cons, List.forall_mem_singleton]
    exact ⟨taken_takeStmt hshares, taken_updateBal hpos hbal,
      taken_insertTran htid (.inr ⟨_, rfl⟩) (numericText_price2str hcost0 hcost) hnow rfl, rfl⟩
  | @firedSell t p now tr a n he ht ha hty hp hpt ht0 hn hn0 =>
    obtain ⟨⟨⟨⟨htid, hnow⟩, hsale⟩, hbal⟩, hshares⟩ := Columns.firedSell hcols he ht ha hty hpt ht0 hn hn0
    have hpos := (hb'.acct (Book.acct_setAcct_self b _ _)).funded
    have hsale0 := mul_nonneg (le_trans zero_le_one hp)
      (sellNo_nonneg (hok.fired he ht ha hty hpt ht0 hn hn0) (hb.trig ht) hp)
    rw [List.forall_mem_cons, List.forall_mem_cons, List.forall_mem_cons, List.forall_mem_singleton]
    exact ⟨hshares, taken_updateBal hpos hbal,
      taken_insertTran htid (.inr ⟨_, rfl⟩) (numericText_price2str hsale0 hsale) hnow rfl, rfl⟩

end Move

/-! ### Runs -/

theorem Db.exec_taken (db : Db) {st : Stmt} (h : st.taken = true) : (db.exec st).isSome := by
  have hnumeric : ∀ {v : CStr}, numericText v = true → ∃ x, numeric v = some x := by
    intro v hv
    obtain ⟨x, hx, -⟩ := (Option.any_eq_true _ _).mp hv
    exact ⟨x, hx⟩
  cases st with
  | insertAcct u bal | updateBal bal u =>
    obtain ⟨x, hx⟩ := hnumeric h
    simp [exec, hx]
  | insertStk | updateStk | deleteTrig => rfl
  | insertTran u tid st adj ts c =>
    simp only [Stmt.taken, Bool.and_eq_true] at h
    obtain ⟨x, hx⟩ := hnumeric h.1.1.2
    simp [exec, hx]
  | insertTrig u tid st ty funds value =>
    simp only [Stmt.taken, Bool.and_eq_true] at h
    obtain ⟨x, hx⟩ := hnumeric h.1.2
    obtain ⟨y, hy⟩ := hnumeric h.2
    simp [exec, hx, hy]
  | updateTrig value u st ty =>
    obtain ⟨x, hx⟩ := hnumeric h
    simp [exec, hx]

theorem Db.foldlM_taken : ∀ {req : List Stmt} (db : Db), (∀ st ∈ req, st.taken = true) →
    req.foldlM Db.exec db = some (db.run req) := by
  intro req
  induction req with
  | nil => exact fun db _ => rfl
  | cons st req ih =>
    intro db h
    obtain ⟨db₁, hst⟩ := Option.isSome_iff_exists.mp (db.exec_taken (h st List.mem_cons_self))
    have hrest := ih db₁ fun st' hst' => h st' (List.mem_cons_of_mem st hst')
    rw [Db.run, List.foldlM_cons, hst, Option.bind_eq_bind, Option.bind_some, hrest, Option.getD_some]

/-- The database answers a request that it takes, with the tables that the model has. -/
theorem answer_of_taken {req : List Stmt} (db : Db) (htaken : ∀ st ∈ req, st.taken = true) :
    db.answer req = some (db.run req) := by
  rw [Db.answer, if_pos ⟨statements_of_taken htaken, List.all_eq_true.mpr htaken⟩, Db.foldlM_taken db htaken]

/-- The database has answered every request, and its tables are those of its answers. -/
def Server.Answered (s : Server) : Prop := s.requests.foldlM Db.answer Db.init = some s.db

theorem queued_ne_nil {req : List Stmt} (h : req ≠ []) : queued req = [req] := by
  cases req with
  | nil => exact absurd rfl h
  | cons st req => rfl

theorem step_answered {s s' : Server} {e : Event} (hs : s.Kept) (ha : s.Answered) (hread : ReadAmounts s e)
    (htexts : RawTexts s e) (hok : SalesCovered s e) (hclears : RemovalClears s e)
    (hfits : Fits wrap64 s e) (hcols : Columns s e) (h : step wrap64 s e = some s') : s'.Kept ∧ s'.Answered := by
  obtain ⟨hs', out, hmove, -, hdb, hreq⟩ := step_takes hs hread htexts hok hclears hfits h
  have htaken := hmove.taken hcols hs.priced hs'.priced (SalesCovered.book hok)
    fun ht => by simpa [Server.book] using hs.wf.owner ht
  have hanswer : (queued out.request).foldlM Db.answer s.db = some (s.db.run out.request) := by
    cases hout : out.request with
    | nil => rfl
    | cons st req =>
      rw [← hout, queued_ne_nil (by simp [hout]), List.foldlM_cons, answer_of_taken _ htaken]
      rfl
  refine ⟨hs', ?_⟩
  rw [Server.Answered, hreq, List.foldlM_append, ha, hdb]
  exact hanswer

/-- In every run with amounts that are read as non-negative, in which every raw text denotes the
    cents that were read of it, no negative sale is settled, every removal clears its own slots,
    no result leaves 64 bits and the columns take what is written, the database takes every request and mirrors
    the memory. -/
theorem database_mirrors_memory {es : List Event} {s : Server}
    (hread : Along (step wrap64) ReadAmounts Server.init es)
    (htexts : Along (step wrap64) (fun s e => RawTexts s e) Server.init es)
    (hok : Along (step wrap64) (fun s e => SalesCovered s e) Server.init es)
    (hclears : Along (step wrap64) (fun s e => RemovalClears s e) Server.init es)
    (hfits : Along (step wrap64) (Fits wrap64) Server.init es)
    (hcols : Along (step wrap64) (fun s e => Columns s e) Server.init es)
    (h : exec (step wrap64) Server.init es = some s) : s.Answered ∧ s.Mirrored wrap64 := by
  have hkept : s.Kept ∧ s.Answered := by
    refine @exec_inv_along _ _ _ (fun s => s.Kept ∧ s.Answered) _ (fun s e s' hs hok hstep => ?_) es Server.init s
      ⟨kept_init, rfl⟩
      (along_and (along_and hread htexts) (along_and (along_and hok hclears) (along_and hfits hcols))) h
    obtain ⟨⟨hread, htexts⟩, ⟨hok, hclears⟩, hfits, hcols⟩ := hok
    exact step_answered hs.1 hs.2 hread htexts hok hclears hfits hcols hstep
  exact ⟨hkept.2, fun u usr hu => hkept.1.reloads hu⟩

/-- A buy trigger is set, priced and fires. -/
theorem database_mirrors_memory_fire :
    ∃ s, exec (step wrap64) Server.init escrowAndFire = some s ∧ s.Answered ∧ s.Mirrored wrap64 := by
  obtain ⟨s, hs⟩ : ∃ s, exec (step wrap64) Server.init escrowAndFire = some s :=
    Option.isSome_iff_exists.mp (by decide)
  exact ⟨s, hs, database_mirrors_memory (by decide) (by decide) (by decide) (by decide) (by decide)
    (by decide) hs⟩

/-- 12.5 is reserved as 1205 cents and written as 12.50. -/
def halfEscrow : List Event :=
  [.connect aUser, commandAt 100000 100 "ADD" "100.00",
    commandAt 100000 100 "SET_BUY_AMOUNT" "ABC,12.5"]

theorem halfEscrow_not_mirrored : ¬ ∀ es s,
    Along (step wrap64) (fun _ e => ∀ amt ∈ e.amounts, 0 ≤ str2price id amt) Server.init es →
    exec (step wrap64) Server.init es = some s → s.Mirrored wrap64 := by
  intro h
  have hrun : ∃ s ∈ exec (step wrap64) Server.init halfEscrow, ∃ usr ∈ s.user aUser,
      (∃ r ∈ s.db.loadTriggers wrap64 aUser, r.2 = (stockABC, .b, 1250, 0)) ∧
      ∀ t ∈ s.mem.linked stockABC, (s.mem.obj t).map Trigger.amount = some 1205 := by decide
  obtain ⟨s, hs, usr, husr, ⟨⟨transID, _⟩, hrow, rfl⟩, hall⟩ := hrun
  have hreloads := h halfEscrow s (by decide) hs _ usr husr
  obtain ⟨t, ht, tr, htr, _, _, hamount, _⟩ :=
    (hreloads.trigger_iff stockABC .b 1250 0).mp ⟨transID, hrow⟩
  have hmem := hall t ht
  rw [htr, Option.map_some, hamount] at hmem
  exact absurd hmem (by decide)

end TradeC
