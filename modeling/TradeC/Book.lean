import TradeC.System

/-! The books: what the commands and the firings are for.

    A `Book` has the accounts, with their holdings as a map, and the triggers. `Move` says which
    changes an event may make, in exact arithmetic: one constructor for each branch that changes
    something, with the branch's guards, the accTrans lines it logs, what it settles and its request.
    `find` is the lookup of a user's trigger. -/

namespace TradeC

structure Account where
  balance : ℤ
  stockObj : Option StockID
  reserve : ℤ
  no : ℤ
  buysell : ℤ
  hold : StockID → Option ℤ

structure Book where
  acct : UserID → Option Account
  trig : TrigID → Option Trigger

/-- What a step shows: user, action and funds of its accTrans lines; settlements; the request. -/
structure Output where
  logs : List (UserID × CStr × CStr)
  settled : List (UserID × Settlement)
  request : List Stmt

def Output.none : Output := ⟨[], [], []⟩

def Account.new : Account := ⟨0, .none, 0, 0, 0, fun _ => .none⟩

def Account.clear (a : Account) : Account :=
  { a with stockObj := none, reserve := 0, no := 0, buysell := 0 }

def Account.setHold (a : Account) (st : StockID) (n : ℤ) : Account :=
  { a with hold := Function.update a.hold st (some n) }

/-- The shares held, none counting as zero. -/
def Account.shares (a : Account) (st : StockID) : ℤ := (a.hold st).getD 0

/-- The statement that brings `n` more shares of `st` into the table. -/
def Account.takeStmt (a : Account) (u : UserID) (st : StockID) (n : ℤ) : Stmt :=
  match a.hold st with
  | none => .insertStk u st n
  | some k => .updateStk (k + n) u st

namespace Book

def setAcct (b : Book) (u : UserID) (a : Account) : Book :=
  { b with acct := Function.update b.acct u (some a) }

def setTrig (b : Book) (t : TrigID) (tr : Option Trigger) : Book :=
  { b with trig := Function.update b.trig t tr }

end Book

/-- The event is the command `name` with these fields. -/
def Event.Is (e : Event) (c : Cmd) (name : String) (fields : List CStr) : Prop :=
  ∃ comm, e = .command c comm ∧ c.userCmd = name.toList ∧ delimSepNoCpy comm ',' = fields

/-- The shares a SELL or a firing sells for an amount: one more than the amount pays for, at most
    those held. -/
def sellNo (num prc quotePrice : ℤ) : ℤ := min num (prc.tdiv quotePrice + 1)

theorem sellNo_eq (num prc quotePrice : ℤ) :
    (if num < prc.tdiv quotePrice + 1 then num else prc.tdiv quotePrice + 1) =
      sellNo num prc quotePrice := by
  unfold sellNo
  split_ifs <;> omega

inductive Move (find : UserID → StockID → TType → Option TrigID) (b : Book) (e : Event) :
    Output → Book → Prop
  | idle : Move find b e .none b
  | opened {u} (he : e = .connect u) (hu : b.acct u = none) :
    Move find b e ⟨[], [], [.insertAcct u "0.00".toList]⟩ (b.setAcct u .new)
  | added {c amt a} (he : e.Is c "ADD" [amt]) (ha : b.acct c.userID = some a)
      (hprc : str2price id amt ≠ -1) :
    Move find b e
      ⟨[(c.userID, "add".toList, amt)], [(c.userID, .add (str2price id amt))],
        [.updateBal (price2str (a.balance + str2price id amt)) c.userID,
          c.insertTran "...".toList amt 'a']⟩
      (b.setAcct c.userID { a with balance := a.balance + str2price id amt })
  | orderedBuy {c stk amt a st q} (he : e.Is c "BUY" [stk, amt]) (ha : b.acct c.userID = some a)
      (hprc : str2price id amt ≠ -1) (hidle : a.buysell = 0) (hbal : str2price id amt ≤ a.balance)
      (hq : 1 ≤ q) (hno : (str2price id amt).tdiv q ≠ 0) :
    Move find b e .none (b.setAcct c.userID
      { a with
        stockObj := some st, reserve := q * (str2price id amt).tdiv q
        no := (str2price id amt).tdiv q, buysell := 1 })
  | orderedSell {c stk amt a st q n} (he : e.Is c "SELL" [stk, amt])
      (ha : b.acct c.userID = some a) (hprc : str2price id amt ≠ -1) (hidle : a.buysell = 0)
      (hn : a.hold st = some n) (hn0 : n ≠ 0) (hq : 1 ≤ q) :
    Move find b e .none (b.setAcct c.userID
      { a with
        stockObj := some st, reserve := q * sellNo n (str2price id amt) q
        no := sellNo n (str2price id amt) q, buysell := -1 })
  | cleared {u a} (ha : b.acct u = some a) : Move find b e .none (b.setAcct u a.clear)
  | bought {c a st} (he : e.Is c "COMMIT_BUY" []) (ha : b.acct c.userID = some a)
      (hside : a.buysell = 1) (hst : a.stockObj = some st) :
    Move find b e
      ⟨[(c.userID, "remove".toList, price2str a.reserve)], [(c.userID, .commitBuy a.reserve)],
        [a.takeStmt c.userID st a.no, .updateBal (price2str (a.balance - a.reserve)) c.userID,
          c.insertTran st.str (price2str a.reserve) 'b']⟩
      (b.setAcct c.userID
        ({ a with balance := a.balance - a.reserve }.setHold st (a.shares st + a.no)).clear)
  | sold {c a st n} (he : e.Is c "COMMIT_SELL" []) (ha : b.acct c.userID = some a)
      (hside : a.buysell = -1) (hst : a.stockObj = some st) (hn : a.hold st = some n) :
    Move find b e
      ⟨[(c.userID, "add".toList, price2str a.reserve)], [(c.userID, .commitSell a.reserve)],
        [.updateBal (price2str (a.balance + a.reserve)) c.userID,
          .updateStk (n - a.no) c.userID st, c.insertTran st.str (price2str a.reserve) 's']⟩
      (b.setAcct c.userID ({ a with balance := a.balance + a.reserve }.setHold st (n - a.no)).clear)
  | setBuy {c stk amt a st t path} (he : e.Is c "SET_BUY_AMOUNT" [stk, amt])
      (ha : b.acct c.userID = some a) (hprc : str2price id amt ≠ -1) (hidle : a.buysell = 0)
      (hbal : str2price id amt ≤ a.balance) (hfind : find c.userID st .b = none)
      (ht : b.trig t = none) :
    Move find b e
      ⟨[(c.userID, "remove".toList, amt)], [],
        [.updateBal (price2str (a.balance - str2price id amt)) c.userID,
          .insertTrig c.userID c.transID st .b amt "0.00".toList]⟩
      ((b.setAcct c.userID { a with balance := a.balance - str2price id amt }).setTrig t
        (some ⟨.b, 0, str2price id amt, c.transID, path, c.userID, st⟩))
  | setSell {c stk amt a st t path} (he : e.Is c "SET_SELL_AMOUNT" [stk, amt])
      (ha : b.acct c.userID = some a) (hprc : str2price id amt ≠ -1) (hidle : a.buysell = 0)
      (hhold : (a.hold st).isSome) (hfind : find c.userID st .s = none) (ht : b.trig t = none) :
    Move find b e ⟨[], [], [.insertTrig c.userID c.transID st .s amt "0.00".toList]⟩
      (b.setTrig t (some ⟨.s, 0, str2price id amt, c.transID, path, c.userID, st⟩))
  | priced {c name stk amt t tr} (he : e.Is c name [stk, amt])
      (hname : name = match tr.type with | .b => "SET_BUY_TRIGGER" | .s => "SET_SELL_TRIGGER")
      (hprc : str2price id amt ≠ -1) (hfind : find c.userID tr.stockObj tr.type = some t)
      (ht : b.trig t = some tr) (hu : tr.userObj = c.userID) :
    Move find b e ⟨[], [], [.updateTrig amt c.userID tr.stockObj tr.type]⟩
      (b.setTrig t (some { tr with trig := str2price id amt }))
  | refunded {c stk a t tr} (he : e.Is c "CANCEL_SET_BUY" [stk]) (ha : b.acct c.userID = some a)
      (hfind : find c.userID tr.stockObj .b = some t) (ht : b.trig t = some tr)
      (hu : tr.userObj = c.userID) (hty : tr.type = .b) (hst : toStockID stk = some tr.stockObj) :
    Move find b e
      ⟨[(c.userID, "add".toList, price2str tr.amount)], [],
        [.updateBal (price2str (a.balance + tr.amount)) c.userID,
          .deleteTrig c.userID tr.stockObj .b]⟩
      ((b.setAcct c.userID { a with balance := a.balance + tr.amount }).setTrig t none)
  | withdrawn {c stk t tr} (he : e.Is c "CANCEL_SET_SELL" [stk])
      (hfind : find c.userID tr.stockObj .s = some t) (ht : b.trig t = some tr)
      (hu : tr.userObj = c.userID) (hty : tr.type = .s) :
    Move find b e ⟨[], [], [.deleteTrig c.userID tr.stockObj .s]⟩ (b.setTrig t none)
  | firedBuy {t p now tr a} (he : e = .examine t p now) (ht : b.trig t = some tr)
      (ha : b.acct tr.userObj = some a) (hty : tr.type = .b) (hp : 1 ≤ p) (hpt : p < tr.trig)
      (hno : tr.amount.tdiv p ≠ 0) :
    Move find b e
      ⟨[(tr.userObj, "remove".toList, price2str (p * tr.amount.tdiv p))],
        [(tr.userObj, .firedBuy (p * tr.amount.tdiv p))],
        [a.takeStmt tr.userObj tr.stockObj (tr.amount.tdiv p),
          .updateBal (price2str (a.balance + tr.amount - p * tr.amount.tdiv p)) tr.userObj,
          .insertTran tr.userObj tr.transID tr.stockObj.str (price2str (p * tr.amount.tdiv p)) now 'g',
          .deleteTrig tr.userObj tr.stockObj tr.type]⟩
      ((b.setAcct tr.userObj
        ({ a with balance := a.balance + tr.amount - p * tr.amount.tdiv p }.setHold tr.stockObj
          (a.shares tr.stockObj + tr.amount.tdiv p))).setTrig t none)
  | firedSell {t p now tr a n} (he : e = .examine t p now) (ht : b.trig t = some tr)
      (ha : b.acct tr.userObj = some a) (hty : tr.type = .s) (hp : 1 ≤ p) (hpt : tr.trig < p)
      (ht0 : tr.trig ≠ 0) (hn : a.hold tr.stockObj = some n) (hn0 : n ≠ 0) :
    Move find b e
      ⟨[(tr.userObj, "add".toList, price2str (p * sellNo n tr.amount p))],
        [(tr.userObj, .firedSell (p * sellNo n tr.amount p))],
        [.updateStk (n - sellNo n tr.amount p) tr.userObj tr.stockObj,
          .updateBal (price2str (a.balance + p * sellNo n tr.amount p)) tr.userObj,
          .insertTran tr.userObj tr.transID tr.stockObj.str (price2str (p * sellNo n tr.amount p))
            now 'h',
          .deleteTrig tr.userObj tr.stockObj tr.type]⟩
      ((b.setAcct tr.userObj
        ({ a with balance := a.balance + p * sellNo n tr.amount p }.setHold tr.stockObj
          (n - sellNo n tr.amount p))).setTrig t none)

end TradeC
