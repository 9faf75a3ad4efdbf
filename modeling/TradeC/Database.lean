import TradeC.Price
import TradeC.Trigger.Basic

/-! The database: the SQL templates, and what their statements do to the tables.

    A `Stmt` is a template with its values; `Stmt.text` is the `sprintf` of the template. `Db` keeps
    the tables that `addUser` reads back, with `numeric(15,2)` columns in cents. A request runs as
    one transaction: when one of its statements has a literal that is no number, nothing of it is
    applied. `exec` and `run` are about the sums alone: that the text says what its statements say, and that the
    columns take the Trans_ID and the sizes of the numbers, is a condition of its own (`Columns`). -/

namespace TradeC
open Decimal

def TType.char : TType → Char
  | .b => 'b'
  | .s => 's'

/-- The templates `insertAcct` to `deleteTrig`. -/
inductive Stmt where
  | insertAcct (userID : UserID) (balance : CStr)
  | updateBal (balance : CStr) (userID : UserID)
  | insertStk (userID : UserID) (stockID : StockID) (amount : ℤ)
  | updateStk (amount : ℤ) (userID : UserID) (stockID : StockID)
  | insertTran (userID : UserID) (transID stockID adjustment : CStr) (timestamp : ℤ) (command : Char)
  | insertTrig (userID : UserID) (transID : CStr) (stockID : StockID) (type : TType)
      (reservedFunds triggerValue : CStr)
  | updateTrig (triggerValue : CStr) (userID : UserID) (stockID : StockID) (type : TType)
  | deleteTrig (userID : UserID) (stockID : StockID) (type : TType)

/-- A piece of a template's text: text of the template itself, a value inside quotes, a value that
    stands bare. -/
inductive Piece where
  | lit (s : String)
  | quoted (v : CStr)
  | bare (v : CStr)

def Piece.text : Piece → CStr
  | .lit s => s.toList
  | .quoted v => v
  | .bare v => v

def Stmt.pieces : Stmt → List Piece
  | .insertAcct u bal =>
    [.lit "INSERT INTO accounts (User_ID,Balance) SELECT '", .quoted u.str, .lit "', ", .bare bal,
      .lit " WHERE NOT EXISTS (SELECT * FROM accounts WHERE User_ID = '", .quoted u.str, .lit "');"]
  | .updateBal bal u =>
    [.lit "UPDATE accounts SET balance = '", .quoted bal, .lit "' WHERE user_id = '",
      .quoted u.str, .lit "';"]
  | .insertStk u st n =>
    [.lit "INSERT INTO stocks (User_ID,Stock_ID,Amount) VALUES ('", .quoted u.str, .lit "', '",
      .quoted st.str, .lit "', ", .bare (ld n), .lit ");"]
  | .updateStk n u st =>
    [.lit "UPDATE stocks SET amount = ", .bare (ld n), .lit " WHERE user_id = '", .quoted u.str,
      .lit "' AND stock_id = '", .quoted st.str, .lit "';"]
  | .insertTran u tid st adj ts c =>
    [.lit "INSERT INTO transactions (User_ID,Trans_ID,Stock_ID,Adjustment,Timestamp,Command) VALUES ('",
      .quoted u.str, .lit "', '", .quoted tid, .lit "', '", .quoted st, .lit "', ", .bare adj,
      .lit ", ", .bare (ld ts), .lit ", '", .quoted [c], .lit "');"]
  | .insertTrig u tid st ty funds value =>
    [.lit "INSERT INTO triggers (User_ID,Trans_ID,Stock_ID,Trigger_Type,Reserved_Funds,Trigger_Value) VALUES ('",
      .quoted u.str, .lit "', '", .quoted tid, .lit "', '", .quoted st.str, .lit "', '",
      .quoted [ty.char], .lit "', ", .bare funds, .lit ", ", .bare value, .lit ");"]
  | .updateTrig value u st ty =>
    [.lit "UPDATE triggers SET trigger_value = ", .bare value, .lit " WHERE user_id = '",
      .quoted u.str, .lit "' AND stock_id = '", .quoted st.str, .lit "' AND Trigger_Type = '",
      .quoted [ty.char], .lit "';"]
  | .deleteTrig u st ty =>
    [.lit "DELETE FROM triggers WHERE User_ID = '", .quoted u.str, .lit "' AND Stock_ID = '",
      .quoted st.str, .lit "' AND Trigger_Type = '", .quoted [ty.char], .lit "';"]

def Stmt.text (st : Stmt) : CStr := st.pieces.flatMap Piece.text

/-- The request string that a list of `sprintf`s leaves in `dbStr`. -/
def requestText (req : List Stmt) : CStr := req.flatMap Stmt.text

/-! ### The tables -/

structure TrigRow where
  userID : UserID
  transID : CStr
  stockID : StockID
  type : TType
  reservedFunds : ℤ
  triggerValue : ℤ

structure StkRow where
  userID : UserID
  stockID : StockID
  amount : ℤ

structure Db where
  accounts : List (UserID × ℤ)
  stocks : List StkRow
  triggers : List TrigRow

namespace Db

def init : Db := ⟨[], [], []⟩

/-- One statement that its columns take, when its sums are numbers. `transactions` is never read, so only the
    sum of `insertTran` matters. -/
def exec (db : Db) : Stmt → Option Db
  | .insertAcct u bal => (numeric bal).map fun x =>
    if db.accounts.any (·.1 = u) then db else { db with accounts := db.accounts ++ [(u, x)] }
  | .updateBal bal u => (numeric bal).map fun x =>
    { db with accounts := db.accounts.map fun r => if r.1 = u then (u, x) else r }
  | .insertStk u st n => some { db with stocks := db.stocks ++ [⟨u, st, n⟩] }
  | .updateStk n u st => some { db with stocks := db.stocks.map fun r =>
      if r.userID = u ∧ r.stockID = st then { r with amount := n } else r }
  | .insertTran _ _ _ adj _ _ => (numeric adj).map fun _ => db
  | .insertTrig u tid st ty funds value => (numeric funds).bind fun f => (numeric value).map fun v =>
    { db with triggers := db.triggers ++ [⟨u, tid, st, ty, f, v⟩] }
  | .updateTrig value u st ty => (numeric value).map fun v =>
    { db with triggers := db.triggers.map fun r =>
        if r.userID = u ∧ r.stockID = st ∧ r.type = ty then { r with triggerValue := v } else r }
  | .deleteTrig u st ty => some { db with triggers := db.triggers.filter fun r =>
      ¬ (r.userID = u ∧ r.stockID = st ∧ r.type = ty) }

/-- One request, as `PQexec` runs it. One that is refused changes nothing, and `dbWrite_handler` asks it again
    until it is taken; the command waits for that, which `run` leaves open. -/
def run (db : Db) (req : List Stmt) : Db := (req.foldlM exec db).getD db

/-- A `numeric(15,2)` value as it is read back. -/
def text (x : ℤ) : CStr := if x < 0 then '-' :: price2str (-x) else price2str x

end Db
end TradeC
