import TradeC.Command

/-! The transaction server as a system of atomic steps.

    A step is one user being loaded (`addUser`, from its first message), one command, one quote that
    the trigger handler fetches, or one pass of the sweep in `trigger_handler` over a trigger. -/

namespace TradeC

/-! ### Firing -/

/-- The end of both firing branches: `removeTrigger`, and the request. -/
def Server.consume (s : Server) (t : TrigID) (cTrigger : Trigger) (req : List Stmt) :
    Option Server :=
  (s.mem.removeTrigger t).map fun r =>
    ({ s with mem := r.1 }).dbenq
      (req ++ [Stmt.deleteTrig cTrigger.userObj cTrigger.stockObj cTrigger.type])

namespace Sweep

variable (w : ℤ → ℤ) (s : Server) (t : TrigID) (cTrigger : Trigger) (cUser : User)
  (quotePrice now : ℤ)

def fireBuy : Option Server :=
  let amountPrc := cTrigger.amount
  let userID := cTrigger.userObj
  let stockID := cTrigger.stockObj
  let numStock := amountPrc.tdiv quotePrice
  if numStock = 0 then some s
  else
    let tbuy := w (quotePrice * numStock)
    let strPrcMod := price2str tbuy
    let s := s.lenq (.accTrans now cTrigger.transID "remove".toList userID strPrcMod)
    let (usTree, stk) := takeStock w userID cUser.usTree stockID numStock
    let balance := w (w (cUser.balance + amountPrc) - tbuy)
    let s := s.settle userID (.firedBuy tbuy)
    let s := s.setUser userID { cUser with balance, usTree }
    s.consume t cTrigger [stk, .updateBal (price2str balance) userID,
      .insertTran userID cTrigger.transID stockID.str strPrcMod now 'g']

def fireSell : Option Server :=
  let amountPrc := cTrigger.amount
  let userID := cTrigger.userObj
  let stockID := cTrigger.stockObj
  match getUserStock cUser.usTree stockID with
  | none => some s
  | some cUserStock =>
    if cUserStock.num = 0 then some s
    else
      let numStock := w (amountPrc.tdiv quotePrice + 1)
      let numStock := if cUserStock.num < numStock then cUserStock.num else numStock
      let tsell := w (quotePrice * numStock)
      let strPrcMod := price2str tsell
      let num := w (cUserStock.num - numStock)
      let usTree := setNum cUser.usTree stockID cUserStock num
      let balance := w (cUser.balance + tsell)
      let s := s.lenq (.accTrans now cTrigger.transID "add".toList userID strPrcMod)
      let s := s.settle userID (.firedSell tsell)
      let s := s.setUser userID { cUser with balance, usTree }
      s.consume t cTrigger [.updateStk num userID stockID, .updateBal (price2str balance) userID,
        .insertTran userID cTrigger.transID stockID.str strPrcMod now 'h']

/-- The body of the sweep for one trigger: which branch, and the branch. -/
def examine : Option Server :=
  (s.mem.obj t).bind fun cTrigger =>
    (s.user cTrigger.userObj).bind fun cUser =>
      let trigPrc := cTrigger.trig
      match cTrigger.type with
      | .b =>
        if quotePrice < trigPrc then fireBuy w s t cTrigger cUser quotePrice now else some s
      | .s =>
        if quotePrice > trigPrc ∧ trigPrc ≠ 0 then fireSell w s t cTrigger cUser quotePrice now
        else some s

end Sweep

/-! ### Loading a user -/

/-- What `addUser` reads of a user's rows in `triggers`: transaction, stock, type, amount, price. -/
def Db.loadTriggers (w : ℤ → ℤ) (db : Db) (u : UserID) : List (CStr × StockID × TType × ℤ × ℤ) :=
  (db.triggers.filter fun r => r.userID = u).map fun r =>
    (r.transID, r.stockID, r.type, str2price w (Db.text r.reservedFunds),
      str2price w (Db.text r.triggerValue))

/-- What `addUser` reads of a user's rows in `stocks`. -/
def Db.loadStocks (db : Db) (u : UserID) : List (StockID × ℤ) :=
  (db.stocks.filter fun r => r.userID = u).map fun r => (r.stockID, r.amount)

/-- What `addUser` reads of a user's row in `accounts`: with no row, the balance stays as `calloc`
    made it. -/
def Db.loadBalance (w : ℤ → ℤ) (db : Db) (u : UserID) : ℤ :=
  match db.accounts.find? fun r => r.1 = u with
  | some r => str2price w (Db.text r.2)
  | none => 0

/-- `addUser`, and the `insertAcct` that `connection_handler` sends after it. -/
def addUser (w : ℤ → ℤ) (s : Server) (userID : UserID) : Server :=
  let s := (s.db.loadTriggers w userID).foldl (fun s (tID, stockID, buysell, amountPrc, trigPrc) =>
    let s := s.findStock stockID
    { s with mem := (s.mem.addTrigger userID tID stockID buysell amountPrc trigPrc).1 }) s
  let stocks := s.db.loadStocks userID
  let s := stocks.foldl (fun s (stockID, _) => s.findStock stockID) s
  let usTree := stocks.foldl (fun us (stockID, num) => (addUserStock us stockID num).1) Trie.empty
  let s := s.setUser userID ⟨s.db.loadBalance w userID, 0, none, 0, 0, 0, usTree⟩
  s.dbenq [.insertAcct userID "0.00".toList]

/-! ### Steps -/

inductive Event where
  | connect (userID : UserID)
  | command (c : Cmd) (commStr : Option CStr)
  | quote (stockID : StockID) (q : Quote)
  | examine (t : TrigID) (quotePrice now : ℤ)

/-- A user is loaded once. The sweep examines triggers of the rings of the stock list, at a price of
    at least 1. -/
def step (w : ℤ → ℤ) (s : Server) : Event → Option Server
  | .connect userID => if (s.user userID).isSome then none else some (addUser w s userID)
  | .command c commStr => (commandHandler w s c commStr).map Prod.fst
  | .quote stockID q => some (s.setQuote stockID q)
  | .examine t quotePrice now =>
    if 1 ≤ quotePrice ∧ s.stocks.any fun st => t ∈ s.mem.linked st then
      Sweep.examine w s t quotePrice now
    else none

/-- A command of one user at a time, with the price of the quote that it gets if it asks for one. -/
def commandAt (now price : ℤ) (name : String) (fields : Option String) : Event :=
  .command ⟨"1".toList, name.toList, aUser, now, ⟨price, now⟩⟩ (fields.map String.toList)

end TradeC
