import TradeC.Server

/-! The commands of `command_handler`, one definition for each branch.

    A branch gets the state, the command with what the environment supplies (the clock, and the quote
    that is fetched if one is asked for), the user record and the arguments; it gives the new state
    and the reply. `w` is applied where the source stores a signed 64-bit result. A branch has no
    result (`none`) where the source would dereference NULL or write outside of `comm`. -/

namespace TradeC

structure Cmd where
  transID : CStr
  userCmd : CStr
  userID : UserID
  now : ℤ
  quote : Quote

def spc : CStr := " ".toList

def Cmd.logLine (c : Cmd) (stockID file funds : CStr) : LogLine :=
  .userCmd c.now c.transID c.userCmd c.userID stockID file funds

def Cmd.accTrans (c : Cmd) (action : String) (funds : CStr) : LogLine :=
  .accTrans c.now c.transID action.toList c.userID funds

def Cmd.insertTran (c : Cmd) (stockID adjustment : CStr) (command : Char) : Stmt :=
  .insertTran c.userID c.transID stockID adjustment c.now command

/-- `validStockID`, with the string it has accepted. -/
def toStockID (str : CStr) : Option StockID :=
  if h : validStockID str = true then some ⟨str, h⟩ else none

/-- A quote is asked for when the one of the stock is too old. -/
def Server.freshQuote (s : Server) (c : Cmd) (stockID : StockID) : Server :=
  if c.now - (s.stock stockID).ts > quoteTo then s.setQuote stockID c.quote else s

/-- How COMMIT_BUY and a firing raise a holding, or add it: the tree, and the statement for it. -/
def takeStock (w : ℤ → ℤ) (userID : UserID) (usTree : Trie UserStock) (stockID : StockID)
    (numStock : ℤ) : Trie UserStock × Stmt :=
  match getUserStock usTree stockID with
  | none => ((addUserStock usTree stockID numStock).1, .insertStk userID stockID numStock)
  | some cUserStock =>
    let num := w (cUserStock.num + numStock)
    (setNum usTree stockID cUserStock num, .updateStk num userID stockID)

namespace Command

variable (w : ℤ → ℤ) (s : Server) (c : Cmd) (cUser : User)

def add (amt : CStr) : Server × Reply :=
  let prc := str2price w amt
  if prc = -1 then (s, .fail (-19) [])
  else
    let s := s.lenq (c.logLine spc spc amt)
    let balance := w (cUser.balance + prc)
    let s := s.setUser c.userID { cUser with balance }
    let s := s.lenq (c.accTrans "add" amt)
    let s := s.settle c.userID (.add prc)
    let s := s.dbenq [.updateBal (price2str balance) c.userID, c.insertTran "...".toList amt 'a']
    (s, .succ [])

def quote (stk : CStr) : Server × Reply :=
  match toStockID stk with
  | none => (s, .fail (-17) [])
  | some stockID =>
    let s := s.lenq (c.logLine stk spc spc)
    let s := s.findStock stockID
    let s := if (s.stock stockID).ts = 0 then s.setQuote stockID c.quote else s
    (s, .succ [(s.stock stockID).price, (s.stock stockID).ts])

def buy (stk amt : CStr) : Server × Reply :=
  match toStockID stk with
  | none => (s, .fail (-17) [])
  | some stockID =>
    let prc := str2price w amt
    if prc = -1 then (s, .fail (-19) [])
    else
      let s := s.lenq (c.logLine stk spc amt)
      if cUser.buysell ≠ 0 then (s, .fail (-10) [])
      else if cUser.balance < prc then (s, .fail (-14) [])
      else
        let s := s.findStock stockID
        let s := s.freshQuote c stockID
        let quotePrice := (s.stock stockID).price
        if quotePrice < 1 then (s, .fail (-21) [])
        else
          let numStock := prc.tdiv quotePrice
          if numStock = 0 then (s, .fail (-11) [quotePrice, (s.stock stockID).ts])
          else
            let buy := w (quotePrice * numStock)
            let s := s.setUser c.userID
              { cUser with
                promptTime := (s.stock stockID).ts, stockObj := some stockID, reserve := buy
                no := numStock, buysell := 1 }
            (s, .succ [numStock, quotePrice, (s.stock stockID).ts])

def commitBuy : Option (Server × Reply) :=
  let s := s.lenq (c.logLine spc spc spc)
  if cUser.buysell ≠ 1 then some (s, .fail (-12) [])
  else if c.now - cUser.promptTime > quoteTo then
    some (s.setUser c.userID cUser.clearOrder, .fail (-13) [])
  else
    let strPrcMod := price2str cUser.reserve
    let balance := w (cUser.balance - cUser.reserve)
    match cUser.stockObj with
    | none => none
    | some stockID =>
      let (usTree, stk) := takeStock w c.userID cUser.usTree stockID cUser.no
      let s := s.lenq (c.accTrans "remove" strPrcMod)
      let s := s.settle c.userID (.commitBuy cUser.reserve)
      let s := s.dbenq [stk, .updateBal (price2str balance) c.userID,
        c.insertTran stockID.str strPrcMod 'b']
      let s := s.setUser c.userID ({ cUser with balance, usTree }).clearOrder
      some (s, .succ [])

/-- CANCEL_BUY and CANCEL_SELL, which differ in the side they look for. -/
def cancelOrder (side : ℤ) : Server × Reply :=
  let s := s.lenq (c.logLine spc spc spc)
  if cUser.buysell ≠ side then (s, .fail (-12) [])
  else (s.setUser c.userID cUser.clearOrder, .succ [])

def cancelBuy : Server × Reply := cancelOrder s c cUser 1

def cancelSell : Server × Reply := cancelOrder s c cUser (-1)

def sell (stk amt : CStr) : Server × Reply :=
  match toStockID stk with
  | none => (s, .fail (-17) [])
  | some stockID =>
    let prc := str2price w amt
    if prc = -1 then (s, .fail (-19) [])
    else
      let s := s.lenq (c.logLine stk spc amt)
      let s := s.findStock stockID
      match getUserStock cUser.usTree stockID with
      | none => (s, .fail (-15) [])
      | some cUserStock =>
        if cUserStock.num = 0 then (s, .fail (-15) [])
        else if cUser.buysell ≠ 0 then (s, .fail (-10) [])
        else
          let s := s.freshQuote c stockID
          let quotePrice := (s.stock stockID).price
          if quotePrice < 1 then (s, .fail (-21) [])
          else
            let numStock := w (prc.tdiv quotePrice + 1)
            let numStock := if cUserStock.num < numStock then cUserStock.num else numStock
            let sell := w (quotePrice * numStock)
            let s := s.setUser c.userID
              { cUser with
                promptTime := (s.stock stockID).ts, stockObj := some stockID, reserve := sell
                no := numStock, buysell := -1 }
            (s, .succ [numStock, quotePrice, (s.stock stockID).ts])

def commitSell : Option (Server × Reply) :=
  let s := s.lenq (c.logLine spc spc spc)
  if cUser.buysell ≠ -1 then some (s, .fail (-12) [])
  else if c.now - cUser.promptTime > quoteTo then
    some (s.setUser c.userID cUser.clearOrder, .fail (-13) [])
  else
    match cUser.stockObj with
    | none => none
    | some stockID =>
      match getUserStock cUser.usTree stockID with
      | none => some (s, .fail (-15) [])
      | some cUserStock =>
        let strPrcMod := price2str cUser.reserve
        let balance := w (cUser.balance + cUser.reserve)
        let s := s.lenq (c.accTrans "add" strPrcMod)
        let num := w (cUserStock.num - cUser.no)
        let s := s.settle c.userID (.commitSell cUser.reserve)
        let s := s.dbenq [.updateBal (price2str balance) c.userID, .updateStk num c.userID stockID,
          c.insertTran stockID.str strPrcMod 's']
        let usTree := setNum cUser.usTree stockID cUserStock num
        let s := s.setUser c.userID ({ cUser with balance, usTree }).clearOrder
        some (s, .succ [])

def setBuyAmount (stk amt : CStr) : Server × Reply :=
  match toStockID stk with
  | none => (s, .fail (-17) [])
  | some stockID =>
    let prc := str2price w amt
    if prc = -1 then (s, .fail (-19) [])
    else
      let s := s.lenq (c.logLine stk spc amt)
      if cUser.buysell ≠ 0 then (s, .fail (-10) [])
      else if cUser.balance < prc then (s, .fail (-14) [])
      else
        let s := s.findStock stockID
        match s.mem.getTrigger c.userID stockID .b with
        | some _ => (s, .fail (-16) [])
        | none =>
          let balance := w (cUser.balance - prc)
          let s := s.setUser c.userID { cUser with balance }
          let s := s.lenq (c.accTrans "remove" amt)
          let s := { s with mem := (s.mem.addTrigger c.userID c.transID stockID .b prc 0).1 }
          let s := s.dbenq [.updateBal (price2str balance) c.userID,
            .insertTrig c.userID c.transID stockID .b amt "0.00".toList]
          (s, .succ [])

def cancelSetBuy (stk : CStr) : Option (Server × Reply) :=
  match toStockID stk with
  | none => some (s, .fail (-17) [])
  | some stockID =>
    let s := s.lenq (c.logLine stk spc spc)
    let s := s.findStock stockID
    match s.mem.getTrigger c.userID stockID .b with
    | none => some (s, .fail (-22) [])
    | some t =>
      (s.mem.obj t).bind fun cTrigger =>
        let strPrcMod := price2str cTrigger.amount
        let balance := w (cUser.balance + cTrigger.amount)
        let s := s.setUser c.userID { cUser with balance }
        (s.mem.removeTrigger t).map fun r =>
          let s := { s with mem := r.1 }
          let s := s.lenq (c.accTrans "add" strPrcMod)
          let s := s.dbenq [.updateBal (price2str balance) c.userID,
            .deleteTrig c.userID stockID .b]
          (s, .succ [])

/-- `cTrigger->trig = prc`. -/
def setTrig (m : Mem) (t : TrigID) (prc : ℤ) : Mem :=
  { m with obj := Function.update m.obj t ((m.obj t).map fun tr => { tr with trig := prc }) }

/-- SET_BUY_TRIGGER and SET_SELL_TRIGGER, which differ in the type. -/
def setTrigger (type : TType) (stk amt : CStr) : Server × Reply :=
  match toStockID stk with
  | none => (s, .fail (-17) [])
  | some stockID =>
    let prc := str2price w amt
    if prc = -1 then (s, .fail (-19) [])
    else
      let s := s.lenq (c.logLine stk spc amt)
      let s := s.findStock stockID
      match s.mem.getTrigger c.userID stockID type with
      | none => (s, .fail (-22) [])
      | some t =>
        let s := { s with mem := setTrig s.mem t prc }
        let s := s.dbenq [.updateTrig amt c.userID stockID type]
        (s, .succ [])

def setBuyTrigger : CStr → CStr → Server × Reply := setTrigger w s c .b

def setSellTrigger : CStr → CStr → Server × Reply := setTrigger w s c .s

def setSellAmount (stk amt : CStr) : Server × Reply :=
  match toStockID stk with
  | none => (s, .fail (-17) [])
  | some stockID =>
    let prc := str2price w amt
    if prc = -1 then (s, .fail (-19) [])
    else
      let s := s.lenq (c.logLine stk spc amt)
      if cUser.buysell ≠ 0 then (s, .fail (-10) [])
      else
        let s := s.findStock stockID
        if (getUserStock cUser.usTree stockID).isNone then (s, .fail (-15) [])
        else if (s.mem.getTrigger c.userID stockID .s).isSome then (s, .fail (-16) [])
        else
          let s := { s with mem := (s.mem.addTrigger c.userID c.transID stockID .s prc 0).1 }
          let s := s.dbenq [.insertTrig c.userID c.transID stockID .s amt "0.00".toList]
          (s, .succ [])

def cancelSetSell (stk : CStr) : Option (Server × Reply) :=
  match toStockID stk with
  | none => some (s, .fail (-17) [])
  | some stockID =>
    let s := s.lenq (c.logLine stk spc spc)
    let s := s.findStock stockID
    match s.mem.getTrigger c.userID stockID .s with
    | none => some (s, .fail (-22) [])
    | some t =>
      (s.mem.removeTrigger t).map fun r =>
        let s := { s with mem := r.1 }
        let s := s.dbenq [.deleteTrig c.userID stockID .s]
        (s, .succ [])

def dumplog (file : CStr) : Server × Reply :=
  if file.length < 2 then (s, .fail (-17) [])
  else
    let s := s.lenq (c.logLine spc file spc)
    let s := s.lenq (.dumplog c.userID file)
    (s, .succ [])

def displaySummary : Server × Reply :=
  let s := s.lenq (c.logLine spc spc spc)
  let triggers := Trie.getAll (2 * STOCK_CHARS) (s.mem.tTree c.userID) 3 []
  let userStocks := Trie.getAll STOCK_CHARS cUser.usTree 3 []
  (s, .summary cUser.balance userStocks (triggers.filterMap s.mem.obj))

/-- The branch of `command_handler` for a command and its fields. -/
def dispatch (comm : List CStr) : Option (Server × Reply) :=
  match comm with
  | [] =>
    if c.userCmd = "COMMIT_BUY".toList then commitBuy w s c cUser
    else if c.userCmd = "CANCEL_BUY".toList then some (cancelBuy s c cUser)
    else if c.userCmd = "COMMIT_SELL".toList then commitSell w s c cUser
    else if c.userCmd = "CANCEL_SELL".toList then some (cancelSell s c cUser)
    else if c.userCmd = "DISPLAY_SUMMARY".toList then some (displaySummary s c cUser)
    else some (s, .badcmd)
  | [a] =>
    if c.userCmd = "ADD".toList then some (add w s c cUser a)
    else if c.userCmd = "QUOTE".toList then some (quote s c a)
    else if c.userCmd = "CANCEL_SET_BUY".toList then cancelSetBuy w s c cUser a
    else if c.userCmd = "CANCEL_SET_SELL".toList then cancelSetSell s c a
    else if c.userCmd = "DUMPLOG".toList then some (dumplog s c a)
    else some (s, .badcmd)
  | [a, b] =>
    if c.userCmd = "BUY".toList then some (buy w s c cUser a b)
    else if c.userCmd = "SELL".toList then some (sell w s c cUser a b)
    else if c.userCmd = "SET_BUY_AMOUNT".toList then some (setBuyAmount w s c cUser a b)
    else if c.userCmd = "SET_BUY_TRIGGER".toList then some (setBuyTrigger w s c a b)
    else if c.userCmd = "SET_SELL_AMOUNT".toList then some (setSellAmount w s c cUser a b)
    else if c.userCmd = "SET_SELL_TRIGGER".toList then some (setSellTrigger w s c a b)
    else some (s, .badcmd)
  | _ => none

/-- The names of the commands that take as many fields. -/
def names : List CStr → List CStr
  | [] => ["COMMIT_BUY".toList, "CANCEL_BUY".toList, "COMMIT_SELL".toList, "CANCEL_SELL".toList,
      "DISPLAY_SUMMARY".toList]
  | [_] => ["ADD".toList, "QUOTE".toList, "CANCEL_SET_BUY".toList, "CANCEL_SET_SELL".toList, "DUMPLOG".toList]
  | [_, _] => ["BUY".toList, "SELL".toList, "SET_BUY_AMOUNT".toList, "SET_BUY_TRIGGER".toList,
      "SET_SELL_AMOUNT".toList, "SET_SELL_TRIGGER".toList]
  | _ => []

/-- What the dispatch of a command can give: what its handler gives, or BADCMD for a name that is not one
    of those that take as many fields. -/
inductive Dispatched : List CStr → Server × Reply → Prop
  | commitBuy {r : Server × Reply} (hcmd : c.userCmd = "COMMIT_BUY".toList)
      (hr : commitBuy w s c cUser = some r) : Dispatched [] r
  | cancelBuy (hcmd : c.userCmd = "CANCEL_BUY".toList) : Dispatched [] (cancelBuy s c cUser)
  | commitSell {r : Server × Reply} (hcmd : c.userCmd = "COMMIT_SELL".toList)
      (hr : commitSell w s c cUser = some r) : Dispatched [] r
  | cancelSell (hcmd : c.userCmd = "CANCEL_SELL".toList) : Dispatched [] (cancelSell s c cUser)
  | displaySummary (hcmd : c.userCmd = "DISPLAY_SUMMARY".toList) : Dispatched [] (displaySummary s c cUser)
  | add {a : CStr} (hcmd : c.userCmd = "ADD".toList) : Dispatched [a] (add w s c cUser a)
  | quote {a : CStr} (hcmd : c.userCmd = "QUOTE".toList) : Dispatched [a] (quote s c a)
  | cancelSetBuy {a : CStr} {r : Server × Reply} (hcmd : c.userCmd = "CANCEL_SET_BUY".toList)
      (hr : cancelSetBuy w s c cUser a = some r) : Dispatched [a] r
  | cancelSetSell {a : CStr} {r : Server × Reply} (hcmd : c.userCmd = "CANCEL_SET_SELL".toList)
      (hr : cancelSetSell s c a = some r) : Dispatched [a] r
  | dumplog {a : CStr} (hcmd : c.userCmd = "DUMPLOG".toList) : Dispatched [a] (dumplog s c a)
  | buy {a b : CStr} (hcmd : c.userCmd = "BUY".toList) : Dispatched [a, b] (buy w s c cUser a b)
  | sell {a b : CStr} (hcmd : c.userCmd = "SELL".toList) : Dispatched [a, b] (sell w s c cUser a b)
  | setBuyAmount {a b : CStr} (hcmd : c.userCmd = "SET_BUY_AMOUNT".toList) :
      Dispatched [a, b] (setBuyAmount w s c cUser a b)
  | setBuyTrigger {a b : CStr} (hcmd : c.userCmd = "SET_BUY_TRIGGER".toList) :
      Dispatched [a, b] (setBuyTrigger w s c a b)
  | setSellAmount {a b : CStr} (hcmd : c.userCmd = "SET_SELL_AMOUNT".toList) :
      Dispatched [a, b] (setSellAmount w s c cUser a b)
  | setSellTrigger {a b : CStr} (hcmd : c.userCmd = "SET_SELL_TRIGGER".toList) :
      Dispatched [a, b] (setSellTrigger w s c a b)
  | badcmd {comm : List CStr} (hcmd : c.userCmd ∉ names comm) : Dispatched comm (s, .badcmd)

variable {w s c cUser}

theorem dispatched {comm : List CStr} {r : Server × Reply} (h : dispatch w s c cUser comm = some r) :
    Dispatched w s c cUser comm r := by
  unfold dispatch at h
  split at h
  · split_ifs at h with h₁ h₂ h₃ h₄ h₅
    · exact .commitBuy h₁ h
    · cases h
      exact .cancelBuy h₂
    · exact .commitSell h₃ h
    · cases h
      exact .cancelSell h₄
    · cases h
      exact .displaySummary h₅
    · cases h
      refine .badcmd ?_
      simp only [names, List.mem_cons, List.not_mem_nil, or_false, not_or]
      exact ⟨h₁, h₂, h₃, h₄, h₅⟩
  · split_ifs at h with h₁ h₂ h₃ h₄ h₅
    · cases h
      exact .add h₁
    · cases h
      exact .quote h₂
    · exact .cancelSetBuy h₃ h
    · exact .cancelSetSell h₄ h
    · cases h
      exact .dumplog h₅
    · cases h
      refine .badcmd ?_
      simp only [names, List.mem_cons, List.not_mem_nil, or_false, not_or]
      exact ⟨h₁, h₂, h₃, h₄, h₅⟩
  · split_ifs at h with h₁ h₂ h₃ h₄ h₅ h₆
    · cases h
      exact .buy h₁
    · cases h
      exact .sell h₂
    · cases h
      exact .setBuyAmount h₃
    · cases h
      exact .setBuyTrigger h₄
    · cases h
      exact .setSellAmount h₅
    · cases h
      exact .setSellTrigger h₆
    · cases h
      refine .badcmd ?_
      simp only [names, List.mem_cons, List.not_mem_nil, or_false, not_or]
      exact ⟨h₁, h₂, h₃, h₄, h₅, h₆⟩
  · cases h

end Command

/-- One command of `command_handler`: its string is split into at most two fields, and dispatched. -/
def commandHandler (w : ℤ → ℤ) (s : Server) (c : Cmd) (commStr : Option CStr) :
    Option (Server × Reply) :=
  (s.user c.userID).bind fun cUser =>
    Command.dispatch w s c cUser (delimSepNoCpy commStr ',')

end TradeC
