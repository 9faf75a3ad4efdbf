import TradeC.Database

/-! The state of the transaction server: users, holdings, triggers, quotes, log and requests.

    The holdings (`user_stock`) of a user are in a 26-way tree. `Server` also keeps what has been handed to
    the log queue and to the database write queue, and the tables, since each command waits until its
    request has run. -/

namespace TradeC

def quoteTo : ℤ := 28000

/-! ### Holdings -/

structure UserStock where
  num : ℤ
  stockObj : StockID

def usSlot (c : Char) : Option ℕ := if 64 < ord c ∧ ord c < 91 then some (ord c - 65).toNat else none

def usKey (stockObj : StockID) : Path := (stockObj.str.filterMap usSlot).reverse

def getUserStock (usTree : Trie UserStock) (stockObj : StockID) : Option UserStock :=
  Trie.find usSlot stockObj.str [] usTree

/-- `addUserStock`: the tree, and the object it returns. -/
def addUserStock (usTree : Trie UserStock) (stockObj : StockID) (numStock : ℤ) :
    Trie UserStock × Option UserStock :=
  let (tree, temp) := Trie.insertPath usSlot stockObj.str [] usTree
  match temp with
  | none => (tree, none)
  | some temp =>
    match tree.objAt temp with
    | some userStockObj => (tree, some userStockObj)
    | none =>
      let nUserStock := ⟨numStock, stockObj⟩
      (tree.setObj temp (some nUserStock), some nUserStock)

/-- `cUserStock->num = num`, for the object that `getUserStock` returned. -/
def setNum (usTree : Trie UserStock) (stockObj : StockID) (cUserStock : UserStock) (num : ℤ) :
    Trie UserStock :=
  usTree.setObj (usKey stockObj) (some { cUserStock with num })

theorem usSlot_lt (c : Char) (a : ℕ) (h : usSlot c = some a) : a < STOCK_CHARS := by
  unfold usSlot at h
  split_ifs at h with hb
  simp only [Option.some.injEq, STOCK_CHARS] at h ⊢
  omega

theorem keyPath_usKey (st : StockID) : Trie.keyPath usSlot st.str [] = some (usKey st) :=
  Mem.keyPath_keyOf st .b

theorem usKey_inj {st st' : StockID} (h : usKey st = usKey st') : st = st' :=
  (Mem.keyOf_inj (show Mem.keyOf st .b = Mem.keyOf st' .b from h)).1

section Holdings
variable {us : Trie UserStock} (hw : Trie.WF STOCK_CHARS us)
include hw

theorem getUserStock_eq (st : StockID) : getUserStock us st = us.objAt (usKey st) :=
  Trie.find_eq hw (keyPath_usKey st) hw.root

theorem getUserStock_setNum {st : StockID} {uso : UserStock} (hs : getUserStock us st = some uso)
    (n : ℤ) : Trie.WF STOCK_CHARS (setNum us st uso n) ∧
      ∀ st', getUserStock (setNum us st uso n) st' =
        if st' = st then some { uso with num := n } else getUserStock us st' := by
  have hw' : Trie.WF STOCK_CHARS (setNum us st uso n) := Trie.wf_setObj hw (usKey st) _
  rw [getUserStock_eq hw] at hs
  refine ⟨hw', fun st' => ?_⟩
  rw [getUserStock_eq hw', getUserStock_eq hw, setNum, Trie.objAt_setObj _ (Trie.isSome_of_objAt hs)]
  have hiff : usKey st' = usKey st ↔ st' = st := ⟨usKey_inj, fun h => by rw [h]⟩
  simp only [hiff]

theorem getUserStock_addUserStock {st : StockID} (hs : getUserStock us st = none) (n : ℤ) :
    (addUserStock us st n).2 = some ⟨n, st⟩ ∧ Trie.WF STOCK_CHARS (addUserStock us st n).1 ∧
      ∀ st', getUserStock (addUserStock us st n).1 st' =
        if st' = st then some ⟨n, st⟩ else getUserStock us st' := by
  obtain ⟨hpath, htree, hnode, hobj⟩ :=
    Trie.insertPath_spec usSlot_lt hw hw.root (keyPath_usKey st)
  set ip := Trie.insertPath usSlot st.str [] us with hip
  have hempty : ip.1.objAt (usKey st) = none := by
    rw [hobj, ← getUserStock_eq hw]
    exact hs
  have hadd : addUserStock us st n =
      (ip.1.setObj (usKey st) (some ⟨n, st⟩), some ⟨n, st⟩) := by
    have hpair : ip = (ip.1, some (usKey st)) := Prod.ext rfl hpath
    unfold addUserStock
    rw [← hip, hpair]
    simp only [hempty]
  have hw' := Trie.wf_setObj htree (usKey st) (some ⟨n, st⟩)
  rw [hadd]
  refine ⟨rfl, hw', fun st' => ?_⟩
  have hiff : usKey st' = usKey st ↔ st' = st := ⟨usKey_inj, fun h => by rw [h]⟩
  rw [getUserStock_eq hw', getUserStock_eq hw, Trie.objAt_setObj _ hnode, hobj]
  simp only [hiff]

end Holdings

/-! ### The state -/

structure User where
  balance : ℤ
  promptTime : ℤ
  stockObj : Option StockID
  reserve : ℤ
  no : ℤ
  buysell : ℤ
  usTree : Trie UserStock

/-- What a quote puts into a stock. -/
structure Quote where
  price : ℤ
  ts : ℤ

/-- A line for the log server: `userCmdLog`, `accTransLog`, or the line of a DUMPLOG. -/
inductive LogLine where
  | userCmd (ts : ℤ) (transID userCmd : CStr) (userID : UserID) (stockID file funds : CStr)
  | accTrans (ts : ℤ) (transID action : CStr) (userID : UserID) (funds : CStr)
  | dumplog (userID : UserID) (file : CStr)

/-- What a command answers after `WSR|transID|userCmd|`. -/
inductive Reply where
  | succ (data : List ℤ)
  | fail (code : ℤ) (data : List ℤ)
  | badcmd
  | summary (balance : ℤ) (userStocks : List UserStock) (triggers : List Trigger)

/-- A transaction settled, with its cents: the commands 'a', 'b', 's', 'g' and 'h' of `insertTran`. -/
inductive Settlement where
  | add (prc : ℤ)
  | commitBuy (reserve : ℤ)
  | commitSell (reserve : ℤ)
  | firedBuy (tbuy : ℤ)
  | firedSell (tsell : ℤ)

structure Server where
  user : UserID → Option User
  mem : Mem
  stocks : List StockID
  stock : StockID → Quote
  logs : List LogLine
  requests : List (List Stmt)
  db : Db
  /-- Kept by the model only: each settlement, at the point where its `insertTran` is written. -/
  settled : List (UserID × Settlement)

namespace Server

def init : Server := ⟨fun _ => none, Mem.init, [], fun _ => ⟨0, 0⟩, [], [], Db.init, []⟩

def lenq (s : Server) (line : LogLine) : Server := { s with logs := s.logs ++ [line] }

/-- `dbenq`, and the wait for its answer. -/
def dbenq (s : Server) (req : List Stmt) : Server :=
  { s with requests := s.requests ++ [req], db := s.db.run req }

def settle (s : Server) (u : UserID) (x : Settlement) : Server :=
  { s with settled := s.settled ++ [(u, x)] }

def setUser (s : Server) (u : UserID) (usr : User) : Server :=
  { s with user := Function.update s.user u (some usr) }

/-- `getStock`, and `addStock` when there is none. -/
def findStock (s : Server) (stockID : StockID) : Server :=
  if stockID ∈ s.stocks then s else { s with stocks := s.stocks ++ [stockID] }

/-- A quote reply is stored in its stock. -/
def setQuote (s : Server) (stockID : StockID) (q : Quote) : Server :=
  { s with stock := Function.update s.stock stockID q }

end Server

def User.clearOrder (usr : User) : User :=
  { usr with promptTime := 0, reserve := 0, no := 0, buysell := 0, stockObj := none }

end TradeC
