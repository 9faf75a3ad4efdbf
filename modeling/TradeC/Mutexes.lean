import TradeC.Lib.LockOrder

/-! The mutexes of the transaction server: what its threads lock and unlock, function by function, and
    that they never wait for each other in a cycle.

    Tests of data are left open, and so is which user or stock a pointer points to; waits on semaphores
    and the network are left out, so that a thread may go on earlier than in the program. The order is
    `uTreeBusy`, users, `sTreeBusy`, stocks, and then the mutexes of the lists and the queues, under
    which nothing is locked. `trigger_handler` takes a user under a stock, but by a `trylock`. -/

namespace TradeC.Mutexes
open Run LockOrder LockOrder.Code

/-- The mutexes: `uTreeBusy`, `sTreeBusy`, and the `busy` of users, stocks, lists and queues. -/
inductive Class where
  | uTree
  | user
  | sTree
  | stock
  | uList
  | sList
  | commList
  | logs
  | quotes
  | dbWrites
  | dbReads
  deriving DecidableEq

/-- The pointers of a thread; `shared` are those to what there is once. -/
inductive Var where
  | shared
  | cUser
  | nUser
  | cStock
  | nStock
  | trigStock
  deriving DecidableEq

abbrev Code := LockOrder.Code Class Var

def level : Class → ℕ
  | .uTree => 0
  | .user => 1
  | .sTree => 2
  | .stock => 3
  | .uList | .sList | .commList | .logs | .quotes | .dbWrites | .dbReads => 4

/-! ### The queues -/

/-- The functions of the queues lock the queue, and unlock it at each return. -/
def queueOp (k : Class) (v : Var) : Code := block [.lock k v, .unlock k v]

def cenq : Code := queueOp .commList .cUser
def cdeq : Code := queueOp .commList .cUser
def lenq : Code := queueOp .logs .shared
def ldeq : Code := queueOp .logs .shared
def qenq : Code := queueOp .quotes .shared
def qdeq : Code := queueOp .quotes .shared
/-- `dbenq` and `dbdeq`, of `dbWrites` or `dbReads`. -/
def dbenq (k : Class) : Code := queueOp k .shared
def dbdeq (k : Class) : Code := queueOp k .shared

/-! ### Stocks, triggers and users -/

/-- Each return of `getStock` unlocks the tree. -/
def getStock : Code := block [.lock .sTree .shared, .unlock .sTree .shared]

def addStock : Code :=
  block [.lock .sTree .shared,
    .either
      -- a character that is no letter; the stock is there; no mutex
      (.unlock .sTree .shared)
      (block [.aim .nStock, .lock .stock .nStock,
        .lock .sList .shared, .unlock .sList .shared,
        .unlock .sTree .shared, .unlock .stock .nStock])]

/-- `if(!(cStock = getStock(..))) cStock = addStock(..)`. -/
def findStock : Code := block [getStock, .aim .cStock, opt (block [addStock, .aim .cStock])]

def addTrigger : Code := opt (block [.lock .stock .cStock, .unlock .stock .cStock])

/-- The stock is that of `trigObj`. -/
def removeTrigger : Code :=
  opt (block [.aim .trigStock, .lock .stock .trigStock, .unlock .stock .trigStock])

/-- Each return of `getUser` unlocks the tree. -/
def getUser : Code := block [.lock .uTree .shared, .unlock .uTree .shared]

def addUser : Code :=
  block [.lock .uTree .shared,
    .either
      -- a character that is none of a user's name; the user is there; no mutex
      (.unlock .uTree .shared)
      (block [.aim .nUser, .lock .user .nUser,
        .either
          (block [.unlock .uTree .shared, .unlock .user .nUser])
          (block [.lock .uList .shared, .unlock .uList .shared, .unlock .uTree .shared,
            dbenq .dbReads, .loop (block [findStock, addTrigger]),
            dbenq .dbReads, .loop findStock,
            dbenq .dbReads, .unlock .user .nUser])])]

/-! ### The handlers -/

def connection_handler : Code :=
  .loop (anyOf [
    -- USR
    getUser,
    -- DUMPLOG
    block [lenq, lenq],
    block [getUser, opt (block [addUser, dbenq .dbWrites]), .aim .cUser, cenq]])

/-- The next user of the list. -/
def nextUser : Code := block [.lock .uList .shared, .aim .cUser, .unlock .uList .shared]

def add : Code := opt (block [lenq, lenq, dbenq .dbWrites])
def quote : Code := opt (block [lenq, findStock, opt qenq])
def buy : Code := opt (block [lenq, opt (block [findStock, opt qenq])])
def commitBuy : Code := block [lenq, opt (block [lenq, dbenq .dbWrites])]
def cancelBuy : Code := lenq
def sell : Code := opt (block [lenq, findStock, opt qenq])
def commitSell : Code := block [lenq, opt (block [lenq, dbenq .dbWrites])]
def cancelSell : Code := lenq
def setBuyAmount : Code :=
  opt (block [lenq, opt (block [findStock, opt (block [lenq, addTrigger, dbenq .dbWrites])])])
def cancelSetBuy : Code :=
  opt (block [lenq, findStock, opt (block [removeTrigger, lenq, dbenq .dbWrites])])
def setBuyTrigger : Code := opt (block [lenq, findStock, opt (dbenq .dbWrites)])
def setSellAmount : Code :=
  opt (block [lenq, opt (block [findStock, opt (block [addTrigger, dbenq .dbWrites])])])
def setSellTrigger : Code := opt (block [lenq, findStock, opt (dbenq .dbWrites)])
def cancelSetSell : Code :=
  opt (block [lenq, findStock, opt (block [removeTrigger, dbenq .dbWrites])])
def dumpLog : Code := opt (block [lenq, lenq])
def displaySummary : Code := lenq

/-- The command; nothing is locked for `BADCMD`. -/
def command : Code :=
  anyOf [add, quote, buy, commitBuy, cancelBuy, sell, commitSell, cancelSell, setBuyAmount,
    cancelSetBuy, setBuyTrigger, setSellAmount, setSellTrigger, cancelSetSell, dumpLog,
    displaySummary]

def command_handler : Code :=
  block [.aim .cUser, .spin .user .cUser nextUser,
    .loop (block [.unlock .user .cUser, nextUser,
      -- the search, which ends where the trylock succeeds and the queue is not empty
      .loop (.tryLock .user .cUser (block [.unlock .user .cUser, nextUser]) nextUser),
      .spin .user .cUser nextUser,
      cdeq, command])]

/-- A trigger that fires. -/
def fire : Code :=
  block [lenq, .lock .stock .cStock, .unlock .stock .cStock, removeTrigger, dbenq .dbWrites]

/-- One round of the sweep. A failed trylock leaves the stock unlocked, for the next round or the end
    of the sweep. -/
def sweep : Code :=
  block [.aim .cUser,
    .tryLock .user .cUser
      (block [.unlock .stock .cStock,
        .either
          -- nothing to buy or sell
          (block [.lock .stock .cStock, .unlock .user .cUser])
          (block [opt fire, .lock .stock .cStock, .unlock .user .cUser])])
      (.unlock .stock .cStock)]

def trigger_handler : Code :=
  block [.aim .cStock,
    .loop (block [.lock .sList .shared, .aim .cStock, .unlock .sList .shared,
      .lock .stock .cStock,
      .either
        -- no trigger
        (.unlock .stock .cStock)
        (block [opt qenq,
          .either
            -- no price
            (.unlock .stock .cStock)
            (block [sweep, .loop sweep, .unlock .stock .cStock])])])]

def log_handler : Code := block [ldeq, .loop ldeq]
def quote_handler : Code := block [qdeq, .loop qdeq]
def dbWrite_handler : Code := block [dbdeq .dbWrites, .loop (dbdeq .dbWrites)]
def dbRead_handler : Code := block [dbdeq .dbReads, .loop (dbdeq .dbReads)]

/-- The threads of the server. -/
inductive Handler where
  | connection
  | command
  | trigger
  | log
  | quote
  | dbWrite
  | dbRead
  deriving DecidableEq

def Handler.code : Handler → Code
  | .connection => connection_handler
  | .command => command_handler
  | .trigger => trigger_handler
  | .log => log_handler
  | .quote => quote_handler
  | .dbWrite => dbWrite_handler
  | .dbRead => dbRead_handler

/-! ### The order -/

theorem connection_handler_checked : check level connection_handler [] = some [] := by decide

theorem trigger_handler_checked : check level trigger_handler [] = some [] := by decide

theorem command_handler_checked : check level command_handler [] = some [(.user, .cUser)] := by
  decide

theorem handler_checked (h : Handler) : (check level h.code []).isSome := by
  cases h with
  | connection => rw [Handler.code, connection_handler_checked]; rfl
  | command => rw [Handler.code, command_handler_checked]; rfl
  | trigger => rw [Handler.code, trigger_handler_checked]; rfl
  | log => decide
  | quote => decide
  | dbWrite => decide
  | dbRead => decide

variable {ι O : Type*} [DecidableEq ι] [DecidableEq O]

/-- For any number of threads of each kind and in any order of their steps: no cycle of threads each
    of which holds a mutex and is blocked on one that the next holds, and none blocked on its own. -/
theorem no_mutex_deadlock (handler : ι → Handler) {o : O} {es : List (Event ι O)}
    {s : LockOrder.State ι Class Var O}
    (h : exec step (init (fun i => (handler i).code) o) es = some s) (i : ι) :
    ¬ Relation.TransGen (Waits s) i i :=
  no_cycle (fun i => handler_checked (handler i)) h i

/-- Steps of one thread. -/
def steps (i : Bool) (l : List (Bool × ℕ)) : List (Event Bool ℕ) :=
  l.flatMap fun (b, n) => List.replicate n ⟨i, b, 0⟩

/-- `trigger_handler` takes a stock; `command_handler` takes its user, and comes to `addTrigger` for
    that stock. -/
def stockFirst : List (Event Bool ℕ) :=
  steps true [(false, 3), (true, 1), (false, 8)] ++
    steps false [(false, 5), (true, 1), (false, 29), (true, 2), (false, 7), (true, 1), (false, 14),
      (true, 1), (false, 7), (true, 1), (false, 1)]

theorem no_mutex_deadlock_stockFirst : ∃ s : LockOrder.State Bool Class Var ℕ,
    exec step (init (fun i => (if i then Handler.trigger else .command).code) 0) stockFirst = some s ∧
      Waits s false true ∧ ¬ Relation.TransGen (Waits s) false false := by
  have hrun : ∃ s ∈ exec step (init (fun i => (if i then Handler.trigger else .command).code) 0)
      stockFirst, wants s false = some (Class.stock, 0) ∧ s.owner (.stock, 0) = some true := by
    decide +kernel
  obtain ⟨s, hs, hwants, howner⟩ := hrun
  exact ⟨s, hs, ⟨_, hwants, howner⟩, no_mutex_deadlock _ hs false⟩

end TradeC.Mutexes
