import TradeC.Lib.Run
import Mathlib.Algebra.Order.Group.Int
import Mathlib.Logic.Function.Basic

/-! The rows of `accounts`, and who writes them: `connection_handler` makes a user and then asks for its
    INSERT, `command_handler` and `trigger_handler` ask for UPDATEs, and `dbWrite_handler` runs the
    requests.

    Threads are interleaved at every operation on `uTreeBusy`, on the mutex of a user and on a semaphore,
    and at every access to what they share. A user is its name; what `addUser` allocates for it is put in
    place when it is made. The wait for `destReturned` is a semaphore of each thread. -/

namespace TradeC.Accounts

/-- What a write request does to the row of its user: `insertAcct`, or the statements of a command or a
    firing, with the balance of their `updateBal` if there is one. -/
inductive Sql where
  | insertAcct
  | write (balance : Option ℤ)
  deriving DecidableEq

/-- `db_queue_element`. -/
structure Request (ι υ : Type*) where
  dest : ι
  user : υ
  sql : Sql
  deriving DecidableEq

/-- The threads that take the mutex of a user that is there. -/
inductive Taker where
  | command
  | trigger
  deriving DecidableEq

inductive Pc (ι υ : Type*) where
  -- connection_handler, with getUser
  | recv
  -- addUser
  | addLock (u : υ)
  | addTest (u : υ)
  | addOld (u : υ)
  | addLink (u : υ)
  | addFound (u : υ)
  | addUnlock (u : υ)
  | load (u : υ)
  | addFree (u : υ)
  -- insertAcct, and cenq
  | insert (u : υ)
  | insertWait (u : υ)
  | cenq (u : υ)
  -- command_handler, trigger_handler
  | search (t : Taker)
  | cdeq (u : υ)
  | serve (t : Taker) (u : υ)
  | serveWait (t : Taker) (u : υ) (balance : Option ℤ)
  | free (t : Taker) (u : υ)
  -- dbWrite_handler
  | deq
  | exec (r : Request ι υ)
  | post (r : Request ι υ)

/-- `linked`: in the list of users and on its triggers; `found`: in the tree. -/
structure User (ι : Type*) where
  busy : Option ι
  linked : Bool
  found : Bool
  commands : ℕ
  balance : ℤ

structure State (ι υ : Type*) where
  pc : ι → Pc ι υ
  uTreeBusy : Option ι
  user : υ → User ι
  dbWrites : List (Request ι υ)
  returned : ι → ℕ
  /-- The rows of `accounts`. -/
  account : υ → Option ℤ
  /-- What is only recorded: an INSERT of the user has been run. -/
  inserted : υ → Bool

inductive Op (ι υ : Type*) where
  | skip
  | lockTree
  | unlockTree
  | lockUser (u : υ)
  | unlockUser (u : υ)
  | create (u : υ)
  | link (u : υ)
  | found (u : υ)
  | load (u : υ)
  | count (u : υ)
  | uncount (u : υ)
  | insert (u : υ)
  | write (u : υ) (balance : Option ℤ)
  | wait
  | take (r : Request ι υ)
  | exec (r : Request ι υ)
  | post (r : Request ι υ)

/-- A step of a thread: the user of the message, or of the next command or trigger, and what the command
    or the firing asks to be written, if anything. -/
structure Event (ι υ : Type*) where
  thread : ι
  user : υ
  write : Option (Option ℤ)

section
variable {ι υ : Type*} [DecidableEq ι] [DecidableEq υ]

/-- The next operation of a thread, and its place after it. -/
def act (s : State ι υ) (e : Event ι υ) : Pc ι υ → Option (Op ι υ × Pc ι υ)
  | .recv =>
    if (s.user e.user).found then some (.skip, .cenq e.user) else some (.skip, .addLock e.user)
  | .addLock u => some (.lockTree, .addTest u)
  | .addTest u =>
    if (s.user u).found then some (.skip, .addOld u) else some (.create u, .addLink u)
  | .addOld u => some (.unlockTree, .insert u)
  | .addLink u => some (.link u, .addFound u)
  | .addFound u => some (.found u, .addUnlock u)
  | .addUnlock u => some (.unlockTree, .load u)
  -- the balance is read last
  | .load u => some (.load u, .addFree u)
  | .addFree u => some (.unlockUser u, .insert u)
  | .insert u => some (.insert u, .insertWait u)
  | .insertWait u => some (.wait, .cenq u)
  | .cenq u => some (.count u, .recv)
  -- pthread_mutex_trylock
  | .search .command =>
    if (s.user e.user).linked && (s.user e.user).busy.isNone then
      some (.lockUser e.user, .cdeq e.user)
    else none
  | .search .trigger =>
    if (s.user e.user).linked && (s.user e.user).busy.isNone then
      some (.lockUser e.user, .serve .trigger e.user)
    else none
  | .cdeq u =>
    if (s.user u).commands = 0 then some (.skip, .free .command u)
    else some (.uncount u, .serve .command u)
  | .serve t u =>
    match e.write with
    | none => some (.skip, .free t u)
    | some b => some (.write u b, .serveWait t u b)
  | .serveWait t u _ => some (.wait, .free t u)
  | .free t u => some (.unlockUser u, .search t)
  | .deq =>
    match s.dbWrites with
    | [] => none
    | r :: _ => some (.take r, .exec r)
  | .exec r => some (.exec r, .post r)
  | .post r => some (.post r, .deq)

namespace State
variable (s : State ι υ) (i : ι)

def setUser (u : υ) (c : User ι) : State ι υ := { s with user := Function.update s.user u c }

def dbenq (r : Request ι υ) : State ι υ := { s with dbWrites := s.dbWrites ++ [r] }

/-- `PQexec`. -/
def pqexec (r : Request ι υ) : State ι υ :=
  match r.sql with
  | .insertAcct => { s with
      account := Function.update s.account r.user (some ((s.account r.user).getD 0))
      inserted := Function.update s.inserted r.user true }
  | .write none => s
  | .write (some b) => { s with
      account := Function.update s.account r.user ((s.account r.user).map fun _ => b) }

/-- What an operation does; `none` where the thread has to wait. -/
def run : Op ι υ → Option (State ι υ)
  | .skip => some s
  | .lockTree => if s.uTreeBusy = none then some { s with uTreeBusy := some i } else none
  | .unlockTree => some { s with uTreeBusy := none }
  | .lockUser u =>
    if (s.user u).busy = none then some (s.setUser u { s.user u with busy := some i }) else none
  | .unlockUser u => some (s.setUser u { s.user u with busy := none })
  | .create u => some (s.setUser u ⟨some i, false, false, 0, 0⟩)
  | .link u => some (s.setUser u { s.user u with linked := true })
  | .found u => some (s.setUser u { s.user u with found := true })
  | .load u => some (s.setUser u { s.user u with balance := (s.account u).getD 0 })
  | .count u => some (s.setUser u { s.user u with commands := (s.user u).commands + 1 })
  | .uncount u => some (s.setUser u { s.user u with commands := (s.user u).commands - 1 })
  | .insert u => some (s.dbenq ⟨i, u, .insertAcct⟩)
  | .write u b =>
    some ((s.setUser u { s.user u with balance := b.getD (s.user u).balance }).dbenq
      ⟨i, u, .write b⟩)
  | .wait =>
    if s.returned i = 0 then none
    else some { s with returned := Function.update s.returned i (s.returned i - 1) }
  | .take _ => some { s with dbWrites := s.dbWrites.tail }
  | .exec r => some (s.pqexec r)
  | .post r => some { s with returned := Function.update s.returned r.dest (s.returned r.dest + 1) }

def goto (p : Pc ι υ) : State ι υ := { s with pc := Function.update s.pc i p }

end State

def step (s : State ι υ) (e : Event ι υ) : Option (State ι υ) :=
  (act s e (s.pc e.thread)).bind fun (op, p) => (s.run e.thread op).map (·.goto e.thread p)

attribute [elab_as_elim] act.fun_cases_unfolding State.run.fun_cases_unfolding

/-- The places where threads start. -/
inductive Role where
  | connection
  | taker (t : Taker)
  | dbWriter

def Role.start : Role → Pc ι υ
  | .connection => .recv
  | .taker t => .search t
  | .dbWriter => .deq

/-- No user is known to the server; rows of earlier runs may be there. -/
def init (role : ι → Role) (account : υ → Option ℤ) : State ι υ where
  pc i := (role i).start
  uTreeBusy := none
  user _ := ⟨none, false, false, 0, 0⟩
  dbWrites := []
  returned _ := 0
  account := account
  inserted _ := false

/-- What is asked: a request other than an INSERT is put into the queue only after an INSERT of its user
    has been run, and then the row of a user that no thread is at is its balance. -/
structure Sound (s : State ι υ) : Prop where
  ordered : ∀ r, r ∈ s.dbWrites ∨ (∃ k, s.pc k = .exec r) → r.sql ≠ .insertAcct →
    s.inserted r.user
  kept : ∀ u, (s.user u).found → (s.user u).busy = none → s.inserted u →
    s.account u = some (s.user u).balance

end

end TradeC.Accounts
