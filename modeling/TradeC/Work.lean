import TradeC.Str
import TradeC.Lib.Ring
import TradeC.Lib.Run

/-! The commands on their way: `connection_handler` puts them in the queues of the users, and
    `command_handler` looks for them along the ring of users.

    Threads are interleaved at every operation on a mutex or a semaphore and at every statement
    between them that another thread can see. A place of the code (`Pc`) is the operation that the
    thread does next; `act` gives the operation and the place after it, `State.run` what the
    operation does. -/

namespace TradeC.Work

/-- A user, by the order of `addUser`. -/
abbrev UserIx := ℕ

/-- What `connection_handler` gives to `cenq`. -/
structure Message where
  transID : CStr
  userCmd : CStr
  comm : Option CStr
  sock : ℕ
  deriving DecidableEq

/-- `comm_queue_element`. -/
structure CommElem where
  comm : Option CStr
  webServerSock : Option ℕ
  transID : CStr
  userCmd : CStr
  deriving DecidableEq

def CommElem.calloc : CommElem := ⟨none, none, [], []⟩

/-- `comm_queue`: the elements from `start` to `end`, the last of which is still to be filled. -/
structure CommQueue (ι : Type*) where
  cells : List CommElem
  length : ℤ
  busy : Option ι

namespace CommQueue
variable {ι : Type*}

def new : CommQueue ι := ⟨[.calloc], 0, none⟩

/-- The statements of `cenq` up to `cq->end = cq->end->next`. -/
def fill (cq : CommQueue ι) (m : Message) : CommQueue ι :=
  match cq.cells.getLast? with
  | none => cq
  | some el => { cq with cells := cq.cells.dropLast ++
      [⟨m.comm <|> el.comm, some m.sock, m.transID, m.userCmd⟩, .calloc] }

@[simp] theorem fill_length (cq : CommQueue ι) (m : Message) : (cq.fill m).length = cq.length := by
  unfold fill
  split <;> rfl

@[simp] theorem fill_busy (cq : CommQueue ι) (m : Message) : (cq.fill m).busy = cq.busy := by
  unfold fill
  split <;> rfl

/-- What `cdeq` returns: NULL where the first element has no socket. -/
def element (cq : CommQueue ι) : Option CommElem := cq.cells.head?.filter (·.webServerSock.isSome)

end CommQueue

structure User (ι : Type*) where
  busy : Option ι
  commList : CommQueue ι

/-- The loops that walk the ring: the one at start-up, the head of the main loop, the search. -/
inductive Loop where
  | start
  | main
  | search
  deriving DecidableEq

/-- The start-up loop and the search are run with a token in hand. -/
def Loop.tokens : Loop → ℤ
  | .main => 0
  | _ => 1

inductive Pc where
  -- connection_handler: the next message; addUser; cenq
  | recv
  | newLock (u : UserIx) (m : Message)
  | newLink (u : UserIx) (m : Message)
  | newUnlock (u : UserIx) (m : Message)
  | newFound (u : UserIx) (m : Message)
  | newFree (u : UserIx) (m : Message)
  | enqLock (u : UserIx) (m : Message)
  | enqFill (u : UserIx) (m : Message)
  | enqCount (u : UserIx)
  | enqUnlock (u : UserIx)
  | enqPost
  -- command_handler: start-up; the walk; the search; cdeq; the command
  | init
  | curr
  | head (l : Loop) (u : UserIx)
  | startPost (u : UserIx)
  | free (l : Loop) (u : UserIx)
  | walkLock (l : Loop) (u : UserIx)
  | walkNext (l : Loop) (u : UserIx)
  | walkUnlock (l : Loop) (u : UserIx)
  | test (u : UserIx)
  | deqLock (u : UserIx)
  | deqTake (u : UserIx)
  | deqCount (u : UserIx) (command : CommElem)
  | deqUnlock (u : UserIx) (command : CommElem)
  | command (u : UserIx) (command : CommElem)
  -- cdeq returns NULL; a NULL pointer is followed
  | deqNull (u : UserIx)
  | fault (u : Option UserIx)
  -- trigger_handler, of which only the mutexes of users matter
  | sweep
  | fire (u : UserIx)
  deriving DecidableEq

structure State (ι : Type*) where
  pc : ι → Pc
  user : UserIx → User ι
  fresh : UserIx
  /-- The users that `getUser` finds. -/
  uTree : UserIx → Bool
  /-- `user_list`: its `curr`, and the `next` and `prev` of the users. -/
  uList : Ring UserIx
  listBusy : Option ι
  avail : ℕ

/-- The operations. -/
inductive Op where
  | skip
  | lockUser (u : UserIx)
  | unlockUser (u : UserIx)
  | lockList
  | unlockList
  | lockQueue (u : UserIx)
  | unlockQueue (u : UserIx)
  | create
  | link (u : UserIx)
  | found (u : UserIx)
  | fill (u : UserIx) (m : Message)
  | count (u : UserIx) (n : ℤ)
  | take (u : UserIx)
  | wait
  | post

/-- A step of a thread; what it receives or looks at next, where that is open. -/
structure Event (ι : Type*) where
  thread : ι
  user : Option UserIx
  message : Message

section
variable {ι : Type*} [DecidableEq ι]

/-- The next operation of a thread, and its place after it. -/
def act (s : State ι) (e : Event ι) : Pc → Option (Op × Pc)
  -- getUser finds the user, or addUser makes it
  | .recv =>
    match e.user with
    | some u => if s.uTree u then some (.skip, .enqLock u e.message) else none
    | none => some (.create, .newLock s.fresh e.message)
  | .newLock u m => some (.lockList, .newLink u m)
  | .newLink u m => some (.link u, .newUnlock u m)
  | .newUnlock u m => some (.unlockList, .newFound u m)
  | .newFound u m => some (.found u, .newFree u m)
  | .newFree u m => some (.unlockUser u, .enqLock u m)
  | .enqLock u m => some (.lockQueue u, .enqFill u m)
  | .enqFill u m => some (.fill u m, .enqCount u)
  | .enqCount u => some (.count u 1, .enqUnlock u)
  | .enqUnlock u => some (.unlockQueue u, .enqPost)
  | .enqPost => some (.post, .recv)
  | .init => some (.wait, .curr)
  | .curr =>
    match s.uList.curr with
    | some u => some (.skip, .head .start u)
    | none => some (.skip, .fault none)
  -- pthread_mutex_trylock
  | .head .start u =>
    if (s.user u).busy = none then some (.lockUser u, .startPost u)
    else some (.skip, .walkLock .start u)
  | .startPost u => some (.post, .free .main u)
  | .free l u => some (.unlockUser u, .walkLock l u)
  | .walkLock l u => some (.lockList, .walkNext l u)
  | .walkNext l u => some (.skip, .walkUnlock l (s.uList.next u))
  | .walkUnlock l u => some (.unlockList, .head l u)
  | .head .main u => some (.wait, .head .search u)
  | .head .search u =>
    if (s.user u).busy = none then some (.lockUser u, .test u)
    else some (.skip, .walkLock .search u)
  -- the length is read without the mutex of the queue
  | .test u =>
    if (s.user u).commList.length = 0 then some (.skip, .free .search u)
    else some (.skip, .deqLock u)
  | .deqLock u => some (.lockQueue u, .deqTake u)
  | .deqTake u =>
    match (s.user u).commList.element with
    | none => some (.skip, .deqNull u)
    | some el => some (.take u, .deqCount u el)
  | .deqCount u el => some (.count u (-1), .deqUnlock u el)
  | .deqUnlock u el => some (.unlockQueue u, .command u el)
  | .command u _ => some (.skip, .free .main u)
  | .deqNull u => some (.unlockQueue u, .fault (some u))
  | .fault _ => none
  | .sweep =>
    match e.user with
    | some u => if s.uTree u && (s.user u).busy.isNone then some (.lockUser u, .fire u) else none
    | none => none
  | .fire u => some (.unlockUser u, .sweep)

namespace State
variable (s : State ι) (i : ι)

def setBusy (u : UserIx) (b : Option ι) : State ι :=
  { s with user := Function.update s.user u { s.user u with busy := b } }

def setQueue (u : UserIx) (q : CommQueue ι) : State ι :=
  { s with user := Function.update s.user u { s.user u with commList := q } }

/-- What an operation does; `none` where the thread has to wait. -/
def run : Op → Option (State ι)
  | .skip => some s
  | .lockUser u => if (s.user u).busy = none then some (s.setBusy u (some i)) else none
  | .unlockUser u => some (s.setBusy u none)
  | .lockList => if s.listBusy = none then some { s with listBusy := some i } else none
  | .unlockList => some { s with listBusy := none }
  | .lockQueue u =>
    if (s.user u).commList.busy = none then
      some (s.setQueue u { (s.user u).commList with busy := some i })
    else none
  | .unlockQueue u => some (s.setQueue u { (s.user u).commList with busy := none })
  | .create =>
    some { s with user := Function.update s.user s.fresh ⟨some i, .new⟩, fresh := s.fresh + 1 }
  | .link u => some { s with uList := s.uList.insert u }
  | .found u => some { s with uTree := Function.update s.uTree u true }
  | .fill u m => some (s.setQueue u ((s.user u).commList.fill m))
  | .count u n => some (s.setQueue u
      { (s.user u).commList with length := (s.user u).commList.length + n })
  | .take u => some (s.setQueue u
      { (s.user u).commList with cells := (s.user u).commList.cells.tail })
  | .wait => if 0 < s.avail then some { s with avail := s.avail - 1 } else none
  | .post => some { s with avail := s.avail + 1 }

def goto (p : Pc) : State ι := { s with pc := Function.update s.pc i p }

end State

def step (s : State ι) (e : Event ι) : Option (State ι) :=
  (act s e (s.pc e.thread)).bind fun (op, p) => (s.run e.thread op).map (·.goto e.thread p)

/-- The threads of the server. -/
inductive Role where
  | connection
  | command
  | trigger

def Role.start : Role → Pc
  | .connection => .recv
  | .command => .init
  | .trigger => .sweep

def init (role : ι → Role) : State ι where
  pc i := (role i).start
  user _ := ⟨none, .new⟩
  fresh := 0
  uTree _ := false
  uList := ⟨none, id, id⟩
  listBusy := none
  avail := 0

end

attribute [elab_as_elim] act.fun_cases_unfolding State.run.fun_cases_unfolding

end TradeC.Work
