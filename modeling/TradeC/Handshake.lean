import TradeC.Lib.Run
import Mathlib.Logic.Function.Basic

/-! The records of database and quote requests, between the thread that asks and the one that serves.

    `dbenq` and `qenq` give the requester the record that they have put into the queue. The
    requester of a database request waits on `destReturned`, uses `result` and posts on
    `srcReturned`, and the handler frees the record after that. The requester of a quote reads
    `returned` from the record and waits on it; `quote_handler` posts on `returned` and frees the
    record at once. Each thread has one semaphore of its own, its `returned`.

    A step is one operation on a semaphore, one access to a field of a record, or one call of an
    enqueue or a dequeue. -/

namespace TradeC.Handshake
open Run

/-- The queues of records: `dbWriteList`, `dbReadList`, `quoteList`. -/
inductive QueueId where
  | dbWrite
  | dbRead
  | quote
  deriving DecidableEq

/-- Whose `returned` a pointer to a semaphore points to. -/
inductive Sem (ι κ : Type*) where
  | req (i : ι)
  | srv (k : κ)

/-- The pointers of a record: `destReturned`, or `returned` of a quote; `srcReturned`. -/
structure Record (ι κ : Type*) where
  dest : Option (Sem ι κ)
  src : Option (Sem ι κ)
  result : Bool

/-- The requester. -/
inductive ReqPc (ι κ : Type*) where
  | idle
  | readDest (q : QueueId) (r : ℕ)
  | wait (q : QueueId) (r : ℕ) (m : Sem ι κ)
  | useResult (r : ℕ)
  | readSrc (r : ℕ)
  | post (r : ℕ) (m : Sem ι κ)
  -- a freed record is read, or a NULL pointer followed
  | fault

/-- `dbWrite_handler`, `dbRead_handler`, `quote_handler`. -/
inductive SrvPc (ι κ : Type*) where
  | deq
  | serve (r : ℕ)
  | setResult (r : ℕ)
  | setSrc (r : ℕ)
  | readDest (r : ℕ)
  | post (r : ℕ) (m : Sem ι κ)
  | readSrc (r : ℕ)
  | wait (r : ℕ) (m : Sem ι κ)
  | free (r : ℕ)
  | fault

/-- How far a request has come: asked; answered, by the post on the requester's semaphore; taken, by
    the requester's wait; returned, by the requester's post; ended, by the handler's wait. -/
inductive Phase where
  | asked
  | answered
  | taken
  | returned
  | ended
  deriving DecidableEq

/-- `record` is `none` at an address that is not allocated. -/
structure State (ι κ : Type*) where
  req : ι → ReqPc ι κ
  srv : κ → SrvPc ι κ
  queue : QueueId → List ℕ
  record : ℕ → Option (Record ι κ)
  fresh : ℕ
  reqSem : ι → ℕ
  srvSem : κ → ℕ
  -- what is only recorded: the queue of a record, who asked for it, who serves it, and its phase
  kind : ℕ → QueueId
  owner : ℕ → Option ι
  server : ℕ → Option κ
  phase : ℕ → Phase

/-- A step of a requester, with the queue that it turns to and whether it reads `result` again; or a
    step of a handler. -/
inductive Event (ι κ : Type*) where
  | req (i : ι) (q : QueueId) (again : Bool)
  | srv (k : κ)

section
variable {ι κ : Type*} [DecidableEq ι] [DecidableEq κ]

namespace State
variable (s : State ι κ)

def gotoReq (i : ι) (p : ReqPc ι κ) : State ι κ := { s with req := Function.update s.req i p }

def gotoSrv (k : κ) (p : SrvPc ι κ) : State ι κ := { s with srv := Function.update s.srv k p }

def setPhase (r : ℕ) (ph : Phase) : State ι κ := { s with phase := Function.update s.phase r ph }

def setRecord (r : ℕ) (c : Option (Record ι κ)) : State ι κ :=
  { s with record := Function.update s.record r c }

/-- `sem_post`. -/
def semPost : Sem ι κ → State ι κ
  | .req i => { s with reqSem := Function.update s.reqSem i (s.reqSem i + 1) }
  | .srv k => { s with srvSem := Function.update s.srvSem k (s.srvSem k + 1) }

/-- `sem_wait`, where the thread has to wait while the count is 0. -/
def semWait : Sem ι κ → Option (State ι κ)
  | .req i =>
    if s.reqSem i = 0 then none
    else some { s with reqSem := Function.update s.reqSem i (s.reqSem i - 1) }
  | .srv k =>
    if s.srvSem k = 0 then none
    else some { s with srvSem := Function.update s.srvSem k (s.srvSem k - 1) }

/-- `dbenq` and `qenq`: a record with the requester's semaphore. -/
def enq (i : ι) (q : QueueId) : State ι κ :=
  { s with
    queue := Function.update s.queue q (s.queue q ++ [s.fresh])
    record := Function.update s.record s.fresh (some ⟨some (.req i), none, false⟩)
    fresh := s.fresh + 1
    kind := Function.update s.kind s.fresh q
    owner := Function.update s.owner s.fresh (some i)
    phase := Function.update s.phase s.fresh .asked }

end State

/-- A step of a requester. -/
def reqStep (s : State ι κ) (i : ι) (q : QueueId) (again : Bool) : Option (State ι κ) :=
  match s.req i with
  | .idle => some ((s.enq i q).gotoReq i (.readDest q s.fresh))
  -- dbResp->destReturned, quoteResp->returned
  | .readDest q r =>
    match (s.record r).bind Record.dest with
    | none => some (s.gotoReq i .fault)
    | some m => some (s.gotoReq i (.wait q r m))
  | .wait q r m => (s.semWait m).map fun s =>
    (s.setPhase r .taken).gotoReq i (if q = .quote then .idle else .useResult r)
  -- dbResp->result, as often as the requester likes
  | .useResult r =>
    if again then
      match s.record r with
      | none => some (s.gotoReq i .fault)
      | some _ => some s
    else some (s.gotoReq i (.readSrc r))
  -- dbResp->srcReturned
  | .readSrc r =>
    match (s.record r).bind Record.src with
    | none => some (s.gotoReq i .fault)
    | some m => some (s.gotoReq i (.post r m))
  | .post r m => some (((s.semPost m).setPhase r .returned).gotoReq i .idle)
  | .fault => none

variable (serves : κ → QueueId)

/-- A step of a handler, of the queue that it serves. -/
def srvStep (s : State ι κ) (k : κ) : Option (State ι κ) :=
  match s.srv k with
  | .deq =>
    match s.queue (serves k) with
    | [] => none
    | r :: rest => some (({ s with
        queue := Function.update s.queue (serves k) rest
        server := Function.update s.server r (some k) }).gotoSrv k (.serve r))
  | .serve r => some (s.gotoSrv k (if serves k = .quote then .readDest r else .setResult r))
  | .setResult r =>
    match s.record r with
    | none => some (s.gotoSrv k .fault)
    | some c => some ((s.setRecord r (some { c with result := true })).gotoSrv k (.setSrc r))
  | .setSrc r =>
    match s.record r with
    | none => some (s.gotoSrv k .fault)
    | some c => some ((s.setRecord r (some { c with src := some (.srv k) })).gotoSrv k (.readDest r))
  | .readDest r =>
    match (s.record r).bind Record.dest with
    | none => some (s.gotoSrv k .fault)
    | some m => some (s.gotoSrv k (.post r m))
  | .post r m => some (((s.semPost m).setPhase r .answered).gotoSrv k
      (if serves k = .quote then .free r else .readSrc r))
  | .readSrc r =>
    match (s.record r).bind Record.src with
    | none => some (s.gotoSrv k .fault)
    | some m => some (s.gotoSrv k (.wait r m))
  | .wait r m => (s.semWait m).map fun s => (s.setPhase r .ended).gotoSrv k (.free r)
  | .free r => some ((s.setRecord r none).gotoSrv k .deq)
  | .fault => none

def step (s : State ι κ) : Event ι κ → Option (State ι κ)
  | .req i q again => reqStep s i q again
  | .srv k => srvStep serves s k

def init : State ι κ where
  req _ := .idle
  srv _ := .deq
  queue _ := []
  record _ := none
  fresh := 0
  reqSem _ := 0
  srvSem _ := 0
  kind _ := .quote
  owner _ := none
  server _ := none
  phase _ := .asked

end

end TradeC.Handshake
