import TradeC.Lib.Cells
import TradeC.Lib.Run
import TradeC.Lib.Threads
import Mathlib.Algebra.Order.BigOperators.Group.Finset
import Mathlib.Data.Fintype.Basic
import Mathlib.Tactic.Linarith

/-! The queues between threads: log lines, database requests, quote requests, sockets.

    All of them are one design: cells that end in a blank one, a mutex, and a semaphore `length` that
    counts the filled cells. A thread that enqueues fills the blank cell, links a new one behind it
    and posts; a thread that dequeues waits on the semaphore, takes the mutex, tests whether the first
    cell is filled and takes it out. Threads are interleaved at every operation on the semaphore and
    the mutex and at every statement that reads or writes a cell or a pointer. -/

namespace TradeC.Queues
open Cells Run Threads

/-- The queues, with the fields of their cells: the one that the dequeue tests, and the others. -/
inductive Queue where
  -- lenq, ldeq: log; the text it points to
  | transServerLog
  -- dbenq, dbdeq: request; transID, userCmd, dbID, destReturned
  | transServerDb
  -- qenq, qdeq: stockObj; userID, transID, userCmd, returned
  | transServerQuote
  -- wenq, wdeq: webSock
  | transServerWebSock
  -- lenq, ldeq: log; the text it points to
  | loadBalancerLog
  -- qenq, qdeq: request; requestLen, transID, quoteAddress, returned
  | loadBalancerQuote

/-- Whether the dequeue frees the cell, or hands it out. -/
def Queue.frees : Queue → Bool
  | .transServerLog | .transServerWebSock | .loadBalancerLog => true
  | .transServerDb | .transServerQuote | .loadBalancerQuote => false

/-- Whether the early return of the dequeue gives the mutex back. -/
def Queue.unlocks : Queue → Bool
  | .loadBalancerLog => false
  | _ => true

/-- What a cell holds: the field that the dequeue tests for NULL, and its other fields. -/
structure Content (κ ρ : Type*) where
  key : Option κ
  fields : Option ρ

/-- A cell of `calloc`. -/
def Content.blank {κ ρ : Type*} : Content κ ρ := ⟨none, none⟩

def Content.full {κ ρ : Type*} (v : κ × ρ) : Content κ ρ := ⟨some v.1, some v.2⟩

/-- What a thread does next. -/
inductive Pc (κ ρ : Type*) where
  | idle
  -- lenq, dbenq, qenq, wenq
  | enqLock (k : κ) (r : ρ)
  | enqKey (k : κ) (r : ρ)
  | enqFields (k : κ) (r : ρ)
  | enqNext (k : κ) (r : ρ)
  | enqEnd (k : κ) (r : ρ)
  | enqPost
  | enqUnlock
  -- ldeq, dbdeq, qdeq, wdeq
  | deqWait
  | deqLock
  | deqTest
  | deqTake
  | deqFree (element : ℕ)
  | deqUnlock
  | deqNull
  -- a NULL pointer or a freed cell is followed
  | fault

/-- `cell` is `none` at an address that is not allocated. -/
structure State (ι κ ρ : Type*) where
  pc : ι → Pc κ ρ
  cell : ℕ → Option (Cell (Content κ ρ))
  fresh : ℕ
  start : ℕ
  last : ℕ
  length : ℕ
  busy : Option ι
  -- what is only recorded: the values put in, as they are linked in, and taken out
  enqueued : List (κ × ρ)
  dequeued : List (Content κ ρ)

inductive Op (κ ρ : Type*) where
  | skip
  | lock
  | unlock
  | wait
  | post
  | write (a : ℕ) (c : Cell (Content κ ρ))
  | calloc (a : ℕ) (c : Cell (Content κ ρ))
  | moveEnd (n : ℕ) (v : κ × ρ)
  | take (n : ℕ) (c : Content κ ρ)
  | free (a : ℕ)

/-- What an idle thread is to do: enqueue a value, or dequeue one. -/
inductive Call (κ ρ : Type*) where
  | enq (k : κ) (r : ρ)
  | deq

structure Event (ι κ ρ : Type*) where
  thread : ι
  call : Call κ ρ

section
variable {ι κ ρ : Type*}

/-- The next operation of a thread, and its place after it. -/
def act (q : Queue) (s : State ι κ ρ) (e : Event ι κ ρ) : Pc κ ρ → Op κ ρ × Pc κ ρ
  | .idle =>
    match e.call with
    | .enq k r => (.skip, .enqLock k r)
    | .deq => (.skip, .deqWait)
  | .enqLock k r => (.lock, .enqKey k r)
  -- q->end->request = request
  | .enqKey k r =>
    match s.cell s.last with
    | none => (.skip, .fault)
    | some c => (.write s.last { c with value := { c.value with key := some k } }, .enqFields k r)
  | .enqFields k r =>
    match s.cell s.last with
    | none => (.skip, .fault)
    | some c => (.write s.last { c with value := { c.value with fields := some r } }, .enqNext k r)
  -- q->end->next = calloc(..)
  | .enqNext k r =>
    match s.cell s.last with
    | none => (.skip, .fault)
    | some c => (.calloc s.last { c with next := some s.fresh }, .enqEnd k r)
  -- q->end = q->end->next
  | .enqEnd k r =>
    match (s.cell s.last).bind Cell.next with
    | none => (.skip, .fault)
    | some n => (.moveEnd n (k, r), .enqPost)
  | .enqPost => (.post, .enqUnlock)
  | .enqUnlock => (.unlock, .idle)
  | .deqWait => (.wait, .deqLock)
  | .deqLock => (.lock, .deqTest)
  -- if(!q->start->request)
  | .deqTest =>
    match s.cell s.start with
    | none => (.skip, .fault)
    | some c => if c.value.key.isNone then (.skip, .deqNull) else (.skip, .deqTake)
  -- the element is read, and q->start = q->start->next
  | .deqTake =>
    match s.cell s.start with
    | none => (.skip, .fault)
    | some c =>
      match c.next with
      | none => (.skip, .fault)
      | some n => (.take n c.value, if q.frees then .deqFree s.start else .deqUnlock)
  | .deqFree a => (.free a, .deqUnlock)
  | .deqUnlock => (.unlock, .idle)
  -- the early return
  | .deqNull => (if q.unlocks then .unlock else .skip, .idle)
  | .fault => (.skip, .fault)

namespace State
variable (s : State ι κ ρ) (i : ι)

/-- What an operation does; `none` where the thread has to wait. -/
def run : Op κ ρ → Option (State ι κ ρ)
  | .skip => some s
  | .lock => if s.busy.isNone then some { s with busy := some i } else none
  | .unlock => some { s with busy := none }
  | .wait => if s.length = 0 then none else some { s with length := s.length - 1 }
  | .post => some { s with length := s.length + 1 }
  | .write a c => some { s with cell := Function.update s.cell a (some c) }
  | .calloc a c => some { s with
      cell := Function.update (Function.update s.cell a (some c)) s.fresh (some ⟨.blank, none⟩)
      fresh := s.fresh + 1 }
  | .moveEnd n v => some { s with last := n, enqueued := s.enqueued ++ [v] }
  | .take n c => some { s with start := n, dequeued := s.dequeued ++ [c] }
  | .free a => some { s with cell := Function.update s.cell a none }

def goto [DecidableEq ι] (p : Pc κ ρ) : State ι κ ρ := { s with pc := Function.update s.pc i p }

end State

variable [DecidableEq ι]

def step (q : Queue) (s : State ι κ ρ) (e : Event ι κ ρ) : Option (State ι κ ρ) :=
  (s.run e.thread (act q s e (s.pc e.thread)).1).map
    (·.goto e.thread (act q s e (s.pc e.thread)).2)

/-- One blank cell, and no thread in a call. -/
def init : State ι κ ρ where
  pc _ := .idle
  cell a := if a = 0 then some ⟨.blank, none⟩ else none
  fresh := 1
  start := 0
  last := 0
  length := 0
  busy := none
  enqueued := []
  dequeued := []

end

attribute [elab_as_elim] act.fun_cases_unfolding State.run.fun_cases_unfolding

end TradeC.Queues
