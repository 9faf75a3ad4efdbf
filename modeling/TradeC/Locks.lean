import TradeC.Trigger.Basic

/-! One stock's triggers, between `trigger_handler` and the command handlers.

    Threads are interleaved at every operation on a mutex and at every statement between them that
    another thread can see: the mutex and the ring of the stock, the mutexes of the users, each
    user's slots for a trigger of either type. As in `Work`, a place of the code (`Pc`) is what the
    thread does next; `act` gives its operation and the place after it, `State.run` what the
    operation does. The `trigger_handler` is the thread `none`. -/

namespace TradeC.Locks

abbrev UserIx := ℕ
abbrev TrigIx := ℕ

/-- The fields of a `trigger` that matter here. -/
structure Trig where
  userObj : UserIx
  type : TType
  amount : ℤ
  trig : ℤ

inductive Pc where
  -- trigger_handler: the stock; the sweep; the firing
  | lock
  | first
  | leave
  | fetch
  | advance
  | user
  | tryLock (u : UserIx) (t : TrigIx)
  | failUnlock
  | gotUnlock (u : UserIx) (t : TrigIx)
  | examine (u : UserIx) (t : TrigIx)
  | pay (u : UserIx) (t : TrigIx)
  | moveLock (u : UserIx) (t : TrigIx)
  | move (u : UserIx) (t : TrigIx)
  | moveUnlock (u : UserIx) (t : TrigIx)
  | relock (u : UserIx)
  | free (u : UserIx)
  | check
  | done
  -- removeTrigger
  | remLock (u : UserIx) (t : TrigIx)
  | remTest (u : UserIx) (t : TrigIx)
  | remRing (u : UserIx) (t : TrigIx) (todo : List (Ring.Stmt TrigIx))
  | clear (u : UserIx) (t : TrigIx)
  -- command_handler: a command of the user; addTrigger
  | idle
  | command (u : UserIx)
  | addLock (u : UserIx) (n : TrigIx)
  | addTest (u : UserIx) (n : TrigIx)
  | addRing (u : UserIx) (n : TrigIx) (todo : List (Ring.Stmt TrigIx))
  | setSlot (u : UserIx) (n : TrigIx)
  | finish (u : UserIx)
  -- a NULL pointer is followed
  | fault
  deriving DecidableEq

/-- The commands that matter to the triggers of the stock. -/
inductive Command where
  | setAmount (type : TType) (prc : ℤ)
  | setTrigger (type : TType) (prc : ℤ)
  | cancel (type : TType)
  | other

structure State (ι : Type*) where
  pc : Option ι → Pc
  obj : TrigIx → Trig
  fresh : TrigIx
  slot : UserIx → TType → Option TrigIx
  ring : Ring TrigIx
  stockBusy : Option (Option ι)
  busy : UserIx → Option (Option ι)
  -- the variables of trigger_handler
  quotePrice : ℤ
  sTrigger : Option TrigIx
  sTrigMod : Bool
  cTrigger : Option TrigIx
  -- what is only recorded: of each trigger, whether it has been freed and whether a cancel has
  -- unlinked it, how often it has been cancelled and fired
  freed : TrigIx → Bool
  cancelled : TrigIx → Bool
  cancels : TrigIx → ℕ
  fires : TrigIx → ℕ
  -- and of the sweep: the triggers at its start and added since, its iterations, what it examined
  started : ℕ
  added : ℕ
  iters : ℕ
  seen : List TrigIx

inductive Op where
  | skip
  | lockStock
  | unlockStock
  | lockUser (u : UserIx)
  | unlockUser (u : UserIx)
  | start (price : ℤ)
  | fetch
  | advance
  | examine (t : TrigIx)
  | fire (t : TrigIx)
  | move
  | alloc (tr : Trig)
  | setTrig (t : TrigIx) (prc : ℤ)
  | refund (t : TrigIx)
  | link (n : TrigIx)
  | unlink (t : TrigIx)
  | ring (st : Ring.Stmt TrigIx)
  | setSlot (n : TrigIx)
  | clearSlot (t : TrigIx)

/-- A step of a thread; the user and the command that it turns to, the quote and the holding that it
    reads, where that is open. -/
structure Event (ι : Type*) where
  thread : Option ι
  user : UserIx
  command : Command
  price : ℤ
  num : ℤ

/-- The two conditions of `trigger_handler`, and the tests that each branch makes before it fires. -/
def fires (tr : Trig) (quotePrice num : ℤ) : Bool :=
  match tr.type with
  | .b => quotePrice < tr.trig && tr.amount.tdiv quotePrice ≠ 0
  | .s => tr.trig < quotePrice && tr.trig ≠ 0 && num ≠ 0

section
variable {ι : Type*} [DecidableEq ι]

/-- The next operation of a thread, and its place after it. -/
def act (s : State ι) (e : Event ι) : Pc → Option (Op × Pc)
  | .lock => some (.lockStock, .first)
  -- sTrigger is read, and the quote
  | .first =>
    if s.ring.curr = none ∨ e.price < 1 then some (.start e.price, .leave)
    else some (.start e.price, .fetch)
  | .leave => some (.unlockStock, .lock)
  -- do: sTrigMod = 0, cTrigger = cStock->curr
  | .fetch => some (.fetch, .advance)
  | .advance =>
    match s.ring.curr with
    | none => some (.skip, .fault)
    | some _ => some (.advance, .user)
  | .user =>
    match s.cTrigger with
    | none => some (.skip, .fault)
    | some t => some (.skip, .tryLock (s.obj t).userObj t)
  | .tryLock u t =>
    if s.busy u = none then some (.lockUser u, .gotUnlock u t) else some (.skip, .failUnlock)
  -- the continue of the failed trylock goes to the test of the loop
  | .failUnlock => some (.unlockStock, .check)
  | .gotUnlock u t => some (.unlockStock, .examine u t)
  | .examine u t =>
    if fires (s.obj t) s.quotePrice e.num then some (.examine t, .pay u t)
    else some (.examine t, .relock u)
  | .pay u t => some (.fire t, .moveLock u t)
  | .moveLock u t => some (.lockStock, .move u t)
  | .move u t => some (.move, .moveUnlock u t)
  | .moveUnlock u t => some (.unlockStock, .remLock u t)
  | .relock u => some (.lockStock, .free u)
  | .free u => some (.unlockUser u, .check)
  -- while(cStock->curr && (sTrigger != cStock->curr || sTrigMod))
  | .check =>
    if s.ring.curr ≠ none ∧ (s.sTrigger ≠ s.ring.curr ∨ s.sTrigMod) then some (.skip, .fetch)
    else some (.skip, .done)
  | .done => some (.unlockStock, .lock)
  | .remLock u t => some (.lockStock, .remTest u t)
  | .remTest u t => some (.unlink t, .remRing u t (s.ring.unlinkStmts t))
  | .remRing u t (st :: todo) => some (.ring st, .remRing u t todo)
  | .remRing u t [] => some (.unlockStock, .clear u t)
  | .clear u t =>
    if e.thread = none then some (.clearSlot t, .relock u) else some (.clearSlot t, .finish u)
  | .idle => if s.busy e.user = none then some (.lockUser e.user, .command e.user) else none
  | .command u =>
    match e.command with
    | .setAmount ty prc =>
      match s.slot u ty with
      | some _ => some (.skip, .finish u)
      | none => some (.alloc ⟨u, ty, prc, 0⟩, .addLock u s.fresh)
    | .setTrigger ty prc =>
      match s.slot u ty with
      | none => some (.skip, .finish u)
      | some t => some (.setTrig t prc, .finish u)
    | .cancel ty =>
      match s.slot u ty with
      | none => some (.skip, .finish u)
      | some t => some (.refund t, .remLock u t)
    | .other => some (.skip, .finish u)
  | .addLock u n => some (.lockStock, .addTest u n)
  | .addTest u n => some (.link n, .addRing u n (s.ring.insertStmts n))
  | .addRing u n (st :: todo) => some (.ring st, .addRing u n todo)
  | .addRing u n [] => some (.unlockStock, .setSlot u n)
  | .setSlot u n => some (.setSlot n, .finish u)
  | .finish u => some (.unlockUser u, .idle)
  | .fault => none

namespace State
variable (s : State ι) (i : Option ι)

def setSlot (u : UserIx) (ty : TType) (t : Option TrigIx) : State ι :=
  { s with slot := Function.update s.slot u (Function.update (s.slot u) ty t) }

/-- What an operation does; `none` where the thread has to wait. An unlock of a mutex that is held by
    another thread, or by none, leaves it free. -/
def run : Op → Option (State ι)
  | .skip => some s
  | .lockStock => if s.stockBusy = none then some { s with stockBusy := some i } else none
  | .unlockStock => some { s with stockBusy := none }
  | .lockUser u =>
    if s.busy u = none then some { s with busy := Function.update s.busy u (some i) } else none
  | .unlockUser u => some { s with busy := Function.update s.busy u none }
  | .start price => some { s with
      sTrigger := s.ring.curr, quotePrice := price,
      started := (s.ring.toList s.fresh).length, added := 0, iters := 0, seen := [] }
  | .fetch => some { s with sTrigMod := false, cTrigger := s.ring.curr, iters := s.iters + 1 }
  | .advance => some { s with ring := s.ring.advance }
  | .examine t => some { s with seen := t :: s.seen }
  | .fire t => some { s with fires := Function.update s.fires t (s.fires t + 1) }
  | .move =>
    if s.sTrigger = s.cTrigger then
      some { s with sTrigger := s.sTrigger.map s.ring.next, sTrigMod := true }
    else some s
  | .alloc tr => some { s with obj := Function.update s.obj s.fresh tr, fresh := s.fresh + 1 }
  | .setTrig t prc => some { s with obj := Function.update s.obj t { s.obj t with trig := prc } }
  | .refund t => some { s with cancels := Function.update s.cancels t (s.cancels t + 1) }
  | .link _ => some { s with added := s.added + 1 }
  | .unlink t =>
    if i = none then some s else some { s with cancelled := Function.update s.cancelled t true }
  | .ring st => some { s with ring := s.ring.exec st }
  | .setSlot n => some (s.setSlot (s.obj n).userObj (s.obj n).type (some n))
  | .clearSlot t => some { s.setSlot (s.obj t).userObj (s.obj t).type none with
      freed := Function.update s.freed t true }

def goto (p : Pc) : State ι := { s with pc := Function.update s.pc i p }

end State

def step (s : State ι) (e : Event ι) : Option (State ι) :=
  (act s e (s.pc e.thread)).bind fun (op, p) => (s.run e.thread op).map (·.goto e.thread p)

def init : State ι where
  pc i := match i with
    | none => .lock
    | some _ => .idle
  obj _ := ⟨0, .b, 0, 0⟩
  fresh := 0
  slot _ _ := none
  ring := ⟨none, id, id⟩
  stockBusy := none
  busy _ := none
  quotePrice := 0
  sTrigger := none
  sTrigMod := false
  cTrigger := none
  freed _ := false
  cancelled _ := false
  cancels _ := 0
  fires _ := 0
  started := 0
  added := 0
  iters := 0
  seen := []

end

attribute [elab_as_elim] act.fun_cases_unfolding State.run.fun_cases_unfolding

end TradeC.Locks
