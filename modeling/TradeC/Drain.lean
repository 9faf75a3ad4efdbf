import TradeC.Tokens
import Mathlib.Data.Prod.Lex
import Mathlib.Order.Lattice.Nat
import Mathlib.Order.WellFounded

/-! No command is left in a queue for good.

    From every state that is reached the threads can go on, without another message and without another sweep,
    until all queues are empty. The body of a command, the loading of a user and a firing are one step here, which
    is always possible: it is granted that each one that is begun comes to its end, so that the database takes its
    requests and the quotes that it waits for come. What has to be done is counted in three numbers, one after the
    other: the statements that connections and sweeps have left, the commands in the queues, and the statements
    that the command handlers are from the next command of the ring. -/

namespace TradeC.Work
open Run Threads

namespace Pc

/-- The statements that a `connection_handler` or a sweep has left. -/
def work : Pc → ℕ
  | .newLock _ _ => 10
  | .newLink _ _ => 9
  | .newUnlock _ _ => 8
  | .newFound _ _ => 7
  | .newFree _ _ => 6
  | .enqLock _ _ => 5
  | .enqFill _ _ => 4
  | .enqCount _ => 3
  | .enqUnlock _ => 2
  | .enqPost => 1
  | .fire _ => 1
  | _ => 0

/-- The places of a `command_handler`. -/
def ofCommand : Pc → Bool
  | .init | .curr | .head _ _ | .startPost _ | .free _ _ | .walkLock _ _ | .walkNext _ _ | .walkUnlock _ _
  | .test _ | .deqLock _ | .deqTake _ | .deqCount _ _ | .deqUnlock _ _ | .command _ _ | .deqNull _
  | .fault _ => true
  | _ => false

/-- The statements up to the next command, where `next` is the ring and a user is `dist` users away from one
    that has a command. -/
def turns (r : Ring UserIx) (dist : UserIx → ℕ) : Pc → ℕ
  | .deqCount _ _ => 1
  | .deqTake _ => 2
  | .deqLock _ => 3
  | .test u => 6 * dist u + 4
  | .head .search u => 6 * dist u + 5
  | .walkUnlock .search u => 6 * dist u + 6
  | .walkNext .search u => 6 * dist (r.next u) + 7
  | .walkLock .search u => 6 * dist (r.next u) + 8
  | .free .search u => 6 * dist (r.next u) + 9
  | .head .main u => 6 * dist u + 6
  | .walkUnlock .main u => 6 * dist u + 7
  | .walkNext .main u => 6 * dist (r.next u) + 8
  | .walkLock .main u => 6 * dist (r.next u) + 9
  | .free .main u => 6 * dist (r.next u) + 10
  | .command u _ => 6 * dist (r.next u) + 11
  | .deqUnlock u _ => 6 * dist (r.next u) + 12
  | .startPost u => 6 * dist (r.next u) + 11
  | .head .start u => 6 * dist (r.next u) + 12
  | .walkUnlock .start u => 6 * dist (r.next u) + 13
  | .walkNext .start u => 6 * dist (r.next (r.next u)) + 14
  | .walkLock .start u => 6 * dist (r.next (r.next u)) + 15
  | .free .start u => 6 * dist (r.next (r.next u)) + 16
  | .curr => r.curr.elim 0 (fun u => 6 * dist (r.next u)) + 13
  | .init => r.curr.elim 0 (fun u => 6 * dist (r.next u)) + 14
  | _ => 0

def asksList : Pc → Bool
  | .newLock _ _ | .walkLock _ _ => true
  | _ => false

def asksQueue : Pc → Option UserIx
  | .enqLock u _ | .deqLock u => some u
  | _ => none

/-- The places that wait for a token. -/
def awaits : Pc → Bool
  | .init | .head .main _ => true
  | _ => false

end Pc

section
variable {ι : Type*}

/-- Nothing new begins: no message is received and no trigger is fired. -/
def Quiet (s : State ι) (e : Event ι) : Prop := s.pc e.thread ≠ .recv ∧ s.pc e.thread ≠ .sweep

/-- Nothing is left to do. -/
structure State.Drained [Fintype ι] (s : State ι) : Prop where
  queued : s.queued = 0
  work : ∀ i, (s.pc i).work = 0

/-- How far a user is from one that has a command. -/
noncomputable def State.dist (s : State ι) (u : UserIx) : ℕ :=
  sInf {k | 0 < (s.user (s.uList.next^[k] u)).commList.length}

/-- What is left to do. -/
noncomputable def State.left [Fintype ι] (s : State ι) : ℕ ×ₗ ℕ ×ₗ ℕ :=
  toLex (∑ i, (s.pc i).work, toLex (s.queued.toNat, ∑ i, (s.pc i).turns s.uList s.dist))

/-- The thread can go on, and a `pthread_mutex_trylock` succeeds. -/
structure Ready (s : State ι) (p : Pc) : Prop where
  recv : p ≠ .recv
  sweep : p ≠ .sweep
  list : p.asksList → s.listBusy = none
  queue : ∀ u, p.asksQueue = some u → (s.user u).commList.busy = none
  token : p.awaits → 0 < s.avail
  head : ∀ l u, p = .head l u → (s.user u).busy = none

/-! ### What a step does to what is left -/

section Act
variable {s : State ι} {e : Event ι} {p p' : Pc} {op : Op}

theorem act_isSome (hr : Ready s p) (hb : ¬ p.broken) : ∃ op p', act s e p = some (op, p') := by
  have hrecv := hr.recv
  have hsweep := hr.sweep
  fun_cases act s e p <;> simp_all [Pc.broken]

theorem act_runs (h : act s e p = some (op, p')) (hr : Ready s p) (i : ι) : ∃ s₁, s.run i op = some s₁ := by
  obtain ⟨hrecv, hsweep, hlist, hqueue, htoken, hhead⟩ := hr
  revert h
  fun_cases act s e p <;> intro h <;> cases h <;>
    simp_all [State.run, Pc.asksList, Pc.asksQueue, Pc.awaits]

/-- A connection or a sweep has one statement less. -/
theorem act_work (h : act s e p = some (op, p')) (hr : Ready s p) (hp : p.ofCommand = false) :
    p'.work < p.work := by
  obtain ⟨hrecv, hsweep, -, -, -, -⟩ := hr
  revert h
  fun_cases act s e p <;> intro h <;> cases h <;> simp_all [Pc.work, Pc.ofCommand]

/-- A command handler leaves the ring as it is, and puts nothing in a queue. -/
theorem act_ofCommand (h : act s e p = some (op, p')) (hp : p.ofCommand = true) : p'.ofCommand = true ∧
    op ≠ .create ∧ (∀ u, op ≠ .link u) ∧ ∀ u n, op = .count u n → n = -1 := by
  revert h
  fun_cases act s e p <;> intro h <;> cases h <;> simp_all [Pc.ofCommand]

/-- It comes nearer to the next command, or counts it as taken. -/
theorem act_turns {dist : UserIx → ℕ} (h : act s e p = some (op, p')) (hr : Ready s p) (hb : ¬ p.broken)
    (hp : p.ofCommand = true)
    (hdist : ∀ u, p = .test u → (s.user u).commList.length = 0 → dist (s.uList.next u) + 1 ≤ dist u) :
    (∃ u, op = .count u (-1)) ∨ p'.turns s.uList dist < p.turns s.uList dist := by
  have hhead := hr.head
  revert h
  fun_cases act s e p <;> intro h <;> cases h <;> (try cases ‹Loop›) <;> simp_all [Pc.turns, Pc.ofCommand, Pc.broken]
  all_goals omega

theorem ready_of_holdsList {p : Pc} (h : p.holdsList = true) : Ready s p := by
  cases p <;> simp_all [Pc.holdsList] <;> constructor <;> simp [Pc.asksList, Pc.asksQueue, Pc.awaits]

theorem ready_of_holdsQueue {p : Pc} {u : UserIx} (h : p.holdsQueue = some u) : Ready s p := by
  cases p <;> simp_all [Pc.holdsQueue] <;> constructor <;> simp [Pc.asksList, Pc.asksQueue, Pc.awaits]

theorem work_ofCommand (hp : p.ofCommand = true) : p.work = 0 := by
  cases p <;> simp_all [Pc.ofCommand, Pc.work]

end Act

/-! ### One step -/

section
variable {s s₁ : State ι} {l : List UserIx} {e : Event ι} {op : Op} {p' : Pc}

/-- Where no user is made and no command is counted, the queues are as long as before. -/
theorem run_queued (hrun : s.run e.thread op = some s₁) (hcreate : op ≠ .create)
    (hcount : ∀ u n, op ≠ .count u n) (hlink : ∀ u, op ≠ .link u) :
    s₁.queued = s.queued ∧ s₁.dist = s.dist ∧ s₁.uList = s.uList := by
  have hlength : ∀ u, (s₁.user u).commList.length = (s.user u).commList.length := by
    intro u
    rw [run_length hrun]
    cases op with
    | create => exact absurd rfl hcreate
    | count u n => exact absurd rfl (hcount u n)
    | _ => rfl
  have hfresh : s₁.fresh = s.fresh := by
    rw [run_fresh hrun]
    cases op with
    | create => exact absurd rfl hcreate
    | _ => rfl
  have huList : s₁.uList = s.uList := by
    rw [run_uList hrun]
    cases op with
    | link u => exact absurd rfl (hlink u)
    | _ => rfl
  refine ⟨?_, funext fun u => ?_, huList⟩
  · rw [State.queued, State.queued, hfresh]
    exact Finset.sum_congr rfl fun u _ => hlength u
  · rw [State.dist, State.dist, huList]
    simp only [hlength]

variable [Fintype ι]

/-- The queue of the user is empty, and another is not: that of the next user is nearer. -/
theorem Inv.dist_next (hi : Inv s l) {i : ι} {u : UserIx} (hp : s.pc i = .test u)
    (hlen : (s.user u).commList.length = 0) : s.dist (s.uList.next u) + 1 ≤ s.dist u := by
  obtain ⟨u', hu'⟩ := hi.exists_queued (i := i) (by rw [hp]; exact Int.one_pos)
  obtain ⟨k, hk⟩ := hi.ring.reach (hi.visits i u (by rw [hp]; rfl)) (hi.queued u' hu'.ne')
  have hmem : 0 < (s.user (s.uList.next^[s.dist u] u)).commList.length := by
    refine Nat.sInf_mem (s := {k | 0 < (s.user (s.uList.next^[k] u)).commList.length}) ⟨k, ?_⟩
    change 0 < (s.user (s.uList.next^[k] u)).commList.length
    rwa [hk]
  cases hd : s.dist u with
  | zero =>
    rw [hd, Function.iterate_zero_apply] at hmem
    omega
  | succ k =>
    rw [hd, Function.iterate_succ_apply] at hmem
    exact Nat.succ_le_succ (Nat.sInf_le hmem)

/-- A command is counted as taken. -/
theorem Inv.queued_count (hi : Inv s l) {u : UserIx} (hact : act s e (s.pc e.thread) = some (.count u (-1), p'))
    (hrun : s.run e.thread (.count u (-1)) = some s₁) : s₁.queued.toNat < s.queued.toNat := by
  obtain ⟨hvisits, hn | ⟨-, hfinds⟩⟩ := act_count hact rfl
  · omega
  have hlt : u ∈ Finset.range s.fresh := Finset.mem_range.mpr (hi.old u (hi.visits _ _ hvisits))
  have hone : s₁.queued = s.queued - 1 := by
    rw [State.queued, run_fresh hrun, Finset.sum_congr rfl fun u _ => run_length hrun u, State.queued]
    simp only [Op.fresh, Op.length, Finset.sum_add_distrib, Finset.sum_ite_eq', hlt, if_true]
    rfl
  have hle : (s.user u).commList.length ≤ s.queued := Finset.single_le_sum (fun u _ => hi.length u) hlt
  have hpos := hi.finds _ _ hfinds
  omega

variable [DecidableEq ι]

/-- A thread that can go on leaves less to do. -/
theorem Inv.step_left (hi : Inv s l) (hr : Ready s (s.pc e.thread)) :
    ∃ s', step s e = some s' ∧ s'.left < s.left := by
  obtain ⟨op, p', hact⟩ := act_isSome (e := e) hr (hi.sound e.thread)
  obtain ⟨s₁, hrun⟩ := act_runs hact hr e.thread
  refine ⟨s₁.goto e.thread p', by rw [step, hact]; simp [hrun], ?_⟩
  have hpc : (s₁.goto e.thread p').pc = Function.update s.pc e.thread p' := by
    rw [State.goto, run_pc hrun]
  simp only [State.left, Prod.Lex.toLex_lt_toLex, hpc]
  cases hp : (s.pc e.thread).ofCommand with
  | false => exact .inl (sum_place_lt (act_work hact hr hp))
  | true =>
    obtain ⟨hp', hcreate, hlink, hcount⟩ := act_ofCommand hact hp
    have hwork : p'.work = (s.pc e.thread).work := by rw [work_ofCommand hp', work_ofCommand hp]
    refine .inr ⟨sum_place_eq hwork, ?_⟩
    by_cases hop : ∃ u n, op = .count u n
    · obtain ⟨u, n, rfl⟩ := hop
      obtain rfl := hcount u n rfl
      have hless : s₁.queued.toNat < s.queued.toNat := hi.queued_count hact hrun
      exact .inl hless
    · have hnot : ∀ u n, op ≠ .count u n := fun u n h => hop ⟨u, n, h⟩
      obtain ⟨hqueued, hdist, huList⟩ := run_queued hrun hcreate hnot hlink
      rcases act_turns hact hr (hi.sound e.thread) hp fun u hu hlen => hi.dist_next hu hlen with ⟨u, h⟩ | hless
      · exact absurd h (hnot u (-1))
      refine .inr ⟨congrArg Int.toNat hqueued, ?_⟩
      change ∑ i, (Function.update s.pc e.thread p' i).turns s₁.uList s₁.dist < _
      rw [hdist, huList]
      exact sum_place_lt hless

/-! ### Somebody can go on -/

/-- While something is left to do, some thread can go on: the holder of the mutex of the ring, the holder of a
    queue's, a connection or a sweep, the holder of a user's mutex, a handler with a token, any handler. -/
theorem Inv.exists_ready (hi : Inv s l) (hcommand : ∃ i, (s.pc i).ofCommand = true) (hleft : ¬ s.Drained) :
    ∃ i, Ready s (s.pc i) := by
  by_cases hlist : ∃ i, (s.pc i).holdsList = true
  · obtain ⟨i, hlist⟩ := hlist
    exact ⟨i, ready_of_holdsList hlist⟩
  by_cases hqueue : ∃ i u, (s.pc i).holdsQueue = some u
  · obtain ⟨i, u, hqueue⟩ := hqueue
    exact ⟨i, ready_of_holdsQueue hqueue⟩
  have hlistFree : s.listBusy = none := Option.eq_none_iff_forall_ne_some.mpr fun i hi' =>
    hlist ⟨i, (hi.lists i).mp hi'⟩
  have hqueueFree : ∀ u, (s.user u).commList.busy = none := fun u =>
    Option.eq_none_iff_forall_ne_some.mpr fun i hi' => hqueue ⟨i, u, (hi.queues u i).mp hi'⟩
  by_cases hwork : ∃ i, (s.pc i).work ≠ 0
  · obtain ⟨i, hwork⟩ := hwork
    refine ⟨i, fun h => hwork (by rw [h]; rfl), fun h => hwork (by rw [h]; rfl), fun _ => hlistFree,
      fun u _ => hqueueFree u, fun h => ?_, fun l u h => absurd (by rw [h]; rfl) hwork⟩
    revert hwork h
    cases s.pc i <;> simp [Pc.work, Pc.awaits]
  have hidle : ∀ i, (s.pc i).work = 0 := fun i => not_not.mp fun h => hwork ⟨i, h⟩
  by_cases huser : ∃ i u, (s.pc i).holdsUser = some u
  · obtain ⟨i, u, huser⟩ := huser
    refine ⟨i, fun h => ?_, fun h => ?_, fun _ => hlistFree, fun u _ => hqueueFree u, fun h => ?_,
      fun l u h => ?_⟩
    · rw [h] at huser
      cases huser
    · rw [h] at huser
      cases huser
    · revert huser h
      cases s.pc i <;> simp [Pc.holdsUser, Pc.awaits]
    · rw [h] at huser
      cases huser
  have huserFree : ∀ u, (s.user u).busy = none := fun u =>
    Option.eq_none_iff_forall_ne_some.mpr fun i hi' => huser ⟨i, u, (hi.users u i).mp hi'⟩
  by_cases htoken : ∃ i, 0 < (s.pc i).tokens
  · obtain ⟨i, htoken⟩ := htoken
    refine ⟨i, fun h => ?_, fun h => ?_, fun _ => hlistFree, fun u _ => hqueueFree u, fun h => ?_,
      fun l u _ => huserFree u⟩
    · rw [h] at htoken
      cases htoken
    · rw [h] at htoken
      cases htoken
    · revert htoken h
      cases s.pc i <;> (try cases ‹Loop›) <;> simp [Pc.tokens, Loop.tokens, Pc.awaits]
  -- all tokens are in `avail`, one for each command
  have htaken : s.taken = 0 := Finset.sum_eq_zero fun i _ =>
    le_antisymm (not_lt.mp fun h => htoken ⟨i, h⟩) (Pc.tokens_nonneg _)
  have hpending : ∀ i, (s.pc i).pending = 0 := by
    intro i
    have := hidle i
    revert this
    cases s.pc i <;> simp [Pc.work, Pc.pending]
  have hequal := hi.matched.equal hpending
  have hnonneg : 0 ≤ s.queued := Finset.sum_nonneg fun u _ => hi.length u
  have hqueued : s.queued ≠ 0 := fun h => hleft ⟨h, hidle⟩
  obtain ⟨i, hcommand⟩ := hcommand
  refine ⟨i, fun h => ?_, fun h => ?_, fun _ => hlistFree, fun u _ => hqueueFree u, fun _ => by omega,
    fun l u _ => huserFree u⟩
  · rw [h] at hcommand
    cases hcommand
  · rw [h] at hcommand
    cases hcommand

/-! ### Runs -/

omit [Fintype ι] in
theorem step_ofCommand {s' : State ι} {i : ι} (hi : (s.pc i).ofCommand = true) (h : step s e = some s') :
    (s'.pc i).ofCommand = true := by
  obtain ⟨⟨op, p'⟩, hact, h⟩ := Option.bind_eq_some_iff.mp h
  obtain ⟨s₁, hrun, rfl⟩ := Option.map_eq_some_iff.mp h
  rw [State.goto, run_pc hrun]
  change (Function.update s.pc e.thread p' i).ofCommand = true
  by_cases hie : i = e.thread
  · subst hie
    rw [Function.update_self]
    exact (act_ofCommand hact hi).1
  · rwa [Function.update_of_ne hie]

/-- From every state that any number of threads reach, with a command handler among them, where each command,
    loading and firing that is begun ends, the threads can go on without another message or sweep until all queues
    are empty and nothing is left to do. -/
theorem drains {role : ι → Role} (hcommand : ∃ i, role i = .command) {es : List (Event ι)}
    (h : exec step (init role) es = some s) :
    ∃ es' s', Along step Quiet s es' ∧ exec step s es' = some s' ∧ s'.Drained := by
  obtain ⟨i, hi⟩ := hcommand
  have hstep : ∀ (s : State ι) e s', (∃ l, Inv s l) ∧ (s.pc i).ofCommand = true → step s e = some s' →
      (∃ l, Inv s' l) ∧ (s'.pc i).ofCommand = true :=
    fun s e s' ⟨⟨l, hinv⟩, hi⟩ hs => ⟨inv_step hinv hs, step_ofCommand hi hs⟩
  have hstart : ((init role).pc i).ofCommand = true := by
    change (role i).start.ofCommand = true
    rw [hi]
    rfl
  have hinv := exec_inv hstep es (init role) s ⟨⟨[], inv_init role⟩, hstart⟩ h
  have hprogress : ∀ s : State ι, (∃ l, Inv s l) ∧ (s.pc i).ofCommand = true → ¬ s.Drained →
      ∃ e s', Quiet s e ∧ step s e = some s' ∧ ((∃ l, Inv s' l) ∧ (s'.pc i).ofCommand = true) ∧
        s'.left < s.left := by
    rintro s ⟨⟨l, hinv⟩, hcommand⟩ hleft
    obtain ⟨j, hr⟩ := hinv.exists_ready ⟨i, hcommand⟩ hleft
    obtain ⟨s', hs', hlt⟩ := hinv.step_left (e := ⟨j, none, ⟨[], [], none, 0⟩⟩) hr
    exact ⟨_, s', ⟨hr.recv, hr.sweep⟩, hs', hstep s _ s' ⟨⟨l, hinv⟩, hcommand⟩ hs', hlt⟩
  obtain ⟨es', s', hquiet, hrun, -, hdrained⟩ := exec_reaches wellFounded_lt hprogress s hinv
  exact ⟨es', s', hquiet, hrun, hdrained⟩

end

/-- Two handlers, and a connection that has just counted a command. -/
theorem drains_oneCommand : ∃ s, exec step (init fun b => if b then .command else .connection)
      (oneCommand.take 10) = some s ∧ s.queued = 1 ∧
    ∃ es' s', Along step Quiet s es' ∧ exec step s es' = some s' ∧ s'.Drained := by
  obtain ⟨s, hs, hqueued⟩ : ∃ s ∈ exec step (init fun b => if b then .command else .connection)
      (oneCommand.take 10), s.queued = 1 := by decide
  exact ⟨s, hs, hqueued, drains ⟨true, rfl⟩ hs⟩

end

end TradeC.Work
