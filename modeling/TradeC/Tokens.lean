import TradeC.Work
import TradeC.Lib.Threads
import Mathlib.Algebra.BigOperators.Group.Finset.Piecewise
import Mathlib.Algebra.Order.BigOperators.Group.Finset
import Mathlib.Tactic.Linarith

/-! Work tokens match queued commands. -/

namespace TradeC.Work
open Run Threads

/-! ### What a place holds -/

namespace Pc

/-- The user whose mutex the thread holds. -/
def holdsUser : Pc → Option UserIx
  | .newLock u _ | .newLink u _ | .newUnlock u _ | .newFound u _ | .newFree u _ => some u
  | .startPost u | .free _ u | .test u => some u
  | .deqLock u | .deqTake u | .deqCount u _ | .deqUnlock u _ | .command u _ => some u
  | .deqNull u => some u
  | .fault u => u
  | .fire u => some u
  | _ => none

def holdsList : Pc → Bool
  | .newLink _ _ | .newUnlock _ _ | .walkNext _ _ | .walkUnlock _ _ => true
  | _ => false

/-- The user whose queue's mutex the thread holds. -/
def holdsQueue : Pc → Option UserIx
  | .enqFill u _ | .enqCount u | .enqUnlock u => some u
  | .deqTake u | .deqCount u _ | .deqUnlock u _ | .deqNull u => some u
  | _ => none


/-- The token of the thread: taken from `avail`, and not yet given back or turned into a command. -/
def tokens : Pc → ℤ
  | .curr | .startPost _ | .test _ => 1
  | .head l _ | .free l _ | .walkLock l _ | .walkNext l _ | .walkUnlock l _ => l.tokens
  | .deqLock _ | .deqTake _ | .deqCount _ _ | .deqNull _ | .fault _ => 1
  | _ => 0

/-- A `cenq` between its `length++` and its `sem_post`. -/
def pending : Pc → ℤ
  | .enqUnlock _ | .enqPost => 1
  | _ => 0

def weight (p : Pc) : ℤ := p.tokens + p.pending

/-- What the thread has put in the queue of `u`, or taken out of it, without counting it yet. -/
def gap (u : UserIx) : Pc → ℤ
  | .enqCount u' => if u' = u then 1 else 0
  | .deqCount u' _ => if u' = u then -1 else 0
  | _ => 0

/-- The user that the thread has found with a command. -/
def finds : Pc → Option UserIx
  | .deqLock u | .deqTake u | .deqCount u _ => some u
  | _ => none

/-- A NULL pointer has been returned, or is followed. -/
def broken : Pc → Bool
  | .deqNull _ | .fault _ => true
  | _ => false

/-- The new user that is not yet in the ring. -/
def makes : Pc → Option UserIx
  | .newLock u _ | .newLink u _ => some u
  | _ => none

/-- The user of the ring that the thread is at. -/
def visits : Pc → Option UserIx
  | .newUnlock u _ | .newFound u _ | .newFree u _ => some u
  | .enqLock u _ | .enqFill u _ | .enqCount u | .enqUnlock u => some u
  | .head _ u | .startPost u | .free _ u | .walkLock _ u | .walkNext _ u | .walkUnlock _ u => some u
  | .test u | .deqLock u | .deqTake u | .deqCount u _ | .deqUnlock u _ => some u
  | .command u _ | .fire u | .deqNull u => some u
  | .fault u => u
  | _ => none

end Pc

/-! ### What a step does to what its thread holds -/

namespace Op

/-- What an operation does to the mutex of a user. -/
def Users (fresh : UserIx) (op : Op) (held held' : Option UserIx) : Prop :=
  match op with
  | .lockUser u => held = none ∧ held' = some u
  | .create => held = none ∧ held' = some fresh
  | .unlockUser u => held = some u ∧ held' = none
  | _ => held' = held

def Lists (op : Op) (held held' : Bool) : Prop :=
  match op with
  | .lockList => held = false ∧ held' = true
  | .unlockList => held = true ∧ held' = false
  | _ => held' = held

def Queues (op : Op) (held held' : Option UserIx) : Prop :=
  match op with
  | .lockQueue u => held = none ∧ held' = some u
  | .unlockQueue u => held = some u ∧ held' = none
  | .fill u _ | .count u _ | .take u => held = some u ∧ held' = some u
  | _ => held' = held

/-- What an operation adds to the tokens and the uncounted posts of its thread. -/
def weight : Op → ℤ
  | .wait => 1
  | .post => -1
  | .count _ n => n
  | _ => 0

/-- What an operation adds to the gap of `u`. -/
def gap (u : UserIx) : Op → ℤ
  | .fill u' _ => if u' = u then 1 else 0
  | .take u' => if u' = u then -1 else 0
  | .count u' n => if u' = u then -n else 0
  | _ => 0

end Op

section Act
variable {ι : Type*} {s : State ι} {e : Event ι} {p p' : Pc} {op : Op}
  (h : act s e p = some (op, p'))
include h

theorem act_users : op.Users s.fresh p.holdsUser p'.holdsUser := by
  revert h
  fun_cases act s e p <;> intro h <;> cases h <;> simp [Op.Users, Pc.holdsUser]

theorem act_lists : op.Lists p.holdsList p'.holdsList := by
  revert h
  fun_cases act s e p <;> intro h <;> cases h <;> simp [Op.Lists, Pc.holdsList]

theorem act_queues : op.Queues p.holdsQueue p'.holdsQueue := by
  revert h
  fun_cases act s e p <;> intro h <;> cases h <;> simp [Op.Queues, Pc.holdsQueue]

theorem act_weight : p'.weight = p.weight + op.weight := by
  revert h
  fun_cases act s e p <;> intro h <;> cases h <;>
    simp [Op.weight, Pc.weight, Pc.tokens, Pc.pending, Loop.tokens]

theorem act_gap (u : UserIx) : p'.gap u = p.gap u + op.gap u := by
  revert h
  fun_cases act s e p <;> intro h <;> cases h <;> simp [Op.gap, Pc.gap]
  all_goals split <;> rfl

/-- A search ends at a user with a command. -/
theorem act_finds {u : UserIx} (hu : p'.finds = some u) :
    (op = .skip ∧ (s.user u).commList.length ≠ 0) ∨
      (p.finds = some u ∧ (op = .lockQueue u ∨ op = .take u ∨ op = .skip)) := by
  revert h
  fun_cases act s e p <;> intro h <;> cases h <;> simp_all [Pc.finds]

theorem act_take {u : UserIx} (hop : op = .take u) : (s.user u).commList.element.isSome := by
  revert h
  fun_cases act s e p <;> intro h <;> cases h <;> simp_all

/-- A new user is the next one, until it is linked. -/
theorem act_makes {u : UserIx} (hu : p'.makes = some u) :
    (op = .create ∧ u = s.fresh) ∨ (op = .lockList ∧ p.makes = some u) := by
  revert h
  fun_cases act s e p <;> intro h <;> cases h <;> simp_all [Pc.makes]

/-- A thread comes to a user that it has just linked, that `getUser` finds, that is the first of
    the ring or the next one. -/
theorem act_visits {u : UserIx} (hu : p'.visits = some u) :
    p.visits = some u ∨ op = .link u ∨ s.uTree u ∨ s.uList.curr = some u ∨
      ∃ u', p.visits = some u' ∧ s.uList.next u' = u := by
  revert h
  fun_cases act s e p <;> intro h <;> cases h <;> simp_all [Pc.visits]

/-- A NULL pointer comes from an empty ring or from an empty queue. -/
theorem act_broken (hb : p'.broken) :
    p.broken ∨ (p = .curr ∧ s.uList.curr = none) ∨
      ∃ u, p = .deqTake u ∧ (s.user u).commList.element = none := by
  revert h
  fun_cases act s e p <;> intro h <;> cases h <;> simp_all [Pc.broken]

theorem act_link {u : UserIx} (hop : op = .link u) : p.makes = some u ∧ p'.makes = none := by
  revert h
  fun_cases act s e p <;> intro h <;> cases h <;> simp_all [Pc.makes]

theorem act_found {u : UserIx} (hop : op = .found u) : p.visits = some u := by
  revert h
  fun_cases act s e p <;> intro h <;> cases h <;> simp_all [Pc.visits]

theorem act_count {u : UserIx} {n : ℤ} (hop : op = .count u n) :
    p.visits = some u ∧ (n = 1 ∨ n = -1 ∧ p.finds = some u) := by
  revert h
  fun_cases act s e p <;> intro h <;> cases h <;> simp_all [Pc.visits, Pc.finds]

end Act

namespace Pc
variable {p : Pc} {u : UserIx}

theorem holdsUser_cases (h : p.holdsUser = some u) (hb : ¬ p.broken) :
    p.visits = some u ∨ p.makes = some u := by
  cases p <;> simp_all [holdsUser, visits, makes, broken]

theorem pending_nonneg (p : Pc) : 0 ≤ p.pending := by
  unfold pending
  split <;> decide

theorem tokens_nonneg (p : Pc) : 0 ≤ p.tokens := by
  unfold tokens
  split <;> first | decide | (unfold Loop.tokens; split <;> decide)

theorem tokens_le_weight (p : Pc) : p.tokens ≤ p.weight :=
  le_add_of_nonneg_right p.pending_nonneg

theorem weight_nonneg (p : Pc) : 0 ≤ p.weight := add_nonneg p.tokens_nonneg p.pending_nonneg

theorem visits_of_holdsQueue (h : p.holdsQueue = some u) : p.visits = some u := by
  cases p <;> simp_all [holdsQueue, visits]

theorem holdsQueue_of_gap (h : p.gap u ≠ 0) : p.holdsQueue = some u := by
  cases p <;> simp_all [gap, holdsQueue]

theorem holdsUser_of_finds (h : p.finds = some u) : p.holdsUser = some u := by
  cases p <;> simp_all [finds, holdsUser]

theorem holdsUser_of_makes (h : p.makes = some u) : p.holdsUser = some u := by
  cases p <;> simp_all [makes, holdsUser]

end Pc

/-! ### What an operation does -/

namespace Op
variable {ι : Type*} (s : State ι) (i : ι) (u : UserIx)

/-- The mutex of a user after an operation of thread `i`. -/
def busy : Op → Option ι
  | .lockUser u' => if u = u' then some i else (s.user u).busy
  | .create => if u = s.fresh then some i else (s.user u).busy
  | .unlockUser u' => if u = u' then none else (s.user u).busy
  | _ => (s.user u).busy

def listBusy : Op → Option ι
  | .lockList => some i
  | .unlockList => none
  | _ => s.listBusy

def queueBusy : Op → Option ι
  | .create => if u = s.fresh then none else (s.user u).commList.busy
  | .lockQueue u' => if u = u' then some i else (s.user u).commList.busy
  | .unlockQueue u' => if u = u' then none else (s.user u).commList.busy
  | _ => (s.user u).commList.busy

def length : Op → ℤ
  | .create => if u = s.fresh then 0 else (s.user u).commList.length
  | .count u' n => (s.user u).commList.length + if u = u' then n else 0
  | _ => (s.user u).commList.length

def cells : Op → List CommElem
  | .create => if u = s.fresh then [.calloc] else (s.user u).commList.cells
  | .fill u' m => if u = u' then ((s.user u).commList.fill m).cells else (s.user u).commList.cells
  | .take u' => if u = u' then (s.user u).commList.cells.tail else (s.user u).commList.cells
  | _ => (s.user u).commList.cells

def avail : Op → ℤ
  | .wait => s.avail - 1
  | .post => s.avail + 1
  | _ => s.avail

def fresh : Op → UserIx
  | .create => s.fresh + 1
  | _ => s.fresh

def uList : Op → Ring UserIx
  | .link u => s.uList.insert u
  | _ => s.uList

/-- The ring of the users after an operation. -/
def ring (l : List UserIx) : Op → List UserIx
  | .link u => l ++ [u]
  | _ => l

end Op

section Run
variable {ι : Type*} {s s₁ : State ι} {i : ι} {op : Op} (h : s.run i op = some s₁)
include h

theorem run_pc : s₁.pc = s.pc := by
  revert h
  fun_cases State.run s i op <;> intro h <;> cases h <;> rfl

theorem run_busy (u : UserIx) : (s₁.user u).busy = op.busy s i u := by
  revert h
  fun_cases State.run s i op <;> intro h <;> cases h <;>
    simp only [State.setBusy, State.setQueue, Function.update_apply, Op.busy]
  all_goals split <;> simp_all

theorem run_listBusy : s₁.listBusy = op.listBusy s i := by
  revert h
  fun_cases State.run s i op <;> intro h <;> cases h <;> rfl

theorem run_queueBusy (u : UserIx) : (s₁.user u).commList.busy = op.queueBusy s i u := by
  revert h
  fun_cases State.run s i op <;> intro h <;> cases h <;>
    simp only [State.setBusy, State.setQueue, Function.update_apply, Op.queueBusy]
  all_goals split <;> simp_all [CommQueue.new]

theorem run_length (u : UserIx) : (s₁.user u).commList.length = op.length s u := by
  revert h
  fun_cases State.run s i op <;> intro h <;> cases h <;>
    simp only [State.setBusy, State.setQueue, Function.update_apply, Op.length]
  all_goals split <;> simp_all [CommQueue.new]

theorem run_cells (u : UserIx) : (s₁.user u).commList.cells = op.cells s u := by
  revert h
  fun_cases State.run s i op <;> intro h <;> cases h <;>
    simp only [State.setBusy, State.setQueue, Function.update_apply, Op.cells]
  all_goals split <;> simp_all [CommQueue.new]

theorem run_avail : (s₁.avail : ℤ) = op.avail s := by
  revert h
  fun_cases State.run s i op <;> intro h <;> cases h <;> simp [State.setBusy, State.setQueue, Op.avail]
  omega

theorem run_fresh : s₁.fresh = op.fresh s := by
  revert h
  fun_cases State.run s i op <;> intro h <;> cases h <;> rfl

theorem run_uList : s₁.uList = op.uList s := by
  revert h
  fun_cases State.run s i op <;> intro h <;> cases h <;> rfl

theorem run_uTree (u : UserIx) : s₁.uTree u = true ↔ s.uTree u = true ∨ op = .found u := by
  revert h
  fun_cases State.run s i op <;> intro h <;> cases h <;>
    simp only [State.setBusy, State.setQueue, Function.update_apply, reduceCtorEq, or_false]
  rename_i u'
  by_cases hu : u = u'
  · simp [hu]
  · simp [hu, Ne.symm hu]

/-- A thread waits for a mutex. -/
theorem run_lockUser {u : UserIx} (hop : op = .lockUser u) : (s.user u).busy = none := by
  subst hop
  simp only [State.run, Option.ite_none_right_eq_some] at h
  exact h.1

theorem run_lockList (hop : op = .lockList) : s.listBusy = none := by
  subst hop
  simp only [State.run, Option.ite_none_right_eq_some] at h
  exact h.1

theorem run_lockQueue {u : UserIx} (hop : op = .lockQueue u) : (s.user u).commList.busy = none := by
  subst hop
  simp only [State.run, Option.ite_none_right_eq_some] at h
  exact h.1

end Run

/-! ### The invariant -/

section
variable {ι : Type*}

/-- `l` is the ring of the users. -/
structure Inv [Fintype ι] (s : State ι) (l : List UserIx) : Prop where
  users : ∀ u, Guards s.pc (fun p => p.holdsUser = some u) (s.user u).busy
  lists : Guards s.pc (fun p => p.holdsList = true) s.listBusy
  queues : ∀ u, Guards s.pc (fun p => p.holdsQueue = some u) (s.user u).commList.busy
  ring : s.uList.Shows l
  old : ∀ u ∈ l, u < s.fresh
  tree : ∀ u, s.uTree u → u ∈ l
  visits : ∀ i u, (s.pc i).visits = some u → u ∈ l
  makes : ∀ i u, (s.pc i).makes = some u → u ∉ l ∧ u < s.fresh
  queued : ∀ u, (s.user u).commList.length ≠ 0 → u ∈ l
  cells : ∀ u, ∃ filled, (s.user u).commList.cells = filled ++ [.calloc] ∧
    (∀ el ∈ filled, el.webServerSock.isSome) ∧
    (filled.length : ℤ) = (s.user u).commList.length + ∑ i, (s.pc i).gap u
  length : ∀ u, 0 ≤ (s.user u).commList.length
  finds : ∀ i u, (s.pc i).finds = some u → 0 < (s.user u).commList.length
  total : ∑ u ∈ Finset.range s.fresh, (s.user u).commList.length =
    s.avail + ∑ i, (s.pc i).weight
  sound : ∀ i, ¬ (s.pc i).broken

namespace Inv
variable [Fintype ι] {s : State ι} {l : List UserIx} (hi : Inv s l)
include hi

theorem visits_or_makes {i : ι} {u : UserIx} (h : (s.pc i).holdsUser = some u) :
    u ∈ l ∨ (s.pc i).makes = some u :=
  (Pc.holdsUser_cases h (hi.sound i)).imp (hi.visits i u) id

/-- Nobody is at a user that is not made yet. -/
theorem not_holdsUser_fresh (i : ι) : (s.pc i).holdsUser ≠ some s.fresh := fun h => by
  rcases hi.visits_or_makes h with hmem | hmakes
  · exact absurd (hi.old _ hmem) (lt_irrefl _)
  · exact absurd (hi.makes i _ hmakes).2 (lt_irrefl _)

theorem not_holdsQueue_fresh (i : ι) : (s.pc i).holdsQueue ≠ some s.fresh := fun h =>
  absurd (hi.old _ (hi.visits i _ (Pc.visits_of_holdsQueue h))) (lt_irrefl _)

/-- A thread at `cdeq` finds a command there. -/
theorem element_isSome [DecidableEq ι] {i : ι} {u : UserIx} (hp : s.pc i = .deqTake u) :
    (s.user u).commList.element.isSome := by
  obtain ⟨filled, hcells, hsock, hlen⟩ := hi.cells u
  have hgap : ∑ j, (s.pc j).gap u = 0 := Finset.sum_eq_zero fun j _ => by
    by_contra hne
    have hj := (hi.queues u).excl (Pc.holdsQueue_of_gap hne)
      (show (s.pc i).holdsQueue = some u by rw [hp]; rfl)
    exact hne (by rw [hj, hp]; rfl)
  have hpos := hi.finds i u (by rw [hp]; rfl)
  match filled, hcells, hsock, hlen with
  | [], _, _, hlen =>
    simp only [List.length_nil] at hlen
    omega
  | el :: filled, hcells, hsock, _ =>
    simpa [CommQueue.element, hcells] using hsock el (by simp)

/-- Some queue is not empty when a thread has a token in hand. -/
theorem exists_queued {i : ι} (ht : 0 < (s.pc i).tokens) :
    ∃ u, 0 < (s.user u).commList.length := by
  by_contra hnone
  have hzero : ∑ u ∈ Finset.range s.fresh, (s.user u).commList.length = 0 :=
    Finset.sum_eq_zero fun u _ =>
      le_antisymm (not_lt.mp fun h => hnone ⟨u, h⟩) (hi.length u)
  have hle : (s.pc i).weight ≤ ∑ j, (s.pc j).weight :=
    Finset.single_le_sum (fun j _ => Pc.weight_nonneg (s.pc j)) (Finset.mem_univ i)
  have hpos := Pc.tokens_le_weight (s.pc i)
  have htotal := hi.total
  omega

/-- The ring has a user by the time a handler starts to walk it. -/
theorem curr_ne_none {i : ι} (hp : s.pc i = .curr) : s.uList.curr ≠ none := by
  intro hcurr
  obtain ⟨u, hu⟩ := hi.exists_queued (i := i) (by rw [hp]; decide)
  have hmem := hi.queued u hu.ne'
  rw [hi.ring.curr, List.head?_eq_none_iff] at hcurr
  simp [hcurr] at hmem

end Inv

/-! ### One step -/

section Step
variable [Fintype ι] {s s₁ : State ι} {l : List UserIx} {e : Event ι} {op : Op} {p' : Pc}
  (hi : Inv s l) (hact : act s e (s.pc e.thread) = some (op, p'))
  (hrun : s.run e.thread op = some s₁)
include hi hact hrun

omit [Fintype ι] hact hrun hi in
theorem mem_ring {u : UserIx} : u ∈ op.ring l ↔ u ∈ l ∨ op = .link u := by
  cases op <;> simp [Op.ring, eq_comm]

theorem step_ring : s₁.uList.Shows (op.ring l) := by
  rw [run_uList hrun]
  cases op with
  | link u => exact Ring.shows_insert hi.ring (hi.makes _ _ (act_link hact rfl).1).1
  | _ => exact hi.ring

theorem step_old (u : UserIx) (hu : u ∈ op.ring l) : u < s₁.fresh := by
  have hle : s.fresh ≤ s₁.fresh := by
    rw [run_fresh hrun]
    cases op <;> simp [Op.fresh]
  rcases mem_ring.mp hu with hmem | hop
  · exact (hi.old u hmem).trans_le hle
  · exact (hi.makes _ _ (act_link hact hop).1).2.trans_le hle

theorem step_tree (u : UserIx) (hu : s₁.uTree u) : u ∈ op.ring l := by
  rcases (run_uTree hrun u).mp hu with htree | hop
  · exact mem_ring.mpr (.inl (hi.tree u htree))
  · exact mem_ring.mpr (.inl (hi.visits _ _ (act_found hact hop)))

theorem step_queued (u : UserIx) (hu : (s₁.user u).commList.length ≠ 0) : u ∈ op.ring l := by
  rw [run_length hrun] at hu
  rw [mem_ring]
  left
  cases op with
  | create =>
    by_cases hf : u = s.fresh
    · simp [Op.length, hf] at hu
    · exact hi.queued u (by simpa [Op.length, hf] using hu)
  | count u' n =>
    by_cases hu' : u = u'
    · subst hu'
      exact hi.visits _ _ (act_count hact rfl).1
    · exact hi.queued u (by simpa [Op.length, hu'] using hu)
  | _ => exact hi.queued u hu

theorem step_length (u : UserIx) : 0 ≤ (s₁.user u).commList.length := by
  rw [run_length hrun]
  have hlen := hi.length u
  cases op with
  | create =>
    simp only [Op.length]
    split <;> omega
  | count u' n =>
    simp only [Op.length]
    split_ifs with hu
    · subst hu
      obtain ⟨_, hn | ⟨hn, hf⟩⟩ := act_count hact rfl
      · omega
      · have := hi.finds _ _ hf
        omega
    · omega
  | _ => exact hlen

section Places
variable [DecidableEq ι]

theorem step_users (u : UserIx) :
    Guards (Function.update s.pc e.thread p') (fun p => p.holdsUser = some u) (s₁.user u).busy := by
  have htable := act_users hact
  have hg := hi.users u
  rw [run_busy hrun]
  cases op with
  | lockUser u' =>
    obtain ⟨hnone, hsome⟩ := htable
    by_cases hu : u = u'
    · subst hu
      rw [run_lockUser hrun rfl] at hg
      simpa [Op.busy] using hg.lock hsome
    · simpa [Op.busy, hu] using hg.skip (by simp [hnone, hsome, Ne.symm hu])
  | create =>
    obtain ⟨hnone, hsome⟩ := htable
    by_cases hu : u = s.fresh
    · subst hu
      have hfree : Guards s.pc (fun p => p.holdsUser = some s.fresh) none :=
        .none hi.not_holdsUser_fresh
      simpa [Op.busy] using hfree.lock hsome
    · simpa [Op.busy, hu] using hg.skip (by simp [hnone, hsome, Ne.symm hu])
  | unlockUser u' =>
    obtain ⟨hsome, hnone⟩ := htable
    by_cases hu : u = u'
    · subst hu
      simpa [Op.busy] using hg.unlock hsome (by simp [hnone])
    · simpa [Op.busy, hu] using hg.skip (by simp [hnone, hsome, Ne.symm hu])
  | _ => exact hg.skip (by rw [show p'.holdsUser = _ from htable])

theorem step_lists :
    Guards (Function.update s.pc e.thread p') (fun p => p.holdsList = true) s₁.listBusy := by
  have htable := act_lists hact
  have hg := hi.lists
  rw [run_listBusy hrun]
  cases op with
  | lockList =>
    rw [run_lockList hrun rfl] at hg
    exact hg.lock htable.2
  | unlockList => exact hg.unlock htable.1 (by simp [htable.2])
  | _ => exact hg.skip (by rw [show p'.holdsList = _ from htable])

theorem step_queues (u : UserIx) :
    Guards (Function.update s.pc e.thread p') (fun p => p.holdsQueue = some u)
      (s₁.user u).commList.busy := by
  have htable := act_queues hact
  have hg := hi.queues u
  rw [run_queueBusy hrun]
  cases op with
  | create =>
    by_cases hu : u = s.fresh
    · subst hu
      have hfree : Guards s.pc (fun p => p.holdsQueue = some s.fresh) none :=
        .none hi.not_holdsQueue_fresh
      simpa [Op.queueBusy] using hfree.skip (by rw [show p'.holdsQueue = _ from htable])
    · simpa [Op.queueBusy, hu] using hg.skip (by rw [show p'.holdsQueue = _ from htable])
  | lockQueue u' =>
    obtain ⟨hnone, hsome⟩ := htable
    by_cases hu : u = u'
    · subst hu
      rw [run_lockQueue hrun rfl] at hg
      simpa [Op.queueBusy] using hg.lock hsome
    · simpa [Op.queueBusy, hu] using hg.skip (by simp [hnone, hsome, Ne.symm hu])
  | unlockQueue u' =>
    obtain ⟨hsome, hnone⟩ := htable
    by_cases hu : u = u'
    · subst hu
      simpa [Op.queueBusy] using hg.unlock hsome (by simp [hnone])
    · simpa [Op.queueBusy, hu] using hg.skip (by simp [hnone, hsome, Ne.symm hu])
  | fill u' m => exact hg.skip (by rw [htable.1, htable.2])
  | count u' n => exact hg.skip (by rw [htable.1, htable.2])
  | take u' => exact hg.skip (by rw [htable.1, htable.2])
  | _ => exact hg.skip (by rw [show p'.holdsQueue = _ from htable])

omit hrun in
theorem step_visits (i : ι) (u : UserIx)
    (hu : (Function.update s.pc e.thread p' i).visits = some u) : u ∈ op.ring l := by
  rw [mem_ring]
  by_cases hth : i = e.thread
  · subst hth
    rw [Function.update_self] at hu
    rcases act_visits hact hu with hv | hop | htree | hcurr | ⟨u', hv, rfl⟩
    · exact .inl (hi.visits _ _ hv)
    · exact .inr hop
    · exact .inl (hi.tree u htree)
    · rw [hi.ring.curr] at hcurr
      exact .inl (List.mem_of_mem_head? hcurr)
    · exact .inl (hi.ring.next_mem (hi.visits _ _ hv))
  · rw [Function.update_of_ne hth] at hu
    exact .inl (hi.visits i u hu)

theorem step_makes (i : ι) (u : UserIx)
    (hu : (Function.update s.pc e.thread p' i).makes = some u) :
    u ∉ op.ring l ∧ u < s₁.fresh := by
  rw [run_fresh hrun]
  by_cases hth : i = e.thread
  · subst hth
    rw [Function.update_self] at hu
    rcases act_makes hact hu with ⟨rfl, rfl⟩ | ⟨rfl, hm⟩
    · exact ⟨fun hmem => absurd (hi.old _ hmem) (lt_irrefl _), Nat.lt_succ_self _⟩
    · exact hi.makes _ _ hm
  · rw [Function.update_of_ne hth] at hu
    obtain ⟨hnot, hlt⟩ := hi.makes i u hu
    refine ⟨fun hmem => ?_, hlt.trans_le (by cases op <;> simp [Op.fresh])⟩
    rcases mem_ring.mp hmem with hmem | hop
    · exact hnot hmem
    · have hm := (act_link hact hop).1
      exact hth ((hi.users u).excl (Pc.holdsUser_of_makes hu) (Pc.holdsUser_of_makes hm))

theorem step_finds (i : ι) (u : UserIx)
    (hu : (Function.update s.pc e.thread p' i).finds = some u) :
    0 < (s₁.user u).commList.length := by
  rw [run_length hrun]
  by_cases hth : i = e.thread
  · subst hth
    rw [Function.update_self] at hu
    rcases act_finds hact hu with ⟨rfl, hne⟩ | ⟨hf, rfl | rfl | rfl⟩
    · exact lt_of_le_of_ne (hi.length u) (Ne.symm hne)
    all_goals exact hi.finds _ _ hf
  · rw [Function.update_of_ne hth] at hu
    have hpos := hi.finds i u hu
    have hheld := Pc.holdsUser_of_finds hu
    cases op with
    | create =>
      have hne : u ≠ s.fresh := fun h => hi.not_holdsUser_fresh i (h ▸ hheld)
      simpa [Op.length, hne] using hpos
    | count u' n =>
      simp only [Op.length]
      split_ifs with hu'
      · subst hu'
        obtain ⟨_, hn | ⟨_, hf⟩⟩ := act_count hact rfl
        · omega
        · exact absurd ((hi.users u).excl hheld (Pc.holdsUser_of_finds hf)) hth
      · omega
    | _ => exact hpos

theorem step_cells (u : UserIx) : ∃ filled, (s₁.user u).commList.cells = filled ++ [.calloc] ∧
    (∀ el ∈ filled, el.webServerSock.isSome) ∧ (filled.length : ℤ) =
      (s₁.user u).commList.length + ∑ i, (Function.update s.pc e.thread p' i).gap u := by
  obtain ⟨filled, hcells, hsock, hlen⟩ := hi.cells u
  rw [run_cells hrun, run_length hrun, sum_place (Finset.mem_univ _), act_gap hact]
  cases op with
  | create =>
    by_cases hu : u = s.fresh
    · subst hu
      have hgap : ∑ i, (s.pc i).gap s.fresh = 0 := Finset.sum_eq_zero fun i _ => by
        by_contra hne
        exact hi.not_holdsQueue_fresh i (Pc.holdsQueue_of_gap hne)
      exact ⟨[], by simp [Op.cells], by simp, by simp [Op.length, Op.gap, hgap]⟩
    · refine ⟨filled, by simp [Op.cells, hu, hcells], hsock, ?_⟩
      simp only [Op.length, Op.gap, if_neg hu]
      omega
  | fill u' m =>
    by_cases hu : u = u'
    · subst hu
      refine ⟨filled ++ [⟨m.comm, some m.sock, m.transID, m.userCmd⟩], ?_, ?_, ?_⟩
      · simp [Op.cells, CommQueue.fill, hcells, CommElem.calloc]
      · intro el hel
        rcases List.mem_append.mp hel with hel | hel
        · exact hsock el hel
        · rw [List.mem_singleton.mp hel]
          rfl
      · simp only [Op.length, Op.gap, List.length_append, List.length_singleton, if_true]
        push_cast
        omega
    · refine ⟨filled, by simp [Op.cells, hu, hcells], hsock, ?_⟩
      simp only [Op.length, Op.gap, if_neg (Ne.symm hu)]
      omega
  | take u' =>
    by_cases hu : u = u'
    · subst hu
      have hsome := act_take hact rfl
      match filled, hcells, hsock, hlen with
      | [], hcells, _, _ => simp [CommQueue.element, hcells, CommElem.calloc] at hsome
      | el :: filled, hcells, hsock, hlen =>
        refine ⟨filled, by simp [Op.cells, hcells], fun el' hel' => hsock el' (by simp [hel']), ?_⟩
        simp only [Op.length, Op.gap, if_true]
        simp only [List.length_cons] at hlen
        push_cast at hlen
        omega
    · refine ⟨filled, by simp [Op.cells, hu, hcells], hsock, ?_⟩
      simp only [Op.length, Op.gap, if_neg (Ne.symm hu)]
      omega
  | count u' n =>
    refine ⟨filled, hcells, hsock, ?_⟩
    by_cases hu : u = u'
    · simp only [Op.length, Op.gap, if_pos hu, if_pos hu.symm]
      omega
    · simp only [Op.length, Op.gap, if_neg hu, if_neg (Ne.symm hu)]
      omega
  | _ =>
    refine ⟨filled, hcells, hsock, ?_⟩
    simp only [Op.length, Op.gap]
    omega

theorem step_total : ∑ u ∈ Finset.range s₁.fresh, (s₁.user u).commList.length = s₁.avail +
    ∑ i, (Function.update s.pc e.thread p' i).weight := by
  have htotal := hi.total
  have hplace : ∑ i, (Function.update s.pc e.thread p' i).weight =
      ∑ i, (s.pc i).weight + op.weight := by
    rw [sum_place (Finset.mem_univ _), act_weight hact]
    omega
  rw [hplace, run_avail hrun, run_fresh hrun, Finset.sum_congr rfl fun u _ => run_length hrun u]
  cases op with
  | create =>
    have hsame : ∑ u ∈ Finset.range s.fresh, Op.create.length s u =
        ∑ u ∈ Finset.range s.fresh, (s.user u).commList.length :=
      Finset.sum_congr rfl fun u hu => by
        simp [Op.length, (Finset.mem_range.mp hu).ne]
    simp only [Op.fresh, Finset.sum_range_succ, hsame, Op.avail, Op.weight]
    simp only [Op.length, if_true]
    linarith only [htotal]
  | count u n =>
    have hlt : u ∈ Finset.range s.fresh :=
      Finset.mem_range.mpr (hi.old u (hi.visits _ _ (act_count hact rfl).1))
    simp only [Op.fresh, Op.length, Finset.sum_add_distrib, Finset.sum_ite_eq', hlt, if_true,
      Op.avail, Op.weight]
    linarith only [htotal]
  | _ =>
    simp only [Op.fresh, Op.length, Op.avail, Op.weight]
    linarith only [htotal]

omit hrun in
theorem step_sound (i : ι) : ¬ (Function.update s.pc e.thread p' i).broken := by
  by_cases hth : i = e.thread
  · subst hth
    rw [Function.update_self]
    intro hb
    rcases act_broken hact hb with hb | ⟨hp, hcurr⟩ | ⟨u, hp, hnone⟩
    · exact hi.sound _ hb
    · exact hi.curr_ne_none hp hcurr
    · exact absurd (hi.element_isSome hp) (by simp [hnone])
  · rw [Function.update_of_ne hth]
    exact hi.sound i

end Places
end Step

theorem inv_step [Fintype ι] [DecidableEq ι] {s s' : State ι} {l : List UserIx} {e : Event ι}
    (hi : Inv s l) (h : step s e = some s') : ∃ l', Inv s' l' := by
  obtain ⟨⟨op, p'⟩, hact, h⟩ := Option.bind_eq_some_iff.mp h
  obtain ⟨s₁, hrun, rfl⟩ := Option.map_eq_some_iff.mp h
  have hgoto : s₁.goto e.thread p' = { s₁ with pc := Function.update s.pc e.thread p' } := by
    rw [State.goto, run_pc hrun]
  have hring := step_ring hi hact hrun
  have hold := step_old hi hact hrun
  have htree := step_tree hi hact hrun
  have hqueued := step_queued hi hact hrun
  have hlength := step_length hi hact hrun
  rw [hgoto]
  exact ⟨op.ring l, step_users hi hact hrun, step_lists hi hact hrun, step_queues hi hact hrun,
    hring, hold, htree, step_visits hi hact, step_makes hi hact hrun, hqueued,
    step_cells hi hact hrun, hlength, step_finds hi hact hrun, step_total hi hact hrun,
    step_sound hi hact⟩

/-- At the start no thread holds anything. -/
theorem start_idle (r : Role) : r.start.holdsUser = none ∧ r.start.holdsList = false ∧
    r.start.holdsQueue = none ∧ r.start.weight = 0 ∧ (∀ u, r.start.gap u = 0) ∧
      r.start.finds = none ∧ r.start.makes = none ∧ r.start.visits = none ∧ ¬ r.start.broken := by
  cases r <;> exact ⟨rfl, rfl, rfl, rfl, fun _ => rfl, rfl, rfl, rfl, Bool.false_ne_true⟩

theorem inv_init [Fintype ι] (role : ι → Role) : Inv (init role) [] where
  users u := .none fun i => by simp [init, (start_idle (role i)).1]
  lists := .none fun i => by simp [init, (start_idle (role i)).2.1]
  queues u := .none fun i => by simp [init, (start_idle (role i)).2.2.1]
  ring := rfl
  old u hu := by simp at hu
  tree u hu := by simp [init] at hu
  visits i u hu := by simp [init, start_idle (role i)] at hu
  makes i u hu := by simp [init, start_idle (role i)] at hu
  queued u hu := by simp [init, CommQueue.new] at hu
  cells u := ⟨[], rfl, by simp, by simp [init, CommQueue.new, start_idle]⟩
  length u := le_rfl
  finds i u hu := by simp [init, start_idle (role i)] at hu
  total := by simp [init, start_idle]
  sound i := (start_idle (role i)).2.2.2.2.2.2.2.2

/-! ### Runs -/

section Run
variable [Fintype ι]

/-- The commands in all queues. -/
def State.queued (s : State ι) : ℤ := ∑ u ∈ Finset.range s.fresh, (s.user u).commList.length

/-- The tokens that command handlers have taken, and neither given back nor turned into a command. -/
def State.taken (s : State ι) : ℤ := ∑ i, (s.pc i).tokens

end Run

/-- A handler in the search loop, and the user that it is at. -/
def Pc.searches : Pc → Option UserIx
  | .head .search u | .walkLock .search u | .walkNext .search u | .walkUnlock .search u
  | .test u | .free .search u => some u
  | _ => none

/-- Tokens match queued commands. -/
structure Matched [Fintype ι] (s : State ι) : Prop where
  enough : s.avail + s.taken ≤ s.queued
  equal : (∀ i, (s.pc i).pending = 0) → s.queued = s.avail + s.taken
  found : ∀ i u, (s.pc i).searches = some u → ∃ k, 0 < (s.user (s.uList.next^[k] u)).commList.length
  dequeues : ∀ i u, s.pc i = .deqTake u → (s.user u).commList.element.isSome
  sound : ∀ i, ¬ (s.pc i).broken

theorem Inv.matched [Fintype ι] [DecidableEq ι] {s : State ι} {l : List UserIx} (hi : Inv s l) :
    Matched s where
  enough := by
    have hle : s.taken ≤ ∑ i, (s.pc i).weight :=
      Finset.sum_le_sum fun i _ => Pc.tokens_le_weight (s.pc i)
    have htotal := hi.total
    rw [State.queued]
    linarith
  equal hpending := by
    rw [State.queued, hi.total, State.taken]
    congr 1
    exact Finset.sum_congr rfl fun i _ => by rw [Pc.weight, hpending i, add_zero]
  found i u hu := by
    have hv : (s.pc i).visits = some u ∧ 0 < (s.pc i).tokens := by
      revert hu
      fun_cases Pc.searches (s.pc i) <;> simp_all [Pc.visits, Pc.tokens, Loop.tokens]
    obtain ⟨u', hu'⟩ := hi.exists_queued hv.2
    obtain ⟨k, hk⟩ := hi.ring.reach (hi.visits i u hv.1) (hi.queued u' hu'.ne')
    exact ⟨k, hk ▸ hu'⟩
  dequeues _ _ hp := hi.element_isSome hp
  sound := hi.sound

/-- In every state that any number of threads reach, in any order of their steps, tokens match queued
    commands: a handler that searches has a queue to find, and its `cdeq` returns a command. -/
theorem tokens_match_commands [Fintype ι] [DecidableEq ι] {role : ι → Role}
    {es : List (Event ι)} {s : State ι} (h : exec step (init role) es = some s) : Matched s := by
  have hstep : ∀ (s : State ι) e s', (∃ l, Inv s l) → step s e = some s' → ∃ l, Inv s' l :=
    fun s e s' ⟨l, hi⟩ hs => inv_step hi hs
  obtain ⟨l, hi⟩ := exec_inv hstep es (init role) s ⟨[], inv_init role⟩ h
  exact hi.matched

end

/-- One connection makes a user and queues a command, one command handler comes to its `cdeq`. -/
def oneCommand : List (Event Bool) :=
  let add : Message := ⟨"1".toList, "ADD".toList, some "100.00".toList, 4⟩
  List.replicate 11 ⟨false, none, add⟩ ++ List.replicate 12 ⟨true, none, add⟩

theorem tokens_match_oneCommand :
    ∃ s, exec step (init fun b => if b then .command else .connection) oneCommand = some s ∧
      (∃ u, s.pc true = .deqTake u) ∧ Matched s := by
  have hrun : ∃ s ∈ exec step (init fun b => if b then .command else .connection) oneCommand,
      s.pc true = .deqTake 0 := by decide
  obtain ⟨s, hs, hp⟩ := hrun
  exact ⟨s, hs, ⟨0, hp⟩, tokens_match_commands hs⟩

end TradeC.Work
