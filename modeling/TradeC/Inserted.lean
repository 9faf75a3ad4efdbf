import TradeC.Accounts
import TradeC.Lib.Threads
import Mathlib.Algebra.Order.BigOperators.Group.Finset
import Mathlib.Data.Fin.VecNotation

/-! The row of an account is there before it is updated, as long as no command of a user is taken up,
    and no trigger, before an INSERT of the user has been run.

    A user in service is held by one thread; the requests of that thread are counted with its semaphore,
    so that a wait ends only when the thread's own request has been run. -/

namespace TradeC.Accounts
open Run Threads

section
set_option linter.unusedSectionVars false
variable {ι υ : Type*}

/-! ### What a place holds -/

namespace Pc

def holdsTree : Pc ι υ → Bool
  | .addTest _ | .addOld _ | .addLink _ | .addFound _ | .addUnlock _ => true
  | _ => false

/-- The user whose mutex the thread holds. -/
def holdsUser : Pc ι υ → Option υ
  | .addLink u | .addFound u | .addUnlock u | .load u | .addFree u => some u
  | .cdeq u | .serve _ u | .serveWait _ u _ | .free _ u => some u
  | _ => none

/-- The new user that `getUser` does not find yet. -/
def makes : Pc ι υ → Option υ
  | .addLink u | .addFound u => some u
  | _ => none

/-- The new user whose balance is not read yet. -/
def loads : Pc ι υ → Option υ
  | .addUnlock u | .load u => some u
  | _ => none

/-- The user for whom a command is executed or a trigger fired. -/
def serves : Pc ι υ → Option υ
  | .serve _ u | .serveWait _ u _ => some u
  | _ => none

/-- What the thread waits for. -/
def asks : Pc ι υ → Option (υ × Sql)
  | .insertWait u => some (u, .insertAcct)
  | .serveWait _ u b => some (u, .write b)
  | _ => none

/-- The request that a writer is about to run. -/
def inHand : Pc ι υ → Option (Request ι υ)
  | .exec r => some r
  | _ => none

variable [DecidableEq ι]

/-- A request of `i` that a writer has taken and not answered yet. -/
def carries (i : ι) : Pc ι υ → ℤ
  | .exec r | .post r => if r.dest = i then 1 else 0
  | _ => 0

/-- The answer that the thread waits for. -/
def weight : Pc ι υ → ℤ
  | .insertWait _ | .serveWait .. => 1
  | _ => 0

variable {p : Pc ι υ} {u : υ} {i : ι}

theorem carries_nonneg : 0 ≤ p.carries i := by
  unfold carries
  split
  · split <;> decide
  · split <;> decide
  · decide

theorem holdsUser_of_makes (h : p.makes = some u) : p.holdsUser = some u := by
  cases p <;> simp_all [makes, holdsUser]

theorem holdsTree_of_makes (h : p.makes = some u) : p.holdsTree := by
  cases p <;> simp_all [makes, holdsTree]

theorem holdsUser_of_loads (h : p.loads = some u) : p.holdsUser = some u := by
  cases p <;> simp_all [loads, holdsUser]

theorem serves_of_asks {b : Option ℤ} (h : p.asks = some (u, .write b)) : p.serves = some u := by
  cases p <;> simp_all [asks, serves]

theorem holdsUser_of_serves (h : p.serves = some u) : p.holdsUser = some u := by
  cases p <;> simp_all [serves, holdsUser]

end Pc

/-- A request that is in the queue or about to be run. -/
def Flight (s : State ι υ) (r : Request ι υ) : Prop :=
  r ∈ s.dbWrites ∨ ∃ k, (s.pc k).inHand = some r

/-! ### Steps -/

variable [DecidableEq ι] [DecidableEq υ]

/-- The user of whom a command is taken from the queue, or a trigger looked at. -/
def takenUp (s : State ι υ) (e : Event ι υ) : Option υ :=
  match s.pc e.thread with
  | .search .trigger => some e.user
  | .cdeq u => if (s.user u).commands = 0 then none else some u
  | _ => none

/-- Who is taken up has had an INSERT. -/
def RowFirst (s : State ι υ) (e : Event ι υ) : Prop := ∀ u ∈ takenUp s e, s.inserted u

instance (s : State ι υ) (e : Event ι υ) : Decidable (RowFirst s e) :=
  inferInstanceAs (Decidable (∀ u ∈ takenUp s e, _))

namespace Op

def Tree (op : Op ι υ) (held held' : Bool) : Prop :=
  match op with
  | .lockTree => held = false ∧ held' = true
  | .unlockTree => held = true ∧ held' = false
  | .create _ => held = true ∧ held' = true
  | _ => held' = held

/-- What an operation does to the mutex of a user. -/
def Users (op : Op ι υ) (held held' : Option υ) : Prop :=
  match op with
  | .lockUser u | .create u => held = none ∧ held' = some u
  | .unlockUser u => held = some u ∧ held' = none
  | .link u | .found u | .load u | .uncount u | .write u _ => held = some u ∧ held' = some u
  | _ => held' = held

def busy (s : State ι υ) (i : ι) (u : υ) : Op ι υ → Option ι
  | .lockUser u' | .create u' => if u = u' then some i else (s.user u).busy
  | .unlockUser u' => if u = u' then none else (s.user u).busy
  | _ => (s.user u).busy

def uTreeBusy (s : State ι υ) (i : ι) : Op ι υ → Option ι
  | .lockTree => some i
  | .unlockTree => none
  | _ => s.uTreeBusy

def balance (s : State ι υ) (u : υ) : Op ι υ → ℤ
  | .create u' => if u = u' then 0 else (s.user u).balance
  | .load u' => if u = u' then (s.account u).getD 0 else (s.user u).balance
  | .write u' b => if u = u' then b.getD (s.user u).balance else (s.user u).balance
  | _ => (s.user u).balance

def returned (s : State ι υ) (i j : ι) : Op ι υ → ℤ
  | .wait => if j = i then (s.returned j : ℤ) - 1 else s.returned j
  | .post r => if j = r.dest then (s.returned j : ℤ) + 1 else s.returned j
  | _ => s.returned j

/-- What an operation adds to the requests of `j` that its thread carries. -/
def carries (j : ι) : Op ι υ → ℤ
  | .take r => if r.dest = j then 1 else 0
  | .post r => if r.dest = j then -1 else 0
  | _ => 0

/-- What an operation adds to the answers that its thread waits for. -/
def weight : Op ι υ → ℤ
  | .insert _ | .write .. => 1
  | .wait => -1
  | _ => 0

/-- The request that an operation puts into the queue. -/
def request (i : ι) : Op ι υ → Option (Request ι υ)
  | .insert u => some ⟨i, u, .insertAcct⟩
  | .write u b => some ⟨i, u, .write b⟩
  | _ => none

/-- What an operation leaves in the queue. -/
def leaves (s : State ι υ) : Op ι υ → List (Request ι υ)
  | .take _ => s.dbWrites.tail
  | _ => s.dbWrites

/-- The queue after an operation of thread `i`. -/
def dbWrites (s : State ι υ) (i : ι) (op : Op ι υ) : List (Request ι υ) :=
  op.leaves s ++ (op.request i).toList

end Op

section Act
variable {s : State ι υ} {e : Event ι υ} {p p' : Pc ι υ} {op : Op ι υ} {u : υ}
  (h : act s e p = some (op, p'))
include h

theorem act_tree : op.Tree p.holdsTree p'.holdsTree := by
  revert h
  fun_cases act s e p <;> intro h <;> cases h <;> simp [Op.Tree, Pc.holdsTree]

theorem act_users : op.Users p.holdsUser p'.holdsUser := by
  revert h
  fun_cases act s e p <;> intro h <;> cases h <;> simp [Op.Users, Pc.holdsUser]

theorem act_found (hop : op = .found u) : p.makes = some u ∧ p'.loads = some u := by
  revert h
  fun_cases act s e p <;> intro h <;> cases h <;> simp_all [Pc.makes, Pc.loads]

/-- A thread holds a user that it is making, that it held before, or that it has found in the list. -/
theorem act_holds (hu : p'.holdsUser = some u) :
    p'.makes = some u ∨ op = .found u ∨ (p.holdsUser = some u ∧ p.makes = none) ∨
      (op = .lockUser u ∧ (s.user u).linked ∧ (s.user u).busy = none) := by
  revert h
  fun_cases act s e p <;> intro h <;> cases h <;>
    simp_all [Pc.holdsUser, Pc.makes, Option.isNone_iff_eq_none]

theorem act_link (hop : op = .link u) : p' = .addFound u := by
  revert h
  fun_cases act s e p <;> intro h <;> cases h <;> simp_all

theorem act_create (hop : op = .create u) : (s.user u).found = false := by
  revert h
  fun_cases act s e p <;> intro h <;> cases h <;> simp_all

theorem act_addFound (hp : p = .addFound u) : op = .found u := by
  subst hp
  cases h
  rfl

theorem act_asks : p'.asks = (op.request e.thread).map fun r => (r.user, r.sql) := by
  revert h
  fun_cases act s e p <;> intro h <;> cases h <;> simp [Pc.asks, Op.request]

theorem act_inHand {r : Request ι υ} (hr : p'.inHand = some r) : op = .take r := by
  revert h
  fun_cases act s e p <;> intro h <;> cases h <;> simp_all [Pc.inHand]

theorem act_take {r : Request ι υ} (hop : op = .take r) :
    p'.inHand = some r ∧ ∃ rest, s.dbWrites = r :: rest := by
  revert h
  fun_cases act s e p <;> intro h <;> cases h <;> simp_all [Pc.inHand]

theorem act_exec {r : Request ι υ} : p.inHand = some r ↔ op = .exec r := by
  revert h
  fun_cases act s e p <;> intro h <;> cases h <;> simp [Pc.inHand]

theorem act_carries (i : ι) : p'.carries i = p.carries i + op.carries i := by
  revert h
  fun_cases act s e p <;> intro h <;> cases h <;> simp [Pc.carries, Op.carries]
  split <;> rfl

theorem act_weight : p'.weight = p.weight + op.weight := by
  revert h
  fun_cases act s e p <;> intro h <;> cases h <;> simp [Pc.weight, Op.weight]

/-- Who is served has been taken up. -/
theorem act_serves (hp : s.pc e.thread = p) (hu : p'.serves = some u) :
    p.serves = some u ∨ takenUp s e = some u := by
  revert h
  unfold takenUp
  rw [hp]
  fun_cases act s e p <;> intro h <;> cases h <;> simp_all [Pc.serves]

theorem act_loads (hu : p.loads = some u) : p'.loads = some u ∨ op = .load u := by
  revert h
  fun_cases act s e p <;> intro h <;> cases h <;> simp_all [Pc.loads]

/-- A thread asks for something, or its wait is over. -/
theorem act_asks_of (hp : p.asks ≠ none) : op = .wait := by
  revert h
  fun_cases act s e p <;> intro h <;> cases h <;> simp_all [Pc.asks]

end Act

section Run
variable {s s₁ : State ι υ} {i : ι} {op : Op ι υ} {u : υ} (h : s.run i op = some s₁)
include h

theorem run_pc : s₁.pc = s.pc := by
  revert h
  fun_cases State.run s i op <;> intro h <;> cases h <;> try rfl
  fun_cases State.pqexec <;> rfl

theorem run_uTreeBusy : s₁.uTreeBusy = op.uTreeBusy s i := by
  revert h
  fun_cases State.run s i op <;> intro h <;> cases h <;> try rfl
  fun_cases State.pqexec <;> rfl

theorem run_lockTree (hop : op = .lockTree) : s.uTreeBusy = none := by
  subst hop
  simp only [State.run, Option.ite_none_right_eq_some] at h
  exact h.1

theorem run_lockUser (hop : op = .lockUser u) : (s.user u).busy = none := by
  subst hop
  simp only [State.run, Option.ite_none_right_eq_some] at h
  exact h.1

theorem run_wait (hop : op = .wait) : s.returned i ≠ 0 := by
  subst hop
  simp only [State.run, Option.ite_none_left_eq_some] at h
  exact h.1

theorem run_busy (u : υ) : (s₁.user u).busy = op.busy s i u := by
  revert h
  fun_cases State.run s i op <;> intro h <;> cases h <;>
    simp only [State.setUser, State.dbenq, State.pqexec, Function.update_apply, Op.busy]
  all_goals split <;> simp_all

theorem run_balance (u : υ) : (s₁.user u).balance = op.balance s u := by
  revert h
  fun_cases State.run s i op <;> intro h <;> cases h <;>
    simp only [State.setUser, State.dbenq, State.pqexec, Function.update_apply, Op.balance]
  all_goals split <;> simp_all

theorem run_found (hop : op ≠ .create u) (hu : (s.user u).found) : (s₁.user u).found := by
  revert h
  fun_cases State.run s i op <;> intro h <;> cases h <;> try exact hu
  all_goals simp only [State.setUser, State.dbenq, State.pqexec, Function.update_apply]
  all_goals split <;> simp_all

theorem run_found_of (hu : (s₁.user u).found) : (s.user u).found ∨ op = .found u := by
  revert hu h
  fun_cases State.run s i op <;> intro h <;> cases h <;> intro hu <;> try exact .inl hu
  all_goals simp only [State.setUser, State.dbenq, State.pqexec, Function.update_apply] at hu
  all_goals split at hu <;> simp_all

theorem run_linked_of (hu : (s₁.user u).linked) : (s.user u).linked ∨ op = .link u := by
  revert hu h
  fun_cases State.run s i op <;> intro h <;> cases h <;> intro hu <;> try exact .inl hu
  all_goals simp only [State.setUser, State.dbenq, State.pqexec, Function.update_apply] at hu
  all_goals split at hu <;> simp_all

theorem run_dbWrites : s₁.dbWrites = op.dbWrites s i := by
  revert h
  fun_cases State.run s i op <;> intro h <;> cases h <;>
    simp [State.setUser, State.dbenq, State.pqexec, Op.dbWrites, Op.leaves, Op.request]
  split <;> rfl

theorem run_returned (j : ι) : (s₁.returned j : ℤ) = op.returned s i j := by
  revert h
  fun_cases State.run s i op <;> intro h <;> cases h <;>
    simp only [State.setUser, State.dbenq, State.pqexec, Function.update_apply, Op.returned]
  all_goals split <;> simp_all
  omega

/-- Rows are written by the writers only. -/
theorem run_account (hop : ∀ r, op ≠ .exec r) :
    s₁.account = s.account ∧ s₁.inserted = s.inserted := by
  revert h
  fun_cases State.run s i op <;> intro h <;> cases h <;> try exact ⟨rfl, rfl⟩
  exact absurd rfl (hop _)

theorem run_inserted (hu : s.inserted u) : s₁.inserted u := by
  revert h
  fun_cases State.run s i op <;> intro h <;> cases h <;> try exact hu
  fun_cases State.pqexec <;> simp_all [Function.update_apply]

end Run

/-! ### The invariant -/

structure Inv [Fintype ι] (s : State ι υ) : Prop where
  tree : Guards s.pc (fun p => p.holdsTree = true) s.uTreeBusy
  users : ∀ u, Guards s.pc (fun p => p.holdsUser = some u) (s.user u).busy
  holds : ∀ i u, (s.pc i).holdsUser = some u → (s.pc i).makes = some u ∨ (s.user u).found
  linked : ∀ u, (s.user u).linked → (s.user u).found ∨ ∃ i, s.pc i = .addFound u
  tokens : ∀ i, (s.returned i : ℤ) + s.dbWrites.countP (·.dest = i) + ∑ k, (s.pc k).carries i =
    (s.pc i).weight
  sent : ∀ r, Flight s r → (s.pc r.dest).asks = some (r.user, r.sql)
  row : ∀ u, s.inserted u → (s.account u).isSome
  served : ∀ i u, (s.pc i).serves = some u → s.inserted u
  amount : ∀ r b, Flight s r → r.sql = .write (some b) → b = (s.user r.user).balance
  shown : ∀ u, (s.user u).found → (s.account u).getD 0 = (s.user u).balance ∨
    (∃ i, (s.pc i).loads = some u) ∨
    ∃ r, Flight s r ∧ r.user = u ∧ r.sql = .write (some (s.user u).balance)

namespace Inv
variable [Fintype ι] {s s₁ : State ι υ} {e : Event ι υ} {op : Op ι υ} {p' : Pc ι υ} (hi : Inv s)
include hi

/-- No request of a thread whose semaphore is posted is on its way. -/
theorem returned_or_flight {r : Request ι υ} (hr : Flight s r) : s.returned r.dest = 0 := by
  have htok := hi.tokens r.dest
  have hweight : (s.pc r.dest).weight = 1 := by
    have hasks := hi.sent r hr
    revert hasks
    cases s.pc r.dest <;> simp [Pc.asks, Pc.weight]
  have hsum : 0 ≤ ∑ k, (s.pc k).carries r.dest := Finset.sum_nonneg fun _ _ => Pc.carries_nonneg
  rcases hr with hmem | ⟨k, hk⟩
  · have hpos : 0 < s.dbWrites.countP (·.dest = r.dest) :=
      List.countP_pos_iff.mpr ⟨r, hmem, by simp⟩
    omega
  · have hone : (s.pc k).carries r.dest ≤ ∑ k, (s.pc k).carries r.dest :=
      Finset.single_le_sum (fun _ _ => Pc.carries_nonneg) (Finset.mem_univ k)
    have hcarry : (s.pc k).carries r.dest = 1 := by
      revert hk
      cases s.pc k <;> simp [Pc.inHand, Pc.carries]
      rintro rfl
      rfl
    omega

variable (hact : act s e (s.pc e.thread) = some (op, p')) (hrun : s.run e.thread op = some s₁)
include hact

theorem not_holds_create {u : υ} (hop : op = .create u) (j : ι) :
    (s.pc j).holdsUser ≠ some u := by
  intro hj
  subst hop
  rcases hi.holds j u hj with hmakes | hfound
  · have heq := hi.tree.excl (Pc.holdsTree_of_makes hmakes) (act_tree hact).1
    rw [heq, (act_users hact).1] at hj
    cases hj
  · rw [act_create hact rfl] at hfound
    cases hfound

include hrun

theorem step_tree :
    Guards (Function.update s.pc e.thread p') (fun p => p.holdsTree = true) s₁.uTreeBusy := by
  rw [run_uTreeBusy hrun]
  have htree := act_tree hact
  have hguards := hi.tree
  cases op with
  | lockTree =>
    rw [run_lockTree hrun rfl] at hguards
    exact hguards.lock htree.2
  | unlockTree => exact hguards.unlock htree.1 (by simp [htree.2])
  | create u => exact hguards.skip (by simp [htree.1, htree.2])
  | _ => exact hguards.skip (by rw [show p'.holdsTree = _ from htree])

theorem step_users (u : υ) : Guards (Function.update s.pc e.thread p')
    (fun p => p.holdsUser = some u) (s₁.user u).busy := by
  rw [run_busy hrun]
  have husers := act_users hact
  have hguards := hi.users u
  cases op with
  | lockUser u' =>
    simp only [Op.busy]
    split_ifs with hu
    · subst hu
      rw [run_lockUser hrun rfl] at hguards
      exact hguards.lock husers.2
    · exact hguards.skip (by simp [husers.1, husers.2, Ne.symm hu])
  | create u' =>
    simp only [Op.busy]
    split_ifs with hu
    · subst hu
      exact (Guards.none (hi.not_holds_create hact rfl)).lock husers.2
    · exact hguards.skip (by simp [husers.1, husers.2, Ne.symm hu])
  | unlockUser u' =>
    simp only [Op.busy]
    split_ifs with hu
    · subst hu
      exact hguards.unlock husers.1 (by simp [husers.2])
    · exact hguards.skip (by simp [husers.1, husers.2, Ne.symm hu])
  | link u' => exact hguards.skip (by simp [husers.1, husers.2])
  | found u' => exact hguards.skip (by simp [husers.1, husers.2])
  | load u' => exact hguards.skip (by simp [husers.1, husers.2])
  | uncount u' => exact hguards.skip (by simp [husers.1, husers.2])
  | write u' b => exact hguards.skip (by simp [husers.1, husers.2])
  | _ => exact hguards.skip (by rw [show p'.holdsUser = _ from husers])

theorem step_found {u : υ} (hu : (s.user u).found) : (s₁.user u).found := by
  refine run_found hrun ?_ hu
  rintro rfl
  rw [act_create hact rfl] at hu
  cases hu

theorem step_linked (u : υ) (hu : (s₁.user u).linked) :
    (s₁.user u).found ∨ ∃ j, Function.update s.pc e.thread p' j = .addFound u := by
  rcases run_linked_of hrun hu with hold | rfl
  · rcases hi.linked u hold with hfound | ⟨j, hj⟩
    · exact .inl (hi.step_found hact hrun hfound)
    · by_cases hji : j = e.thread
      · have hop := act_addFound hact (hji ▸ hj)
        subst hop
        have hmakes := (act_found hact rfl).1
        simp only [State.run, Option.some.injEq] at hrun
        subst hrun
        exact .inl (by simp [State.setUser])
      · exact .inr ⟨j, by rw [Function.update_of_ne hji, hj]⟩
  · exact .inr ⟨e.thread, by rw [Function.update_self, act_link hact rfl]⟩

theorem step_holds (j : ι) (u : υ) (hu : (Function.update s.pc e.thread p' j).holdsUser = some u) :
    (Function.update s.pc e.thread p' j).makes = some u ∨ (s₁.user u).found := by
  by_cases hj : j = e.thread
  · subst hj
    rw [Function.update_self] at hu ⊢
    rcases act_holds hact hu with hmakes | rfl | ⟨hheld, hmakes⟩ | ⟨rfl, hlinked, hfree⟩
    · exact .inl hmakes
    · simp only [State.run, Option.some.injEq] at hrun
      subst hrun
      exact .inr (by simp [State.setUser])
    · have hor := hi.holds _ u hheld
      rw [hmakes] at hor
      exact .inr (hi.step_found hact hrun (by simpa using hor))
    -- a user that is in the list and free has been found
    · rcases hi.linked u hlinked with hfound | ⟨k, hk⟩
      · exact .inr (hi.step_found hact hrun hfound)
      · exact absurd ((hi.users u k).mpr (by simp only [hk]; rfl)) (by simp [hfree])
  · rw [Function.update_of_ne hj] at hu ⊢
    exact (hi.holds j u hu).imp id (hi.step_found hact hrun)

theorem step_served (hfirst : RowFirst s e) (j : ι) (u : υ)
    (hu : (Function.update s.pc e.thread p' j).serves = some u) : s₁.inserted u := by
  refine run_inserted hrun ?_
  by_cases hj : j = e.thread
  · subst hj
    rw [Function.update_self] at hu
    rcases act_serves hact rfl hu with hserves | htaken
    · exact hi.served _ u hserves
    · exact hfirst u htaken
  · rw [Function.update_of_ne hj] at hu
    exact hi.served j u hu

/-! ### Requests -/

/-- A request on its way was on its way before, or has just been put into the queue. -/
theorem flight_of {r : Request ι υ} (hr : Flight (s₁.goto e.thread p') r) :
    Flight s r ∨ op.request e.thread = some r := by
  rcases hr with hmem | ⟨k, hk⟩
  · change r ∈ s₁.dbWrites at hmem
    rw [run_dbWrites hrun, Op.dbWrites, List.mem_append, Option.mem_toList] at hmem
    refine hmem.imp (fun h => .inl ?_) id
    cases op with
    | take r' => exact List.mem_of_mem_tail h
    | _ => exact h
  · simp only [State.goto, run_pc hrun, Function.update_apply] at hk
    split_ifs at hk
    · obtain rfl := act_inHand hact hk
      obtain ⟨-, rest, hqueue⟩ := act_take hact rfl
      exact .inl (.inl (by simp [hqueue]))
    · exact .inl (.inr ⟨k, hk⟩)

theorem flight_mono {r : Request ι υ} (hr : Flight s r) (hop : op ≠ .exec r) :
    Flight (s₁.goto e.thread p') r := by
  rcases hr with hmem | ⟨k, hk⟩
  · by_cases htake : op = .take r
    · exact .inr ⟨e.thread, by
        simpa [State.goto, run_pc hrun] using (act_take hact htake).1⟩
    · refine .inl ?_
      change r ∈ s₁.dbWrites
      rw [run_dbWrites hrun, Op.dbWrites, List.mem_append]
      refine .inl ?_
      cases op with
      | take r' =>
        obtain ⟨-, rest, hqueue⟩ := act_take hact rfl
        rw [hqueue] at hmem
        rw [Op.leaves, hqueue]
        rcases List.mem_cons.mp hmem with rfl | hrest
        · exact absurd rfl htake
        · exact hrest
      | _ => exact hmem
  · refine .inr ⟨k, ?_⟩
    simp only [State.goto, run_pc hrun]
    rw [Function.update_of_ne, hk]
    rintro rfl
    exact hop ((act_exec hact).mp hk)

theorem step_tokens (j : ι) : (s₁.returned j : ℤ) + s₁.dbWrites.countP (·.dest = j) +
    ∑ k, (Function.update s.pc e.thread p' k).carries j =
      (Function.update s.pc e.thread p' j).weight := by
  have htok := hi.tokens j
  have hsum := sum_place (Finset.mem_univ e.thread) (Pc.carries j) s.pc p'
  rw [act_carries hact j] at hsum
  have hweight : (Function.update s.pc e.thread p' j).weight =
      (s.pc j).weight + if j = e.thread then op.weight else 0 := by
    by_cases hj : j = e.thread
    · subst hj
      simp [act_weight hact]
    · simp [hj]
  rw [hsum, hweight, run_returned hrun, run_dbWrites hrun, Op.dbWrites]
  cases op with
  | insert u =>
    by_cases hj : j = e.thread
    · subst hj
      simp [Op.returned, Op.leaves, Op.request, Op.carries, Op.weight]
      omega
    · simp [Op.returned, Op.leaves, Op.request, Op.carries, hj, Ne.symm hj]
      omega
  | write u b =>
    by_cases hj : j = e.thread
    · subst hj
      simp [Op.returned, Op.leaves, Op.request, Op.carries, Op.weight]
      omega
    · simp [Op.returned, Op.leaves, Op.request, Op.carries, hj, Ne.symm hj]
      omega
  | wait =>
    simp only [Op.returned, Op.leaves, Op.request, Op.carries, Op.weight]
    split_ifs <;> simp <;> omega
  | take r =>
    obtain ⟨-, rest, hqueue⟩ := act_take hact rfl
    rw [hqueue, List.countP_cons] at htok
    simp only [Op.returned, Op.leaves, Op.request, Op.carries, Op.weight, hqueue, List.tail_cons,
      Option.toList_none, List.append_nil, decide_eq_true_eq] at htok ⊢
    split_ifs at htok ⊢ <;> omega
  | post r =>
    simp only [Op.returned, Op.leaves, Op.request, Op.carries, Op.weight, Option.toList_none,
      List.append_nil, eq_comm (a := j)]
    split_ifs <;> omega
  | _ =>
    simp only [Op.returned, Op.leaves, Op.request, Op.carries, Op.weight, Option.toList_none,
      List.append_nil, ite_self]
    omega

/-- The thread that steps has no request on its way. -/
theorem flight_other {r : Request ι υ} (hr : Flight s r) : r.dest ≠ e.thread := by
  intro hdest
  have hasks := hi.sent r hr
  have hop := act_asks_of hact (by rw [← hdest, hasks]; simp)
  exact run_wait hrun hop (hdest ▸ hi.returned_or_flight hr)

theorem step_sent (r : Request ι υ) (hr : Flight (s₁.goto e.thread p') r) :
    (Function.update s.pc e.thread p' r.dest).asks = some (r.user, r.sql) := by
  rcases hi.flight_of hact hrun hr with hold | hnew
  · rw [Function.update_of_ne (hi.flight_other hact hrun hold)]
    exact hi.sent r hold
  · have hdest : r.dest = e.thread := by
      cases op <;> simp [Op.request] at hnew <;> rw [← hnew]
    rw [hdest, Function.update_self, act_asks hact, hnew]
    rfl

/-- While a request for a user is on its way, its requester holds the user. -/
theorem balance_other {r : Request ι υ} {b : Option ℤ} (hr : Flight s r) (hsql : r.sql = .write b) :
    (s₁.user r.user).balance = (s.user r.user).balance := by
  have hholds : (s.pc r.dest).holdsUser = some r.user :=
    Pc.holdsUser_of_serves (Pc.serves_of_asks (hsql ▸ hi.sent r hr))
  have hother := hi.flight_other hact hrun hr
  have hne : (s.pc e.thread).holdsUser ≠ some r.user := fun h =>
    hother ((hi.users r.user).excl hholds h)
  have husers := act_users hact
  rw [run_balance hrun]
  cases op with
  | create u =>
    refine if_neg fun h : r.user = u => hi.not_holds_create hact rfl r.dest ?_
    rw [← h]
    exact hholds
  | load u => exact if_neg fun h : r.user = u => hne (h ▸ husers.1)
  | write u b => exact if_neg fun h : r.user = u => hne (h ▸ husers.1)
  | _ => rfl

theorem step_amount (r : Request ι υ) (b : ℤ) (hr : Flight (s₁.goto e.thread p') r)
    (hsql : r.sql = .write (some b)) : b = (s₁.user r.user).balance := by
  rcases hi.flight_of hact hrun hr with hold | hnew
  · rw [hi.balance_other hact hrun hold hsql]
    exact hi.amount r b hold hsql
  · rw [run_balance hrun]
    cases op <;> simp only [Op.request, Option.some.injEq, reduceCtorEq] at hnew
    · subst hnew
      cases hsql
    · subst hnew
      cases hsql
      simp [Op.balance]

omit hact in
theorem step_row (u : υ) (hu : s₁.inserted u) : (s₁.account u).isSome := by
  cases op with
  | exec r =>
    simp only [State.run, Option.some.injEq] at hrun
    subst hrun
    have hrow := hi.row u
    revert hu
    unfold State.pqexec
    split
    · simp only [Function.update_apply]
      split_ifs
      · exact fun _ => rfl
      · exact hrow
    · exact hrow
    · simp only [Function.update_apply]
      split_ifs with hu
      · subst hu
        simpa using hrow
      · exact hrow
  | _ =>
    obtain ⟨haccount, hinserted⟩ := run_account hrun (by simp)
    rw [haccount]
    exact hi.row u (hinserted ▸ hu)

omit hact in
/-- The request of a user that is in service brings its balance to the row. -/
theorem exec_write {r : Request ι υ} {b : ℤ} (hr : Flight s r) (hop : op = .exec r)
    (hsql : r.sql = .write (some b)) : (s₁.account r.user).getD 0 = b := by
  subst hop
  simp only [State.run, Option.some.injEq] at hrun
  subst hrun
  have hserved := hi.served r.dest r.user (Pc.serves_of_asks (hsql ▸ hi.sent r hr))
  obtain ⟨x, hx⟩ := Option.isSome_iff_exists.mp (hi.row r.user hserved)
  simp [State.pqexec, hsql, hx]

/-- A step that shows the balance of a user keeps it shown, but for a write, whose request is then on
    its way. -/
theorem step_keeps {u : υ} (hu : (s.user u).found)
    (h : (s.account u).getD 0 = (s.user u).balance) :
    (s₁.account u).getD 0 = (s₁.user u).balance ∨
      ∃ r, Flight (s₁.goto e.thread p') r ∧ r.user = u ∧
        r.sql = .write (some (s₁.user u).balance) := by
  have hbalance := run_balance hrun u
  cases op with
  | create u' =>
    refine .inl ?_
    have hne : u ≠ u' := by
      rintro rfl
      rw [act_create hact rfl] at hu
      cases hu
    rw [hbalance, (run_account hrun (by simp)).1, Op.balance, if_neg hne, h]
  | load u' =>
    refine .inl ?_
    rw [hbalance, (run_account hrun (by simp)).1, Op.balance]
    split_ifs
    · rfl
    · exact h
  | write u' b =>
    rw [hbalance, (run_account hrun (by simp)).1, Op.balance]
    split_ifs with hu'
    · subst hu'
      cases b with
      | none => exact .inl h
      | some x =>
        refine .inr ⟨⟨e.thread, u, .write (some x)⟩, .inl ?_, rfl, rfl⟩
        change _ ∈ s₁.dbWrites
        rw [run_dbWrites hrun]
        simp [Op.dbWrites, Op.request]
    · exact .inl h
  | exec r =>
    refine .inl ?_
    rw [hbalance]
    change _ = (s.user u).balance
    have hflight : Flight s r := .inr ⟨e.thread, (act_exec hact).mpr rfl⟩
    by_cases hr : r.user = u
    · subst hr
      cases hsql : r.sql with
      | insertAcct =>
        simp only [State.run, Option.some.injEq] at hrun
        subst hrun
        simp [State.pqexec, hsql, h]
      | write b =>
        cases b with
        | none =>
          simp only [State.run, Option.some.injEq] at hrun
          subst hrun
          simp [State.pqexec, hsql, h]
        | some x =>
          rw [hi.exec_write hrun hflight rfl hsql]
          exact hi.amount r x hflight hsql
    · have hother : s₁.account u = s.account u := by
        simp only [State.run, Option.some.injEq] at hrun
        subst hrun
        unfold State.pqexec
        split <;> simp [Function.update_of_ne (Ne.symm hr)]
      rw [hother, h]
  | _ => exact .inl (by rw [hbalance, (run_account hrun (by simp)).1, h]; rfl)

theorem step_shown (u : υ) (hu : (s₁.user u).found) :
    (s₁.account u).getD 0 = (s₁.user u).balance ∨
      (∃ j, (Function.update s.pc e.thread p' j).loads = some u) ∨
      ∃ r, Flight (s₁.goto e.thread p') r ∧ r.user = u ∧
        r.sql = .write (some (s₁.user u).balance) := by
  rcases run_found_of hrun hu with hfound | rfl
  · rcases hi.shown u hfound with hshown | ⟨j, hj⟩ | ⟨r, hr, rfl, hsql⟩
    · exact (hi.step_keeps hact hrun hfound hshown).imp id .inr
    · by_cases hji : j = e.thread
      · subst hji
        rcases act_loads hact hj with hloads | rfl
        · exact .inr (.inl ⟨e.thread, by rw [Function.update_self, hloads]⟩)
        · refine .inl ?_
          rw [run_balance hrun, (run_account hrun (by simp)).1, Op.balance, if_pos rfl]
      · exact .inr (.inl ⟨j, by rw [Function.update_of_ne hji, hj]⟩)
    · by_cases hexec : op = .exec r
      · refine .inl ?_
        rw [hi.exec_write hrun hr hexec hsql, hi.balance_other hact hrun hr hsql]
      · refine .inr (.inr ⟨r, hi.flight_mono hact hrun hr hexec, rfl, ?_⟩)
        rw [hsql, hi.balance_other hact hrun hr hsql]
  · exact .inr (.inl ⟨e.thread, by rw [Function.update_self, (act_found hact rfl).2]⟩)

end Inv

theorem Inv.step [Fintype ι] {s s' : State ι υ} {e : Event ι υ} (hi : Inv s) (hfirst : RowFirst s e)
    (hstep : step s e = some s') : Inv s' := by
  obtain ⟨⟨op, p'⟩, hact, hmap⟩ := Option.bind_eq_some_iff.mp hstep
  obtain ⟨s₁, hrun, rfl⟩ := Option.map_eq_some_iff.mp hmap
  have hpc : (s₁.goto e.thread p').pc = Function.update s.pc e.thread p' := by
    rw [State.goto, run_pc hrun]
  constructor
  case tree => exact hpc ▸ (hi.step_tree hact hrun :)
  case users => exact hpc ▸ (hi.step_users hact hrun :)
  case holds => exact hpc ▸ (hi.step_holds hact hrun :)
  case linked => exact hpc ▸ (hi.step_linked hact hrun :)
  case tokens => exact hpc ▸ (hi.step_tokens hact hrun :)
  case sent => exact hpc ▸ (hi.step_sent hact hrun :)
  case row => exact (hi.step_row hrun :)
  case served => exact hpc ▸ (hi.step_served hact hrun hfirst :)
  case amount => exact (hi.step_amount hact hrun :)
  case shown => exact hpc ▸ (hi.step_shown hact hrun :)

theorem inv_init [Fintype ι] (role : ι → Role) (account : υ → Option ℤ) :
    Inv (init role account) := by
  have hstart : ∀ r : Role, (r.start : Pc ι υ).holdsTree = false ∧
      (r.start : Pc ι υ).holdsUser = none ∧ (r.start : Pc ι υ).serves = none ∧
      (r.start : Pc ι υ).inHand = none ∧ (r.start : Pc ι υ).weight = 0 ∧
      ∀ i, (r.start : Pc ι υ).carries i = 0 := by
    intro r
    cases r <;> exact ⟨rfl, rfl, rfl, rfl, rfl, fun _ => rfl⟩
  have hflight : ∀ r, ¬ Flight (init role account) r := by
    rintro r (hmem | ⟨k, hk⟩)
    · cases hmem
    · rw [show (init role account).pc k = (role k).start from rfl, (hstart _).2.2.2.1] at hk
      cases hk
  constructor
  case tree => exact .none fun i => by simp [init, (hstart _).1]
  case users => exact fun u => .none fun i => by simp [init, (hstart _).2.1]
  case holds =>
    intro i u hu
    rw [show (init role account).pc i = (role i).start from rfl, (hstart _).2.1] at hu
    cases hu
  case linked =>
    intro u hu
    cases hu
  case tokens =>
    intro i
    simp [init, (hstart _).2.2.2.2.1, (hstart _).2.2.2.2.2]
  case sent => exact fun r hr => absurd hr (hflight r)
  case row =>
    intro u hu
    cases hu
  case served =>
    intro i u hu
    rw [show (init role account).pc i = (role i).start from rfl, (hstart _).2.2.1] at hu
    cases hu
  case amount => exact fun r b hr => absurd hr (hflight r)
  case shown =>
    intro u hu
    cases hu

theorem Inv.sound [Fintype ι] {s : State ι υ} (hi : Inv s) : Sound s where
  ordered r hr hsql := by
    have hflight : Flight s r := hr.imp id fun ⟨k, hk⟩ => ⟨k, by rw [hk]; rfl⟩
    cases hsql' : r.sql with
    | insertAcct => exact absurd hsql' hsql
    | write b => exact hi.served r.dest r.user (Pc.serves_of_asks (hsql' ▸ hi.sent r hflight))
  kept u hfound hfree hins := by
    have hnone : ∀ j, (s.pc j).holdsUser ≠ some u := fun j hj => by
      simpa [hfree] using (hi.users u j).mpr hj
    obtain ⟨x, hx⟩ := Option.isSome_iff_exists.mp (hi.row u hins)
    rcases hi.shown u hfound with hshown | ⟨j, hj⟩ | ⟨r, hr, rfl, hsql⟩
    · rw [hx] at hshown ⊢
      exact congrArg some hshown
    · exact absurd (Pc.holdsUser_of_loads hj) (hnone j)
    · exact absurd (Pc.holdsUser_of_serves (Pc.serves_of_asks (hsql ▸ hi.sent r hr)))
        (hnone r.dest)

/-- In every run in which no command of a user is taken up, and no trigger looked at, before an INSERT of
    the user has been run: no other request of the user is put into the queue before that, and the row
    of a user that no thread holds is its balance. -/
theorem insert_before_update [Fintype ι] {role : ι → Role} {account : υ → Option ℤ}
    {es : List (Event ι υ)} {s : State ι υ}
    (hfirst : Along Accounts.step RowFirst (init role account) es)
    (h : exec Accounts.step (init role account) es = some s) : Sound s :=
  (exec_inv_along (fun _ _ _ hi hok hs => Inv.step hi hok hs) es _ s (inv_init role account) hfirst
    h).sound

end

/-! ### One user -/

/-- Two connections, a command handler and a writer. -/
def four : Fin 4 → Role := ![.connection, .connection, .taker .command, .dbWriter]

/-- Steps of one thread, which asks for `write` where it can. -/
def steps (i : Fin 4) (n : ℕ) (write : Option (Option ℤ)) : List (Event (Fin 4) Unit) :=
  List.replicate n ⟨i, (), write⟩

/-- A connection makes the user and waits for its INSERT; then its command is executed. -/
def insertThenAdd : List (Event (Fin 4) Unit) :=
  steps 0 9 none ++ steps 3 3 none ++ steps 0 2 none ++ steps 2 3 (some (some 100)) ++
    steps 3 3 none ++ steps 2 2 none

theorem insert_before_update_insertThenAdd : ∃ s,
    exec step (init four fun _ => none) insertThenAdd = some s ∧ s.account () = some 100 ∧
      Sound s := by
  have hfirst : Along step RowFirst (init four fun _ => none) insertThenAdd := by decide
  have hrun : ∃ s ∈ exec step (init four fun _ => none) insertThenAdd,
      s.account () = some 100 := by decide
  obtain ⟨s, hs, haccount⟩ := hrun
  exact ⟨s, hs, haccount, insert_before_update hfirst hs⟩

/-- A second connection finds the user before the first one asks for the INSERT; its command is
    executed, and its UPDATE runs before the INSERT. -/
def addThenInsert : List (Event (Fin 4) Unit) :=
  steps 0 8 none ++ steps 1 2 none ++ steps 2 3 (some (some 100)) ++ steps 3 3 none ++
    steps 2 2 none ++ steps 0 1 none ++ steps 3 3 none

theorem addThenInsert_loses : (∃ s, exec step (init four fun _ => none) addThenInsert = some s ∧
      s.account () = some 0 ∧ (s.user ()).balance = 100 ∧ ¬ Sound s) ∧
    ∃ n s, exec step (init four fun _ => none) (addThenInsert.take n) = some s ∧
      (∃ r ∈ s.dbWrites, r.sql ≠ .insertAcct) ∧ s.inserted () = false := by
  have hrun : ∃ s ∈ exec step (init four fun _ => none) addThenInsert,
      s.account () = some 0 ∧ (s.user ()).balance = 100 ∧ (s.user ()).found ∧
        (s.user ()).busy = none ∧ s.inserted () := by decide
  have hearly : ∃ s ∈ exec step (init four fun _ => none) (addThenInsert.take 13),
      (∃ r ∈ s.dbWrites, r.sql ≠ .insertAcct) ∧ s.inserted () = false := by decide
  obtain ⟨s, hs, haccount, hbalance, hfound, hfree, hins⟩ := hrun
  refine ⟨⟨s, hs, haccount, hbalance, fun hsound => ?_⟩, 13, hearly⟩
  have hkept := hsound.kept () hfound hfree hins
  rw [haccount, hbalance] at hkept
  cases hkept

end TradeC.Accounts
