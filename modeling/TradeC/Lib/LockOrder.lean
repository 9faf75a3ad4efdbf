import TradeC.Lib.Run
import Mathlib.Data.List.Lattice
import Mathlib.Logic.Function.Basic
import Mathlib.Logic.Relation

/-! Mutex operations of threads, and the rule that an order of the mutexes excludes deadlocks.

    A thread runs a `Code`: what a program does to mutexes, where tests of data are left open. A
    mutex belongs to an object and has a class there; the code names it by its class and the variable
    that points to the object. `check` follows the mutexes that a thread may hold at each point of its
    code. It fails where the thread could block on a mutex while it may hold one whose class is not of
    a lower level; a `tryLock` does not block, so it is not tested. If the code of every thread passes,
    no run comes to a cycle of threads that wait for each other (`no_cycle`). -/

namespace TradeC.LockOrder
open Run

/-- What a program does to mutexes; `K` are the classes of mutexes, `V` the variables. -/
inductive Code (K V : Type*) where
  | skip
  | lock (k : K) (v : V)
  | unlock (k : K) (v : V)
  /-- `if(trylock) fail else got`. -/
  | tryLock (k : K) (v : V) (got fail : Code K V)
  /-- `while(trylock) fail`. -/
  | spin (k : K) (v : V) (fail : Code K V)
  /-- The variable comes to point to another object. -/
  | aim (v : V)
  | seq (a b : Code K V)
  | either (a b : Code K V)
  /-- Any number of rounds. -/
  | loop (a : Code K V)

namespace Code
variable {K V : Type*}

/-- One after the other. -/
def block (l : List (Code K V)) : Code K V := l.foldr .seq .skip

/-- One of them. -/
def anyOf (l : List (Code K V)) : Code K V := l.foldr .either .skip

/-- Either all of it or nothing. -/
def opt (a : Code K V) : Code K V := .either a .skip

end Code

/-- `owner` is by class and object. -/
structure State (ι K V O : Type*) where
  todo : ι → List (Code K V)
  obj : ι → V → O
  owner : K × O → Option ι

/-- A step of a thread: which way it goes where that is open, and the object that a variable comes to
    point to. -/
structure Event (ι O : Type*) where
  thread : ι
  choice : Bool
  target : O

section
set_option linter.unusedSectionVars false
variable {ι K V O : Type*} [DecidableEq ι] [DecidableEq K] [DecidableEq V] [DecidableEq O]

namespace State
variable (s : State ι K V O) (i : ι)

def goto (c : List (Code K V)) : State ι K V O := { s with todo := Function.update s.todo i c }

def setOwner (m : K × O) (o : Option ι) : State ι K V O :=
  { s with owner := Function.update s.owner m o }

/-- The mutex that the thread means. -/
def mutex (k : K) (v : V) : K × O := (k, s.obj i v)

end State

/-- One step. A `lock` waits while the mutex has an owner; to unlock a mutex that the thread does not
    hold has no effect. -/
def step (s : State ι K V O) (e : Event ι O) : Option (State ι K V O) :=
  let i := e.thread
  match s.todo i with
  | [] => none
  | .skip :: c => some (s.goto i c)
  | .lock k v :: c =>
    if s.owner (s.mutex i k v) = none then some ((s.setOwner (s.mutex i k v) (some i)).goto i c)
    else none
  | .unlock k v :: c =>
    if s.owner (s.mutex i k v) = some i then some ((s.setOwner (s.mutex i k v) none).goto i c)
    else some (s.goto i c)
  | .tryLock k v got fail :: c =>
    if s.owner (s.mutex i k v) = none then
      some ((s.setOwner (s.mutex i k v) (some i)).goto i (got :: c))
    else some (s.goto i (fail :: c))
  | .spin k v fail :: c =>
    if s.owner (s.mutex i k v) = none then some ((s.setOwner (s.mutex i k v) (some i)).goto i c)
    else some (s.goto i (fail :: .spin k v fail :: c))
  | .aim v :: c => some ({ s with
      obj := Function.update s.obj i (Function.update (s.obj i) v e.target) }.goto i c)
  | .seq a b :: c => some (s.goto i (a :: b :: c))
  | .either a b :: c => some (s.goto i ((if e.choice then a else b) :: c))
  | .loop a :: c => some (s.goto i (if e.choice then a :: .loop a :: c else c))

/-- Every thread at the start of its code, no mutex held. -/
def init (prog : ι → Code K V) (o : O) : State ι K V O where
  todo i := [prog i]
  obj _ _ := o
  owner _ := none

/-- The mutex that a thread is about to lock. -/
def wants (s : State ι K V O) (i : ι) : Option (K × O) :=
  match s.todo i with
  | .lock k v :: _ => some (s.mutex i k v)
  | _ => none

/-- Thread `i` is blocked on a mutex that `j` holds. -/
def Waits (s : State ι K V O) (i j : ι) : Prop := ∃ m ∈ wants s i, s.owner m = some j

/-! ### The check -/

variable (level : K → ℕ)

/-- From the mutexes that the thread may hold before `c`, those that it may hold after it. -/
def check : Code K V → List (K × V) → Option (List (K × V))
  | .skip, l => some l
  | .lock k v, l => if ∀ h ∈ l, level h.1 < level k then some ((k, v) :: l) else none
  | .unlock k v, l => some (l.filter (· ≠ (k, v)))
  | .tryLock k v got fail, l => do
    let l₁ ← check got ((k, v) :: l)
    let l₂ ← check fail l
    return l₁ ∪ l₂
  | .spin k v fail, l => do
    let l₁ ← check fail l
    if l₁ ⊆ l then some ((k, v) :: l) else none
  -- a mutex that may be held keeps its name
  | .aim v, l => if ∀ h ∈ l, h.2 ≠ v then some l else none
  | .seq a b, l => do check b (← check a l)
  | .either a b, l => do
    let l₁ ← check a l
    let l₂ ← check b l
    return l₁ ∪ l₂
  | .loop a, l => do
    let l₁ ← check a l
    if l₁ ⊆ l then some l else none

/-- What is left to do passes the check. -/
def Checked : List (Code K V) → List (K × V) → Prop
  | [], _ => True
  | a :: c, l => ∃ l₁ l₂, check level a l = some l₁ ∧ l₁ ⊆ l₂ ∧ Checked c l₂

/-- The thread holds no mutex but those of `l`. -/
def Holds (s : State ι K V O) (i : ι) (l : List (K × V)) : Prop :=
  ∀ m, s.owner m = some i → ∃ h ∈ l, m = s.mutex i h.1 h.2

/-- What a thread may hold accounts for what it holds, and its code passes with that. -/
def Inv (s : State ι K V O) : Prop :=
  ∀ i, ∃ l, Checked level (s.todo i) l ∧ Holds s i l

/-! ### One step -/

variable {level : K → ℕ} {s s' : State ι K V O} {i : ι} {c : List (Code K V)} {l l' : List (K × V)}

theorem Holds.mono (h : Holds s i l) (hl : l ⊆ l') : Holds s i l' := by
  intro m hm
  obtain ⟨h', hmem, heq⟩ := h m hm
  exact ⟨h', hl hmem, heq⟩

/-- A step of thread `i` that takes no mutex from nowhere. -/
theorem Inv.move (hi : Inv level s) (htodo : s'.todo = Function.update s.todo i c)
    (hobj : ∀ j, j ≠ i → s'.obj j = s.obj j)
    (howner : ∀ j, j ≠ i → ∀ m, s'.owner m = some j → s.owner m = some j)
    (hself : ∃ l, Checked level c l ∧ Holds s' i l) : Inv level s' := by
  intro j
  by_cases hj : j = i
  · subst hj
    obtain ⟨l, hcheck, hholds⟩ := hself
    refine ⟨l, ?_, hholds⟩
    rw [htodo, Function.update_self]
    exact hcheck
  · obtain ⟨l, hcheck, hholds⟩ := hi j
    refine ⟨l, ?_, fun m hm => ?_⟩
    · rw [htodo, Function.update_of_ne hj]
      exact hcheck
    · obtain ⟨h, hmem, heq⟩ := hholds m (howner j hj m hm)
      refine ⟨h, hmem, ?_⟩
      simp only [State.mutex, hobj j hj]
      exact heq

theorem Inv.goto (hi : Inv level s) (hself : ∃ l, Checked level c l ∧ Holds s i l) :
    Inv level (s.goto i c) :=
  hi.move rfl (fun _ _ => rfl) (fun _ _ _ h => h) hself

/-- The thread takes a free mutex. -/
theorem Inv.acquire (hi : Inv level s) {k : K} {v : V} (hholds : Holds s i l)
    (hcheck : Checked level c l') (hl : (k, v) :: l ⊆ l') :
    Inv level ((s.setOwner (s.mutex i k v) (some i)).goto i c) := by
  refine hi.move rfl (fun _ _ => rfl) (fun j hj m hm => ?_) ⟨l', hcheck, fun m hm => ?_⟩
  · simp only [State.goto, State.setOwner, Function.update_apply] at hm
    split_ifs at hm
    · exact absurd (Option.some.inj hm).symm hj
    · exact hm
  · simp only [State.goto, State.setOwner, Function.update_apply] at hm
    split_ifs at hm with hk
    · exact ⟨(k, v), hl List.mem_cons_self, hk⟩
    · obtain ⟨h, hmem, heq⟩ := hholds m hm
      exact ⟨h, hl (List.mem_cons_of_mem _ hmem), heq⟩

/-- What the thread still holds is not what it has unlocked. -/
theorem Holds.unlock {k : K} {v : V} (hholds : Holds s i l)
    (hfree : ∀ m, s'.owner m = some i → s.owner m = some i ∧ m ≠ s.mutex i k v)
    (hobj : s'.obj i = s.obj i) : Holds s' i (l.filter (· ≠ (k, v))) := by
  intro m hm
  obtain ⟨hown, hne⟩ := hfree m hm
  obtain ⟨h, hmem, heq⟩ := hholds m hown
  refine ⟨h, List.mem_filter.mpr ⟨hmem, ?_⟩, ?_⟩
  · simp only [decide_eq_true_eq]
    rintro rfl
    exact hne heq
  · simp only [State.mutex, hobj]
    exact heq

theorem Inv.release (hi : Inv level s) {k : K} {v : V} (hholds : Holds s i l)
    (hcheck : Checked level c l') (hl : l.filter (· ≠ (k, v)) ⊆ l') :
    Inv level ((s.setOwner (s.mutex i k v) none).goto i c) := by
  have howner : ∀ j m, ((s.setOwner (s.mutex i k v) none).goto i c).owner m = some j →
      s.owner m = some j ∧ m ≠ s.mutex i k v := by
    intro j m hm
    simp only [State.goto, State.setOwner, Function.update_apply] at hm
    split_ifs at hm with hk
    exact ⟨hm, hk⟩
  exact hi.move rfl (fun _ _ => rfl) (fun j _ m hm => (howner j m hm).1)
    ⟨l', hcheck, (hholds.unlock (howner i) rfl).mono hl⟩

/-- One case for each construct of the code. -/
theorem Inv.step (hi : Inv level s) {e : Event ι O} (hstep : step s e = some s') : Inv level s' := by
  obtain ⟨i, choice, target⟩ := e
  obtain ⟨l, hcheck, hholds⟩ := hi i
  simp only [LockOrder.step] at hstep
  cases htodo : s.todo i with
  | nil =>
    rw [htodo] at hstep
    cases hstep
  | cons a c =>
    rw [htodo] at hstep hcheck
    obtain ⟨l₁, l₂, ha, hsub, hrest⟩ := hcheck
    cases a with
    | skip =>
      cases hstep
      cases ha
      exact hi.goto ⟨l₂, hrest, hholds.mono hsub⟩
    | lock k v =>
      simp only [check, Option.ite_none_right_eq_some, Option.some.injEq] at ha
      obtain ⟨-, rfl⟩ := ha
      simp only [Option.ite_none_right_eq_some, Option.some.injEq] at hstep
      obtain ⟨-, rfl⟩ := hstep
      exact hi.acquire hholds hrest hsub
    | unlock k v =>
      simp only [check, Option.some.injEq] at ha
      subst ha
      simp only at hstep
      split_ifs at hstep with hown
      · cases hstep
        exact hi.release hholds hrest hsub
      -- nothing is unlocked, since the mutex is not the thread's
      · cases hstep
        have hfree : ∀ m, s.owner m = some i → s.owner m = some i ∧ m ≠ s.mutex i k v := by
          refine fun m hm => ⟨hm, ?_⟩
          rintro rfl
          exact hown hm
        exact hi.goto ⟨l₂, hrest, (hholds.unlock hfree rfl).mono hsub⟩
    | tryLock k v got fail =>
      simp only [check, Option.bind_eq_bind, Option.bind_eq_some_iff, Option.pure_def,
        Option.some.injEq] at ha
      obtain ⟨lg, hg, lf, hf, rfl⟩ := ha
      simp only at hstep
      split_ifs at hstep
      · cases hstep
        exact hi.acquire hholds
          ⟨lg, l₂, hg, fun _ h => hsub (List.mem_union_iff.mpr (.inl h)), hrest⟩ (List.Subset.refl _)
      · cases hstep
        exact hi.goto ⟨l, ⟨lf, l₂, hf, fun _ h => hsub (List.mem_union_iff.mpr (.inr h)), hrest⟩, hholds⟩
    | spin k v fail =>
      have hspin := ha
      simp only [check, Option.bind_eq_bind, Option.bind_eq_some_iff,
        Option.ite_none_right_eq_some, Option.some.injEq] at ha
      obtain ⟨lf, hf, hlf, rfl⟩ := ha
      simp only at hstep
      split_ifs at hstep
      · cases hstep
        exact hi.acquire hholds hrest hsub
      · cases hstep
        exact hi.goto ⟨l, ⟨lf, l, hf, hlf, _, l₂, hspin, hsub, hrest⟩, hholds⟩
    | aim v =>
      simp only [check, Option.ite_none_right_eq_some, Option.some.injEq] at ha
      obtain ⟨hname, rfl⟩ := ha
      cases hstep
      refine hi.move rfl (fun j hj => Function.update_of_ne hj ..) (fun _ _ _ h => h)
        ⟨l₂, hrest, fun m hm => ?_⟩
      obtain ⟨h, hmem, heq⟩ := hholds m hm
      refine ⟨h, hsub hmem, ?_⟩
      simp only [State.mutex, State.goto, Function.update_self,
        Function.update_of_ne (hname h hmem)]
      exact heq
    | seq a b =>
      simp only [check, Option.bind_eq_bind, Option.bind_eq_some_iff] at ha
      obtain ⟨la, ha, hb⟩ := ha
      cases hstep
      exact hi.goto ⟨l, ⟨la, la, ha, List.Subset.refl _, l₁, l₂, hb, hsub, hrest⟩, hholds⟩
    | either a b =>
      simp only [check, Option.bind_eq_bind, Option.bind_eq_some_iff, Option.pure_def,
        Option.some.injEq] at ha
      obtain ⟨la, ha, lb, hb, rfl⟩ := ha
      cases hstep
      cases choice with
      | true =>
        exact hi.goto ⟨l, ⟨la, l₂, ha, fun _ h => hsub (List.mem_union_iff.mpr (.inl h)), hrest⟩, hholds⟩
      | false =>
        exact hi.goto ⟨l, ⟨lb, l₂, hb, fun _ h => hsub (List.mem_union_iff.mpr (.inr h)), hrest⟩, hholds⟩
    | loop a =>
      have hloop := ha
      simp only [check, Option.bind_eq_bind, Option.bind_eq_some_iff,
        Option.ite_none_right_eq_some, Option.some.injEq] at ha
      obtain ⟨la, ha, hla, rfl⟩ := ha
      cases hstep
      cases choice with
      | true => exact hi.goto ⟨l, ⟨la, l, ha, hla, l, l₂, hloop, hsub, hrest⟩, hholds⟩
      | false => exact hi.goto ⟨l₂, hrest, hholds.mono hsub⟩

theorem inv_init {prog : ι → Code K V} {o : O} (hprog : ∀ i, (check level (prog i) []).isSome) :
    Inv level (init prog o) := by
  intro i
  obtain ⟨l, hl⟩ := Option.isSome_iff_exists.mp (hprog i)
  exact ⟨[], ⟨l, l, hl, List.Subset.refl _, trivial⟩, fun m hm => by cases hm⟩

/-! ### No cycle -/

/-- What a blocked thread holds is of a lower level than what it waits for. -/
theorem Inv.below (hi : Inv level s) {m m' : K × O} (hm : m ∈ wants s i)
    (hm' : s.owner m' = some i) : level m'.1 < level m.1 := by
  obtain ⟨l, hcheck, hholds⟩ := hi i
  unfold wants at hm
  split at hm
  · rename_i k v c htodo
    cases hm
    rw [htodo] at hcheck
    obtain ⟨l₁, l₂, ha, -⟩ := hcheck
    simp only [check, Option.ite_none_right_eq_some] at ha
    obtain ⟨h, hmem, rfl⟩ := hholds m' hm'
    exact ha.1 h hmem
  · cases hm

/-- Along a chain of waits the level of the mutex that is waited for does not fall. -/
theorem Inv.chain (hi : Inv level s) {j : ι} (h : Relation.TransGen (Waits s) i j) {m : K × O}
    (hm : m ∈ wants s i) : ∃ m', s.owner m' = some j ∧ level m.1 ≤ level m'.1 := by
  induction h with
  | single hw =>
    obtain ⟨m', hm', howner⟩ := hw
    cases Option.mem_unique hm hm'
    exact ⟨m, howner, Nat.le_refl _⟩
  | tail _ hw ih =>
    obtain ⟨m₁, hown₁, hle⟩ := ih
    obtain ⟨m₂, hwant, hown₂⟩ := hw
    exact ⟨m₂, hown₂, Nat.le_trans hle (Nat.le_of_lt (hi.below hwant hown₁))⟩

theorem Inv.acyclic (hi : Inv level s) (i : ι) : ¬ Relation.TransGen (Waits s) i i := by
  intro h
  obtain ⟨j, ⟨m, hm, -⟩, -⟩ := Relation.TransGen.head'_iff.mp h
  obtain ⟨m', hm', hle⟩ := hi.chain h hm
  exact absurd (hi.below hm hm') (Nat.not_lt.mpr hle)

/-- If the code of every thread passes the check, no run comes to a cycle of threads each of which is
    blocked on a mutex that the next one holds; in particular none is blocked on its own. -/
theorem no_cycle {prog : ι → Code K V} {o : O} (hprog : ∀ i, (check level (prog i) []).isSome)
    {es : List (Event ι O)} (h : exec step (init prog o) es = some s) (i : ι) :
    ¬ Relation.TransGen (Waits s) i i :=
  (exec_inv (fun _ _ _ hi hs => Inv.step hi hs) es _ _ (inv_init hprog) h).acyclic i

end

end TradeC.LockOrder
