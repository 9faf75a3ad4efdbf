import Mathlib.Algebra.BigOperators.Group.Finset.Basic
import Mathlib.Algebra.Order.BigOperators.Group.Finset
import Mathlib.Data.Fintype.Basic

/-! Interleaved threads, in general.

    Every thread is at a place of its code, `pc : ι → π`; a step of one thread is an update of `pc`.
    `Guards` says that a mutex is owned by the thread, if any, whose place holds it: from this comes
    mutual exclusion. `sum_place` is what a step of one thread does to a sum over the places. -/

namespace TradeC.Threads

variable {ι π : Type*} [DecidableEq ι] {pc : ι → π} {i j : ι} {p : π}

/-- A thread owns the mutex exactly where its place holds it. -/
def Guards (pc : ι → π) (holds : π → Prop) (owner : Option ι) : Prop :=
  ∀ i, owner = some i ↔ holds (pc i)

section Guards
variable {holds : π → Prop} {owner : Option ι}

omit [DecidableEq ι] in
theorem Guards.none (h : ∀ i, ¬ holds (pc i)) : Guards pc holds none :=
  fun i => ⟨fun h' => by simp at h', fun h' => absurd h' (h i)⟩

omit [DecidableEq ι] in
/-- Mutual exclusion. -/
theorem Guards.excl (h : Guards pc holds owner) (hi : holds (pc i)) (hj : holds (pc j)) : i = j :=
  Option.some.inj (((h i).mpr hi).symm.trans ((h j).mpr hj))

omit [DecidableEq ι] in
theorem Guards.free (h : Guards pc holds .none) (i : ι) : ¬ holds (pc i) :=
  fun hi => by simpa using (h i).mpr hi

/-- A thread takes the free mutex. -/
theorem Guards.lock (h : Guards pc holds .none) (hp : holds p) :
    Guards (Function.update pc i p) holds (some i) := by
  intro j
  by_cases hj : j = i
  · subst hj
    simp [hp]
  · simp only [Function.update_of_ne hj, Option.some.injEq, h.free j, iff_false]
    exact fun h' => hj h'.symm

/-- The owner leaves the places that hold the mutex. -/
theorem Guards.unlock (h : Guards pc holds owner) (hi : holds (pc i)) (hp : ¬ holds p) :
    Guards (Function.update pc i p) holds .none := by
  refine .none fun j hj => ?_
  by_cases hji : j = i
  · subst hji
    simp [hp] at hj
  · rw [Function.update_of_ne hji] at hj
    exact hji (h.excl hj hi)

/-- A step that neither takes nor gives back the mutex. -/
theorem Guards.skip (h : Guards pc holds owner) (hp : holds p ↔ holds (pc i)) :
    Guards (Function.update pc i p) holds owner := by
  intro j
  by_cases hj : j = i
  · subst hj
    rw [Function.update_self, hp]
    exact h j
  · rw [Function.update_of_ne hj]
    exact h j

end Guards

/-- The step of one thread, in a sum over places. -/
theorem sum_place {s : Finset ι} (hi : i ∈ s) (f : π → ℤ) (pc : ι → π) (p : π) :
    ∑ j ∈ s, f (Function.update pc i p j) = (∑ j ∈ s, f (pc j)) - f (pc i) + f p := by
  have hothers : ∑ j ∈ s.erase i, f (Function.update pc i p j) = ∑ j ∈ s.erase i, f (pc j) :=
    Finset.sum_congr rfl fun j hj => by rw [Function.update_of_ne (Finset.ne_of_mem_erase hj)]
  rw [← Finset.add_sum_erase s _ hi, ← Finset.add_sum_erase s (fun j => f (pc j)) hi, hothers,
    Function.update_self]
  omega

section
variable [Fintype ι] {f : π → ℕ}

/-- A thread that has less to do leaves all of them less. -/
theorem sum_place_lt (h : f p < f (pc i)) : ∑ j, f (Function.update pc i p j) < ∑ j, f (pc j) := by
  refine Finset.sum_lt_sum (fun j _ => ?_) ⟨i, Finset.mem_univ i, by rwa [Function.update_self]⟩
  by_cases hj : j = i
  · subst hj
    rw [Function.update_self]
    exact h.le
  · rw [Function.update_of_ne hj]

theorem sum_place_eq (h : f p = f (pc i)) : ∑ j, f (Function.update pc i p j) = ∑ j, f (pc j) := by
  refine Finset.sum_congr rfl fun j _ => ?_
  by_cases hj : j = i
  · subst hj
    rw [Function.update_self, h]
  · rw [Function.update_of_ne hj]

end

end TradeC.Threads
