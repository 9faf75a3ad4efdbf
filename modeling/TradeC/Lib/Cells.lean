import Mathlib.Data.List.Basic
import Mathlib.Data.List.Nodup
import Mathlib.Logic.Function.Basic

/-! Linked cells that end in a blank one, in general.

    A queue is a list of cells, each with the address of the next; the last one is blank and is the
    cell that the next value goes into. `Chain m a l b` says that following `next` from `a` visits
    the cells of `l`, in order, and comes to `b`. -/

namespace TradeC.Cells

variable {α : Type*}

/-- A cell: what it holds, and the address of the next one. -/
structure Cell (α : Type*) where
  value : α
  next : Option ℕ

/-- The cells from `a` up to, and without, `b`, with their addresses. -/
def Chain (m : ℕ → Option (Cell α)) : ℕ → List (ℕ × α) → ℕ → Prop
  | a, [], b => a = b
  | a, (a', v) :: l, b => a = a' ∧ ∃ n, m a = some ⟨v, some n⟩ ∧ Chain m n l b

variable {m m' : ℕ → Option (Cell α)} {a b n : ℕ} {v : α} {l : List (ℕ × α)}

/-- A chain depends on its own cells only. -/
theorem Chain.congr (h : Chain m a l b) (hm : ∀ c ∈ l.map Prod.fst, m' c = m c) :
    Chain m' a l b := by
  induction l generalizing a with
  | nil => exact h
  | cons c l ih =>
    obtain ⟨rfl, n, hcell, hrest⟩ := h
    refine ⟨rfl, n, ?_, ih hrest fun d hd => hm d (by simp [hd])⟩
    rw [hm c.1 (by simp), hcell]

/-- What is written outside of the chain does not matter to it. -/
theorem Chain.update (h : Chain m a l b) {c : ℕ} (hc : c ∉ l.map Prod.fst)
    (x : Option (Cell α)) : Chain (Function.update m c x) a l b := by
  refine h.congr fun d hd => Function.update_of_ne ?_ _ _
  rintro rfl
  exact hc hd

/-- The last cell is filled and gets a successor. -/
theorem Chain.snoc (h : Chain m a l b) (hb : m b = some ⟨v, some n⟩) :
    Chain m a (l ++ [(b, v)]) n := by
  induction l generalizing a with
  | nil =>
    obtain rfl : a = b := h
    exact ⟨rfl, n, hb, rfl⟩
  | cons c l ih =>
    obtain ⟨rfl, n', hcell, hrest⟩ := h
    exact ⟨rfl, n', hcell, ih hrest⟩

/-- The first cell of a chain that is not empty. -/
theorem Chain.head {c : ℕ × α} (h : Chain m a (c :: l) b) :
    ∃ n, c.1 = a ∧ m a = some ⟨c.2, some n⟩ ∧ Chain m n l b := by
  obtain ⟨rfl, n, hcell, hrest⟩ := h
  exact ⟨n, rfl, hcell, hrest⟩

end TradeC.Cells
