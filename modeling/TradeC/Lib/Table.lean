import Mathlib.Data.List.Nodup
import Mathlib.Algebra.BigOperators.Group.List.Basic
import Mathlib.Algebra.Ring.Int.Defs

/-! Tables as lists of rows, and the relation between keys and values that they show.

    `Shows key val rows R` says that the rows have different keys, and are the pairs of `R` in some
    order. A row with a new key, an update of the row of a key and a deletion of the row of a key
    change the relation as one expects. -/

namespace TradeC.Table

variable {ρ κ ν : Type*} {key : ρ → κ} {val : ρ → ν} {rows : List ρ} {R : κ → ν → Prop}

structure Shows (key : ρ → κ) (val : ρ → ν) (rows : List ρ) (R : κ → ν → Prop) : Prop where
  nodup : (rows.map key).Nodup
  iff : ∀ k v, (∃ r ∈ rows, key r = k ∧ val r = v) ↔ R k v

theorem shows_nil (hR : ∀ k v, ¬ R k v) : Shows key val [] R :=
  ⟨List.nodup_nil, fun k v => by simp [hR]⟩

theorem Shows.congr {R' : κ → ν → Prop} (h : Shows key val rows R) (hR : ∀ k v, R k v ↔ R' k v) :
    Shows key val rows R' := ⟨h.nodup, fun k v => (h.iff k v).trans (hR k v)⟩

theorem Shows.append (h : Shows key val rows R) (r : ρ) (hnew : ∀ v, ¬ R (key r) v) :
    Shows key val (rows ++ [r]) fun k v => R k v ∨ (k = key r ∧ v = val r) where
  nodup := by
    rw [List.map_append, List.map_singleton]
    refine List.nodup_append.mpr ⟨h.nodup, List.nodup_singleton _, fun k hk k' hk' => ?_⟩
    obtain ⟨r', hr', rfl⟩ := List.mem_map.mp hk
    rw [List.mem_singleton.mp hk']
    exact fun heq => hnew (val r') ((h.iff _ _).mp ⟨r', hr', heq, rfl⟩)
  iff k v := by
    rw [← h.iff k v]
    simp only [List.mem_append, List.mem_singleton]
    constructor
    · rintro ⟨r', hr' | rfl, hk, hv⟩
      · exact .inl ⟨r', hr', hk, hv⟩
      · exact .inr ⟨hk.symm, hv.symm⟩
    · rintro (⟨r', hr', hk, hv⟩ | ⟨rfl, rfl⟩)
      · exact ⟨r', .inl hr', hk, hv⟩
      · exact ⟨r, .inr rfl, rfl, rfl⟩

/-- An update of the row with key `k₀`: its value `v` becomes `f v`. -/
theorem Shows.update (h : Shows key val rows R) (k₀ : κ) (f : ν → ν) {upd : ρ → ρ}
    (hkey : ∀ r, key (upd r) = key r) (hval : ∀ r, key r = k₀ → val (upd r) = f (val r))
    (hother : ∀ r, key r ≠ k₀ → val (upd r) = val r) :
    Shows key val (rows.map upd) fun k v =>
      (k ≠ k₀ ∧ R k v) ∨ (k = k₀ ∧ ∃ v', R k v' ∧ v = f v') where
  nodup := by
    rw [List.map_map, show key ∘ upd = key from funext hkey]
    exact h.nodup
  iff k v := by
    simp only [List.mem_map]
    constructor
    · rintro ⟨_, ⟨r, hr, rfl⟩, hk, hv⟩
      rw [hkey] at hk
      by_cases hk₀ : key r = k₀
      · exact .inr ⟨hk ▸ hk₀, val r, (h.iff k _).mp ⟨r, hr, hk, rfl⟩, hv ▸ hval r hk₀⟩
      · exact .inl ⟨hk ▸ hk₀, (h.iff k v).mp ⟨r, hr, hk, hother r hk₀ ▸ hv⟩⟩
    · rintro (⟨hne, hR⟩ | ⟨rfl, v', hR, rfl⟩)
      · obtain ⟨r, hr, hk, hv⟩ := (h.iff k v).mpr hR
        exact ⟨upd r, ⟨r, hr, rfl⟩, (hkey r).trans hk, (hother r (hk ▸ hne)).trans hv⟩
      · obtain ⟨r, hr, hk, hv⟩ := (h.iff k v').mpr hR
        exact ⟨upd r, ⟨r, hr, rfl⟩, (hkey r).trans hk, (hval r hk).trans (by rw [hv])⟩

/-- A deletion of the row with key `k₀`. -/
theorem Shows.delete (h : Shows key val rows R) (k₀ : κ) {keep : ρ → Bool}
    (hkeep : ∀ r, keep r = true ↔ key r ≠ k₀) :
    Shows key val (rows.filter keep) fun k v => k ≠ k₀ ∧ R k v where
  nodup := h.nodup.sublist (List.filter_sublist.map key)
  iff k v := by
    rw [← h.iff k v]
    simp only [List.mem_filter]
    constructor
    · rintro ⟨r, ⟨hr, hne⟩, rfl, hv⟩
      exact ⟨(hkeep r).mp hne, r, hr, rfl, hv⟩
    · rintro ⟨hne, r, hr, rfl, hv⟩
      exact ⟨r, ⟨hr, (hkeep r).mpr hne⟩, rfl, hv⟩

/-- The rows that are kept have different parts, where a part tells their keys apart. -/
theorem Shows.nodup_part {μ : Type*} (h : Shows key val rows R) {keep : ρ → Bool} {part : ρ → μ}
    (hpart : ∀ r r', keep r → keep r' → part r = part r' → key r = key r') :
    ((rows.filter keep).map part).Nodup := by
  refine List.Nodup.map_on (fun r hr r' hr' heq => ?_) (h.nodup.of_map key |>.filter keep)
  obtain ⟨hmem, hkeep⟩ := List.mem_filter.mp hr
  obtain ⟨hmem', hkeep'⟩ := List.mem_filter.mp hr'
  exact List.inj_on_of_nodup_map h.nodup hmem hmem' (hpart r r' hkeep hkeep' heq)

/-- The row of a key is the one that is found. -/
theorem Shows.find? [DecidableEq κ] (h : Shows key val rows R) {k : κ} {v : ν} (hR : R k v) :
    ∃ r, rows.find? (fun r => key r = k) = some r ∧ val r = v := by
  obtain ⟨r₀, hr₀, hk₀, hv₀⟩ := (h.iff k v).mpr hR
  cases hfind : rows.find? (fun r => key r = k) with
  | none => exact absurd hk₀ (by simpa using List.find?_eq_none.mp hfind r₀ hr₀)
  | some r =>
    have hk : key r = k := by simpa using List.find?_some hfind
    have hr := List.mem_of_find?_eq_some hfind
    exact ⟨r, rfl, List.inj_on_of_nodup_map h.nodup hr hr₀ (hk.trans hk₀.symm) ▸ hv₀⟩

theorem Shows.nodup_pairs (h : Shows key val rows R) : (rows.map fun r => (key r, val r)).Nodup := by
  refine List.Nodup.of_map Prod.fst ?_
  rw [List.map_map]
  exact h.nodup

theorem Shows.mem_pairs (h : Shows key val rows R) (x : κ × ν) :
    x ∈ (rows.map fun r => (key r, val r)) ↔ R x.1 x.2 := by
  rw [← h.iff x.1 x.2]
  simp only [List.mem_map, Prod.ext_iff]

/-- Two tables of one relation have the same sums. -/
theorem Shows.sum_eq {ρ' : Type*} {key' : ρ' → κ} {val' : ρ' → ν} {rows' : List ρ'}
    (h : Shows key val rows R) (h' : Shows key' val' rows' R) (f : κ × ν → ℤ) :
    (rows.map fun r => f (key r, val r)).sum = (rows'.map fun r => f (key' r, val' r)).sum := by
  have hperm : (rows.map fun r => (key r, val r)).Perm (rows'.map fun r => (key' r, val' r)) :=
    (List.perm_ext_iff_of_nodup h.nodup_pairs h'.nodup_pairs).mpr fun x =>
      (h.mem_pairs x).trans (h'.mem_pairs x).symm
  have hsum := (hperm.map f).sum_eq
  rwa [List.map_map, List.map_map] at hsum

/-- The rows of a key sum up to its value. -/
theorem Shows.sum_key [DecidableEq κ] {val : ρ → ℤ} {R : κ → ℤ → Prop} (h : Shows key val rows R) {k : κ}
    {v : ℤ} (hR : R k v) : (rows.map fun r => if key r = k then val r else 0).sum = v := by
  obtain ⟨r, hr, hk, hv⟩ := (h.iff k v).mpr hR
  obtain ⟨l₁, l₂, rfl⟩ := List.append_of_mem hr
  have hkeys := h.nodup
  rw [List.map_append, List.map_cons, List.nodup_middle, List.nodup_cons, List.mem_append] at hkeys
  have hzero : ∀ l : List ρ, key r ∉ l.map key → (l.map fun r => if key r = k then val r else 0).sum = 0 := by
    intro l hl
    refine List.sum_eq_zero fun x hx => ?_
    obtain ⟨r', hr', rfl⟩ := List.mem_map.mp hx
    exact if_neg fun hk' => hl (List.mem_map.mpr ⟨r', hr', hk'.trans hk.symm⟩)
  rw [List.map_append, List.map_cons, List.sum_append, List.sum_cons, hzero l₁ fun h => hkeys.1 (.inl h),
    hzero l₂ fun h => hkeys.1 (.inr h), if_pos hk, hv, zero_add, add_zero]

theorem Shows.sum_key_none [DecidableEq κ] {val : ρ → ℤ} {R : κ → ℤ → Prop} (h : Shows key val rows R)
    {k : κ} (hR : ∀ v, ¬ R k v) : (rows.map fun r => if key r = k then val r else 0).sum = 0 := by
  refine List.sum_eq_zero fun x hx => ?_
  obtain ⟨r, hr, rfl⟩ := List.mem_map.mp hx
  exact if_neg fun hk => hR _ ((h.iff k (val r)).mp ⟨r, hr, hk, rfl⟩)

end TradeC.Table
