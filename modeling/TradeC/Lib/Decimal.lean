import Mathlib.Data.List.Basic
import Mathlib.Data.List.TakeWhile
import Mathlib.Tactic.Ring

/-! Decimal literals and what they denote, in hundredths.

    `numeric` reads `[sign] digits [. digits]` the way a `numeric(_, 2)` column does, rounding the
    third decimal half away from zero. `TwoPlaces` is the canonical shape, digits with exactly two
    decimals, and `numeric_twoPlaces` its value. -/

namespace TradeC.Decimal

/-- The value of a string of digits. -/
def val (s : List Char) : ℕ := Nat.ofDigitChars 10 s 0

/-- The hundredths that the digits after the point denote. -/
def hundredths : List Char → ℤ
  | [] => 0
  | [a] => 10 * val [a]
  | a :: b :: rest => val [a, b] + if rest.head?.any (fun c => 5 ≤ val [c]) then 1 else 0

def unsigned (s : List Char) : Option ℤ :=
  let ip := s.takeWhile Char.isDigit
  match s.dropWhile Char.isDigit with
  | [] => if ip = [] then none else some (100 * (val ip : ℤ))
  | c :: fp =>
    if c = '.' ∧ fp.all Char.isDigit ∧ (ip ≠ [] ∨ fp ≠ []) then
      some (100 * (val ip : ℤ) + hundredths fp)
    else none

def numeric : List Char → Option ℤ
  | '-' :: s => (unsigned s).map fun x => -x
  | '+' :: s => unsigned s
  | s => unsigned s

/-- One or more digits, a point, two digits. -/
def TwoPlaces (s : List Char) : Prop :=
  ∃ ip c₁ c₂, s = ip ++ ['.', c₁, c₂] ∧ ip ≠ [] ∧ ip.all Char.isDigit ∧ c₁.isDigit ∧ c₂.isDigit

theorem twoPlaces_iff (s : List Char) : TwoPlaces s ↔
    s.take (s.length - 3) ≠ [] ∧ (s.take (s.length - 3)).all Char.isDigit ∧
      (s.drop (s.length - 3)).head? = some '.' ∧ (s.drop (s.length - 3)).length = 3 ∧
      (s.drop (s.length - 3)).tail.all Char.isDigit := by
  constructor
  · rintro ⟨ip, c₁, c₂, rfl, hne, hip, h₁, h₂⟩
    have hlen : (ip ++ ['.', c₁, c₂]).length - 3 = ip.length := by simp
    rw [hlen, List.take_left, List.drop_left]
    exact ⟨hne, hip, rfl, rfl, by simp [h₁, h₂]⟩
  · rintro ⟨hne, hip, hpt, hlen, hfp⟩
    obtain ⟨p, c₁, c₂, hd⟩ := List.length_eq_three.mp hlen
    rw [hd] at hpt hfp
    obtain rfl : p = '.' := by simpa using hpt
    simp only [List.tail_cons, List.all_cons, List.all_nil, Bool.and_true, Bool.and_eq_true] at hfp
    refine ⟨s.take (s.length - 3), c₁, c₂, ?_, hne, hip, hfp.1, hfp.2⟩
    rw [← hd, List.take_append_drop]

instance (s : List Char) : Decidable (TwoPlaces s) := decidable_of_iff' _ (twoPlaces_iff s)

/-- Reading stops at the point. -/
theorem takeWhile_digits {ip : List Char} (hip : ip.all Char.isDigit) (rest : List Char) :
    (ip ++ '.' :: rest).takeWhile Char.isDigit = ip ∧
      (ip ++ '.' :: rest).dropWhile Char.isDigit = '.' :: rest := by
  have hall : ∀ c ∈ ip, c.isDigit = true := List.all_eq_true.mp hip
  have hpt : Char.isDigit '.' = false := by decide
  rw [List.takeWhile_append_of_pos hall, List.dropWhile_append_of_pos hall]
  simp [hpt]

theorem numeric_of_digit {c : Char} {s : List Char} (hc : c.isDigit) :
    numeric (c :: s) = unsigned (c :: s) := by
  unfold numeric
  split
  · rename_i heq
    obtain ⟨rfl, rfl⟩ := List.cons_eq_cons.mp heq
    exact absurd hc (by decide)
  · rename_i heq
    obtain ⟨rfl, rfl⟩ := List.cons_eq_cons.mp heq
    exact absurd hc (by decide)
  · rfl

theorem numeric_digits {ip fp : List Char} (hne : ip ≠ []) (hip : ip.all Char.isDigit)
    (hfp : fp.all Char.isDigit) :
    numeric (ip ++ '.' :: fp) = some (100 * (val ip : ℤ) + hundredths fp) := by
  obtain ⟨c, cs, rfl⟩ := List.exists_cons_of_ne_nil hne
  have hc : c.isDigit = true := List.all_eq_true.mp hip c (by simp)
  obtain ⟨htake, hdrop⟩ := takeWhile_digits hip fp
  rw [List.cons_append, numeric_of_digit hc, ← List.cons_append, unsigned, htake, hdrop]
  simp [hfp]

theorem hundredths_two (c₁ c₂ : Char) : hundredths [c₁, c₂] = val [c₁, c₂] := by
  simp [hundredths]

theorem numeric_twoPlaces {ip : List Char} {c₁ c₂ : Char} (hne : ip ≠ [])
    (hip : ip.all Char.isDigit) (h₁ : c₁.isDigit) (h₂ : c₂.isDigit) :
    numeric (ip ++ ['.', c₁, c₂]) = some (100 * (val ip : ℤ) + val [c₁, c₂]) := by
  rw [numeric_digits hne hip (by simp [h₁, h₂]), hundredths_two]

theorem val_toDigits (n : ℕ) : val (Nat.toDigits 10 n) = n := Nat.ofDigitChars_ten_toDigits

theorem all_isDigit_toDigits (n : ℕ) : (Nat.toDigits 10 n).all Char.isDigit :=
  List.all_eq_true.mpr fun _ hc => Nat.isDigit_of_mem_toDigits (by decide) (by decide) hc

theorem isDigit_digitChar {d : ℕ} (h : d < 10) : (Nat.digitChar d).isDigit :=
  Nat.isDigit_of_mem_toDigits (b := 10) (n := d) (by decide) (by decide)
    (by rw [Nat.toDigits_of_lt_base h]; simp)

/-- A number below a hundred, written with two digits. -/
theorem twoDigits {n : ℕ} (h : n < 100) : ∃ c₁ c₂ : Char, c₁.isDigit ∧ c₂.isDigit ∧
    val [c₁, c₂] = n ∧
      (if n < 10 then '0' :: Nat.toDigits 10 n else Nat.toDigits 10 n) = [c₁, c₂] := by
  have hdiv : n / 10 < 10 := by omega
  have hmod : n % 10 < 10 := by omega
  refine ⟨Nat.digitChar (n / 10), Nat.digitChar (n % 10), isDigit_digitChar hdiv,
    isDigit_digitChar hmod, ?_, ?_⟩
  · rw [val, Nat.ofDigitChars_cons_digitChar_of_lt_ten hdiv,
      Nat.ofDigitChars_cons_digitChar_of_lt_ten hmod, Nat.ofDigitChars_nil]
    omega
  · split_ifs with hlt
    · rw [Nat.toDigits_of_lt_base hlt, Nat.div_eq_of_lt hlt, Nat.mod_eq_of_lt hlt]
      rfl
    · rw [Nat.toDigits_of_base_le (by decide) (by omega), Nat.toDigits_of_lt_base hdiv]
      rfl

/-! ### The characters of a literal -/

theorem mem_of_unsigned {s : List Char} {x : ℤ} (h : unsigned s = some x) :
    ∀ c ∈ s, c.isDigit ∨ c = '.' := by
  intro c hc
  rw [← List.takeWhile_append_dropWhile (p := Char.isDigit) (l := s)] at hc
  rcases List.mem_append.mp hc with hc | hc
  · exact Or.inl (List.mem_takeWhile_imp hc)
  · unfold unsigned at h
    dsimp only at h
    cases hrest : s.dropWhile Char.isDigit with
    | nil =>
      rw [hrest] at hc
      cases hc
    | cons p fp =>
      rw [hrest] at h hc
      dsimp only at h
      split_ifs at h with hpoint
      rcases List.mem_cons.mp hc with rfl | hc
      · exact Or.inr hpoint.1
      · exact Or.inl (List.all_eq_true.mp hpoint.2.1 c hc)

/-- Only the first character may be a sign. -/
theorem mem_of_numeric {a : Char} {s : List Char} (h : (numeric (a :: s)).isSome) :
    (a.isDigit ∨ a = '.' ∨ a = '-' ∨ a = '+') ∧ ∀ c ∈ s, c.isDigit ∨ c = '.' := by
  obtain ⟨x, hx⟩ := Option.isSome_iff_exists.mp h
  unfold numeric at hx
  split at hx
  · rename_i s' heq
    obtain ⟨rfl, rfl⟩ := List.cons_eq_cons.mp heq
    obtain ⟨y, hy, -⟩ := Option.map_eq_some_iff.mp hx
    exact ⟨by simp, mem_of_unsigned hy⟩
  · rename_i s' heq
    obtain ⟨rfl, rfl⟩ := List.cons_eq_cons.mp heq
    exact ⟨by simp, mem_of_unsigned hx⟩
  · have hmem := mem_of_unsigned hx
    refine ⟨?_, fun c hc => hmem c (List.mem_cons_of_mem a hc)⟩
    rcases hmem a List.mem_cons_self with ha | ha
    · exact Or.inl ha
    · exact Or.inr (Or.inl ha)

end TradeC.Decimal
