import TradeC.Str
import TradeC.Lib.Decimal
import Mathlib.Tactic.Linarith

/-! What `price2str` writes and `str2price` reads, for prices in exact arithmetic.

    A non-negative price is rendered with exactly two decimals, and a text of that shape is parsed to
    the number of cents it denotes; so the two functions are inverse on such prices. -/

namespace TradeC
open Decimal

theorem ord_digit {c : Char} (hc : c.isDigit) :
    ord c = c.toNat ∧ 48 ≤ c.toNat ∧ c.toNat ≤ 57 := by
  have hb : 48 ≤ c.toNat ∧ c.toNat ≤ 57 := by
    simpa [Char.isDigit, UInt32.le_iff_toNat_le, ← Char.toNat_val] using hc
  exact ⟨by rw [ord, if_neg (by omega)], hb⟩

theorem ne_point_of_digit {c : Char} (hc : c.isDigit) : c ≠ '.' := by
  rintro rfl
  exact absurd hc (by decide)

/-- In exact arithmetic the digit loop computes the value of its digits. -/
theorem digitLoop_digits : ∀ {cs : CStr}, cs.all Char.isDigit → ∀ acc : ℕ,
    digitLoop id cs acc = some ↑(Nat.ofDigitChars 10 cs acc) := by
  intro cs
  induction cs with
  | nil =>
    intro _ acc
    simp [digitLoop, Nat.ofDigitChars_nil]
  | cons c cs ih =>
    intro h acc
    rw [List.all_cons, Bool.and_eq_true] at h
    obtain ⟨hord, hlo, hhi⟩ := ord_digit h.1
    have hstep : (10 * (acc : ℤ) + ord c - 48) = ((10 * acc + (c.toNat - 48) : ℕ) : ℤ) := by
      rw [hord]
      push_cast [Nat.cast_sub hlo]
      ring
    have hrec := ih h.2 (10 * acc + (c.toNat - 48))
    rw [digitLoop, if_neg (by omega), id_eq, hstep, hrec, Nat.ofDigitChars_cons]
    rfl

theorem str2priceDec_two {ip : CStr} {c₁ c₂ : Char} (hip : ip.all Char.isDigit)
    (h₁ : c₁.isDigit) (h₂ : c₂.isDigit) :
    str2priceDec id (ip ++ ['.', c₁, c₂]) 3 = 100 * val ip + val [c₁, c₂] := by
  have hlen : (ip ++ ['.', c₁, c₂]).length - 3 = ip.length := by simp
  have htake : (ip ++ ['.', c₁, c₂]).take ip.length = ip := List.take_left
  have hdrop : (ip ++ ['.', c₁, c₂]).drop (ip.length + 1) = [c₁, c₂] := by
    rw [List.drop_append]
    simp
  have hd₁ := digitLoop_digits hip 0
  have hd₂ := digitLoop_digits (show [c₁, c₂].all Char.isDigit by simp [h₁, h₂]) 0
  unfold str2priceDec
  rw [hlen, htake, hdrop]
  simp only [Nat.cast_zero] at hd₁ hd₂
  rw [hd₁, hd₂]
  simp only [val, id_eq]
  ring

/-- A text with two decimals is parsed to the cents it denotes. -/
theorem str2price_two {ip : CStr} {c₁ c₂ : Char} (hne : ip ≠ []) (hip : ip.all Char.isDigit)
    (h₁ : c₁.isDigit) (h₂ : c₂.isDigit) :
    str2price id (ip ++ ['.', c₁, c₂]) = 100 * val ip + val [c₁, c₂] := by
  have hpos : 0 < ip.length := List.length_pos_iff.mpr hne
  have hlen : (ip ++ ['.', c₁, c₂]).length = ip.length + 3 := by simp
  have hget₂ : (ip ++ ['.', c₁, c₂])[ip.length + 1]? = some c₁ := by
    rw [List.getElem?_append_right (by omega)]
    simp
  have hget₃ : (ip ++ ['.', c₁, c₂])[ip.length]? = some '.' := by
    rw [List.getElem?_append_right (by omega)]
    simp
  rw [← str2priceDec_two hip h₁ h₂]
  unfold str2price
  split
  · rename_i heq
    have := congrArg List.length heq
    simp only [hlen, List.length_cons, List.length_nil] at this
    omega
  · rw [hlen, if_neg (by omega), show ip.length + 3 - 2 = ip.length + 1 by omega, hget₂,
      if_neg (by simpa using ne_point_of_digit h₁), show ip.length + 3 - 3 = ip.length by omega,
      hget₃, if_neg (by simp)]

theorem str2price_twoPlaces {s : CStr} (h : TwoPlaces s) : numeric s = some (str2price id s) := by
  obtain ⟨ip, c₁, c₂, rfl, hne, hip, h₁, h₂⟩ := h
  rw [numeric_twoPlaces hne hip h₁ h₂, str2price_two hne hip h₁ h₂]

theorem str2price_nonneg {s : CStr} (h : TwoPlaces s) : 0 ≤ str2price id s := by
  obtain ⟨ip, c₁, c₂, rfl, hne, hip, h₁, h₂⟩ := h
  rw [str2price_two hne hip h₁ h₂]
  positivity

/-- A non-negative price is written as its dollars, a point and two digits. -/
theorem price2str_toDigits (n : ℕ) : ∃ c₁ c₂ : Char, c₁.isDigit ∧ c₂.isDigit ∧
    price2str n = Nat.toDigits 10 (n / 100) ++ ['.', c₁, c₂] ∧ val [c₁, c₂] = n % 100 := by
  obtain ⟨c₁, c₂, h₁, h₂, hval, hstr⟩ := twoDigits (n := n % 100) (Nat.mod_lt _ (by norm_num))
  have hdollars : (n : ℤ).tdiv 100 = ((n / 100 : ℕ) : ℤ) := by
    rw [Int.tdiv_eq_ediv_of_nonneg (by omega)]
    simp
  have hcents : (n : ℤ) - ((n / 100 : ℕ) : ℤ) * 100 = ((n % 100 : ℕ) : ℤ) := by omega
  have hld : ∀ k : ℕ, ld (k : ℤ) = Nat.toDigits 10 k := fun k => by
    simp [ld, show ¬ ((k : ℤ) < 0) by omega]
  refine ⟨c₁, c₂, h₁, h₂, ?_, hval⟩
  unfold price2str
  simp only [hdollars, hcents, hld]
  by_cases hlt : n % 100 < 10
  · rw [if_pos hlt] at hstr
    rw [if_pos (by omega), List.append_assoc, ← hstr]
    rfl
  · rw [if_neg hlt] at hstr
    rw [if_neg (by omega), List.append_assoc, ← hstr]
    rfl

theorem price2str_nonneg {x : ℤ} (hx : 0 ≤ x) : ∃ ip c₁ c₂, price2str x = ip ++ ['.', c₁, c₂] ∧
    ip ≠ [] ∧ ip.all Char.isDigit ∧ c₁.isDigit ∧ c₂.isDigit ∧
      x = 100 * val ip + val [c₁, c₂] := by
  obtain ⟨n, rfl⟩ := Int.eq_ofNat_of_zero_le hx
  obtain ⟨c₁, c₂, h₁, h₂, hstr, hval⟩ := price2str_toDigits n
  refine ⟨Nat.toDigits 10 (n / 100), c₁, c₂, hstr, Nat.toDigits_ne_nil, all_isDigit_toDigits _,
    h₁, h₂, ?_⟩
  rw [val_toDigits, hval]
  omega

theorem twoPlaces_price2str {x : ℤ} (hx : 0 ≤ x) : TwoPlaces (price2str x) := by
  obtain ⟨ip, c₁, c₂, hs, hne, hip, h₁, h₂, _⟩ := price2str_nonneg hx
  exact ⟨ip, c₁, c₂, hs, hne, hip, h₁, h₂⟩

theorem numeric_price2str {x : ℤ} (hx : 0 ≤ x) : numeric (price2str x) = some x := by
  obtain ⟨ip, c₁, c₂, hs, hne, hip, h₁, h₂, hx'⟩ := price2str_nonneg hx
  rw [hs, numeric_twoPlaces hne hip h₁ h₂, ← hx']

theorem str2price_price2str {x : ℤ} (hx : 0 ≤ x) : str2price id (price2str x) = x := by
  have h := str2price_twoPlaces (twoPlaces_price2str hx)
  rw [numeric_price2str hx] at h
  exact (Option.some.inj h).symm

theorem ld_ne_nil (x : ℤ) : ld x ≠ [] := by
  unfold ld
  split_ifs
  · exact List.cons_ne_nil _ _
  · exact Nat.toDigits_ne_nil

theorem ld_neg {x : ℤ} (hx : x < 0) : ld x = '-' :: Nat.toDigits 10 x.natAbs := if_pos hx

/-- What `price2str` writes for a negative amount has a second sign in the cents, unless there are none. -/
theorem numeric_price2str_iff (x : ℤ) : (numeric (price2str x)).isSome ↔ 0 ≤ x ∨ 100 ∣ x := by
  constructor
  · intro h
    by_contra hx
    obtain ⟨hneg, hcents⟩ := not_or.mp hx
    have htdiv : x.tdiv 100 = -(-x / 100) := by
      rw [← Int.tdiv_eq_ediv_of_nonneg (by omega), Int.neg_tdiv, neg_neg]
    have hsigned : x - x.tdiv 100 * 100 < 0 := by omega
    have htext : price2str x = ld (x.tdiv 100) ++ ".0".toList ++
        '-' :: Nat.toDigits 10 (x - x.tdiv 100 * 100).natAbs := by
      unfold price2str
      dsimp only
      rw [if_pos (by omega), ld_neg hsigned]
    obtain ⟨a, rest, hdollars⟩ := List.exists_cons_of_ne_nil (ld_ne_nil (x.tdiv 100))
    rw [htext, hdollars, List.cons_append, List.cons_append] at h
    have hsign := (mem_of_numeric h).2 '-' (List.mem_append_right _ List.mem_cons_self)
    exact absurd hsign (by decide)
  · rintro (hx | ⟨k, rfl⟩)
    · rw [numeric_price2str hx]
      rfl
    · by_cases hk : 0 ≤ 100 * k
      · rw [numeric_price2str hk]
        rfl
      · have hdollars : (100 * k).tdiv 100 = k := Int.mul_tdiv_cancel_left k (by decide)
        have hcents : 100 * k - k * 100 = 0 := by omega
        obtain ⟨c, cs, hcs⟩ := List.exists_cons_of_ne_nil (Nat.toDigits_ne_nil (b := 10) (n := k.natAbs))
        have hdigits := all_isDigit_toDigits k.natAbs
        have hc : c.isDigit := List.all_eq_true.mp hdigits c (hcs ▸ List.mem_cons_self)
        have htext : price2str (100 * k) = '-' :: (Nat.toDigits 10 k.natAbs ++ ['.', '0', '0']) := by
          unfold price2str
          simp only [hdollars, hcents]
          rw [if_pos (by decide), ld_neg (by omega), List.append_assoc]
          rfl
        have hunsigned := @numeric_twoPlaces _ '0' '0' Nat.toDigits_ne_nil hdigits rfl rfl
        rw [htext, numeric]
        rw [hcs, List.cons_append, numeric_of_digit hc, ← List.cons_append, ← hcs] at hunsigned
        rw [hunsigned]
        rfl

example : str2price id "12.50".toList = 1250 := by decide
example : str2price id "12.5".toList = 1205 := by decide

end TradeC
