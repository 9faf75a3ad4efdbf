import TradeC.Command
import TradeC.Lib.Decimal
import Mathlib.Data.Nat.Digits.Defs

/-! The replies of the transaction servers, as texts, and how the web pages take them apart. -/

namespace TradeC

/-- A number is made of digits and a sign. -/
theorem ld_ne (x : ℤ) {d : Char} (hdigit : d.isDigit = false) (hsign : d ≠ '-') :
    ∀ c ∈ ld x, c ≠ d := by
  rintro c hc rfl
  have hdigits := List.all_eq_true.mp (Decimal.all_isDigit_toDigits x.natAbs)
  have hnot : c ∉ Nat.toDigits 10 x.natAbs := fun h => by simp [hdigits _ h] at hdigit
  unfold ld at hc
  split_ifs at hc
  · rcases List.mem_cons.mp hc with h | h
    · exact hsign h
    · exact hnot h
  · exact hnot hc

/-- A `long int` has at most 20 characters. -/
theorem length_ld_wrap64 (x : ℤ) : (ld (wrap64 x)).length ≤ 20 := by
  have habs : (wrap64 x).natAbs < 10 ^ 19 := by
    have hle : (wrap64 x).natAbs ≤ 2 ^ 63 := by
      unfold wrap64
      have h₁ := Int.bmod_lt (x := x) (m := 2 ^ 64) (by decide)
      have h₂ := Int.le_bmod (x := x) (m := 2 ^ 64) (by decide)
      omega
    exact lt_of_le_of_lt hle (by decide)
  have hdigits := Nat.toDigits_length 10 (wrap64 x).natAbs 19 (by decide) habs
  unfold ld
  split_ifs
  · exact Nat.succ_le_succ hdigits
  · exact hdigits.trans (by decide)

/-- A value after a comma. -/
def field (x : ℤ) : CStr := ',' :: ld x

def UserStock.line (us : UserStock) : CStr := us.stockObj.str ++ field us.num ++ ['\n']

def Trigger.line (t : Trigger) : CStr :=
  t.stockObj.str ++ [',', t.type.char] ++ field t.amount ++ field t.trig ++ ['\n']

/-- The `sprintf` of a reply. -/
def Reply.text (transID userCmd : CStr) : Reply → CStr
  | .succ data =>
    "WSR|".toList ++ transID ++ '|' :: userCmd ++ '|' :: "SUCC".toList ++ data.flatMap field
  | .fail code data =>
    "WSR|".toList ++ transID ++ '|' :: userCmd ++ '|' :: "FAIL".toList ++ field code ++
      data.flatMap field
  | .badcmd => "WSR|".toList ++ transID ++ '|' :: "BADCMD".toList ++ '|' :: "FAIL".toList ++ field (-20)
  | .summary balance userStocks triggers =>
    "WSR|".toList ++ transID ++ '|' :: userCmd ++ '|' :: "SUCC".toList ++ '|' :: ld balance ++
      '|' :: userStocks.flatMap UserStock.line ++ '|' :: triggers.flatMap Trigger.line

/-- The reply of `connection_handler` to `USR`; `cUser` is what `getUser` finds, `num` is
    `uList->num`. -/
def usrText (found : Bool) (num : ℕ) (userID : CStr) : CStr :=
  if found then "HAV|".toList ++ userID else "NOT|".toList ++ ld num

namespace Web

/-- PHP's `explode`. -/
def explode (delim : Char) (s : CStr) : List CStr := delimLoop delim s []

theorem delimLoop_none {delim : Char} : ∀ (s cur : CStr), (∀ c ∈ s, c ≠ delim) →
    delimLoop delim s cur = [cur ++ s] := by
  intro s
  induction s with
  | nil =>
    intro cur _
    simp [delimLoop]
  | cons c s ih =>
    intro cur h
    rw [delimLoop, if_neg (h c List.mem_cons_self),
      ih _ fun c' hc' => h c' (List.mem_cons_of_mem _ hc')]
    simp

theorem delimLoop_append {delim : Char} (rest : CStr) : ∀ (s cur : CStr), (∀ c ∈ s, c ≠ delim) →
    delimLoop delim (s ++ delim :: rest) cur = (cur ++ s) :: delimLoop delim rest [] := by
  intro s
  induction s with
  | nil =>
    intro cur _
    simp [delimLoop]
  | cons c s ih =>
    intro cur h
    rw [List.cons_append, delimLoop, if_neg (h c List.mem_cons_self),
      ih _ fun c' hc' => h c' (List.mem_cons_of_mem _ hc')]
    simp

/-- A field without the delimiter is taken off the front. -/
theorem explode_append {delim : Char} {s : CStr} (h : ∀ c ∈ s, c ≠ delim) (rest : CStr) :
    explode delim (s ++ delim :: rest) = s :: explode delim rest := by
  rw [explode, delimLoop_append rest s [] h, List.nil_append]
  rfl

theorem explode_none {delim : Char} {s : CStr} (h : ∀ c ∈ s, c ≠ delim) : explode delim s = [s] := by
  rw [explode, delimLoop_none s [] h, List.nil_append]

end Web
end TradeC
