import Mathlib.Algebra.Group.Nat.Defs
import Mathlib.Algebra.Group.Int.Defs
import Mathlib.Data.Int.Init
import Mathlib.Data.List.Basic
import Mathlib.Tactic.SplitIfs

/-! C strings, the prices they carry and the IDs, as transServer.c reads and writes them.

    A string is the list of its characters before the NUL. Integers are `ℤ`; where the code stores a
    signed 64-bit result, the model applies `w`, so that `w = id` reads the arithmetic as exact and
    `w = wrap64` as the machine's. -/

namespace TradeC

abbrev CStr := List Char

instance lawfulBEqCStr : LawfulBEq CStr := inferInstanceAs (LawfulBEq (List Char))

/-- What a `long int` keeps of an exact result. -/
def wrap64 (x : ℤ) : ℤ := Int.bmod x (2 ^ 64)

/-- The 64-bit results are the integers from `-2^63` to `2^63 - 1`. -/
theorem wrap64_eq_iff (x : ℤ) : wrap64 x = x ↔ -2 ^ 63 ≤ x ∧ x < 2 ^ 63 := by
  rw [wrap64, Int.bmod_eq_iff (by decide)]
  omega

theorem wrap64_wrap64_add (x y : ℤ) : wrap64 (wrap64 x + y) = wrap64 (x + y) := Int.bmod_add_bmod

/-- `(long int)c`, with `char` signed: the bytes from 128 on are negative. -/
def ord (c : Char) : ℤ := if 128 ≤ c.toNat ∧ c.toNat < 256 then c.toNat - 256 else c.toNat

theorem ord_inj {c c' : Char} (h : ord c = ord c') : c = c' := by
  refine Char.toNat_inj.mp ?_
  unfold ord at h
  split_ifs at h <;> omega

/-- The `%ld` conversion. -/
def ld (x : ℤ) : CStr :=
  if x < 0 then '-' :: Nat.toDigits 10 x.natAbs else Nat.toDigits 10 x.natAbs

/-! ### Prices -/

def price2str (prc : ℤ) : CStr :=
  let dollars := prc.tdiv 100
  let cents := prc - dollars * 100
  if cents < 10 then ld dollars ++ ".0".toList ++ ld cents else ld dollars ++ ".".toList ++ ld cents

/-- The digit loops of `str2price`. -/
def digitLoop (w : ℤ → ℤ) : CStr → ℤ → Option ℤ
  | [], acc => some acc
  | c :: cs, acc =>
    if ord c < 48 ∨ ord c > 57 then none else digitLoop w cs (w (10 * acc + ord c - 48))

/-- The part of `str2price` after the point has been found, `dec` places from the end. -/
def str2priceDec (w : ℤ → ℤ) (str : CStr) (dec : ℕ) : ℤ :=
  match digitLoop w (str.take (str.length - dec)) 0 with
  | none => -1
  | some dollars =>
    match digitLoop w (str.drop (str.length - dec + 1)) 0 with
    | none => -1
    | some cents => w (dollars * 100 + cents)

/-- `str2price`. The test of the three-character case is as the source has it, with its `||`. -/
def str2price (w : ℤ → ℤ) (str : CStr) : ℤ :=
  match str with
  | [a, p, c] =>
    if (ord a > 48 ∨ ord a < 57) ∧ (ord c > 48 ∨ ord c < 57) ∧ p = '.' then
      w ((ord a - 48) * 100 + (ord c - 48))
    else -1
  | _ =>
    if str.length < 4 then -1
    else if str[str.length - 2]? = some '.' then str2priceDec w str 2
    else if str[str.length - 3]? ≠ some '.' then -1
    else str2priceDec w str 3

/-! ### IDs -/

def isUpper (c : Char) : Bool := 64 < ord c && ord c < 91

def isAlnum (c : Char) : Bool :=
  (47 < ord c && ord c < 58) || (96 < ord c && ord c < 123) || (64 < ord c && ord c < 91)

def validUserID (userID : CStr) : Bool := userID.length == 10 && userID.all isAlnum

def validStockID (stockID : CStr) : Bool := stockID.length == 3 && stockID.all isUpper

structure UserID where
  str : CStr
  valid : validUserID str = true
  deriving DecidableEq

structure StockID where
  str : CStr
  valid : validStockID str = true
  deriving DecidableEq

theorem ne_of_upper {d c : Char} (hd : isUpper d = false) (hc : isUpper c = true) : c ≠ d := by
  rintro rfl
  rw [hd] at hc
  exact Bool.noConfusion hc

theorem ne_of_alnum {d c : Char} (hd : isAlnum d = false) (hc : isAlnum c = true) : c ≠ d := by
  rintro rfl
  rw [hd] at hc
  exact Bool.noConfusion hc

theorem StockID.all_isUpper (st : StockID) : st.str.all isUpper := by
  have h := st.valid
  simp only [validStockID, Bool.and_eq_true] at h
  exact h.2

theorem StockID.length_eq (st : StockID) : st.str.length = 3 := by
  have h := st.valid
  simp only [validStockID, Bool.and_eq_true, beq_iff_eq] at h
  exact h.1

theorem UserID.all_isAlnum (u : UserID) : u.str.all isAlnum := by
  have h := u.valid
  simp only [validUserID, Bool.and_eq_true] at h
  exact h.2

theorem UserID.length_eq (u : UserID) : u.str.length = 10 := by
  have h := u.valid
  simp only [validUserID, Bool.and_eq_true, beq_iff_eq] at h
  exact h.1

/-- A user, and stocks with letters in common, for the runs on fixed inputs. -/
def aUser : UserID := ⟨"aaaaaaaaaa".toList, by decide⟩
def stockABC : StockID := ⟨"ABC".toList, by decide⟩
def stockABB : StockID := ⟨"ABB".toList, by decide⟩
def stockACC : StockID := ⟨"ACC".toList, by decide⟩

/-! ### Splitting -/

/-- The loop of `delimSepNoCpy`: `cur` is the field being read. -/
def delimLoop (delim : Char) : CStr → CStr → List CStr
  | [], cur => [cur]
  | c :: cs, cur =>
    if c = delim then cur :: delimLoop delim cs [] else delimLoop delim cs (cur ++ [c])

/-- `delimSepNoCpy`: the fields it stores, none for NULL or the empty string. -/
def delimSepNoCpy (str : Option CStr) (delim : Char) : List CStr :=
  match str with
  | none => []
  | some [] => []
  | some s => delimLoop delim s []

end TradeC
