import TradeC.Trades
import TradeC.WellFormed

/-! When the arithmetic of money stays in range.

    No operation of the code checks for overflow, and no input check bounds an amount. `Room` is what
    an event needs of the amount that it comes with and of the state before it; a run is one of exact
    arithmetic as long as each event has it. -/

namespace TradeC
open Decimal Run

/-- A `long int` holds it. -/
def InLong (x : ℤ) : Prop := -2 ^ 63 ≤ x ∧ x < 2 ^ 63

/-- What the code takes a text for: its decimals are cents, and any two characters with a point
    between them are digits. The amount -1 stands for an error. -/
def Says (amt : CStr) (x : ℤ) : Prop :=
  x ≠ -1 ∧
    ((∃ a c, amt = [a, '.', c] ∧ x = (ord a - 48) * 100 + (ord c - 48)) ∨
      ∃ ip fp, amt = ip ++ '.' :: fp ∧ ip ≠ [] ∧ ip.all Char.isDigit ∧ fp.all Char.isDigit ∧
        (fp.length = 1 ∨ fp.length = 2) ∧ x = 100 * val ip + val fp)

/-- There is a point where `str2price` looks for it, so that it goes through the digits before. -/
def Pointed (amt : CStr) : Prop :=
  4 ≤ amt.length ∧ (amt[amt.length - 2]? = some '.' ∨ amt[amt.length - 3]? = some '.')

/-- The number that a text begins with, and the amount that it says, are in range. -/
def AmountInLong (amt : CStr) : Prop :=
  (Pointed amt → val (amt.takeWhile Char.isDigit) < 2 ^ 63) ∧ ∀ x, Says amt x → x < 2 ^ 63

namespace Room
variable (s : Server) (c : Cmd) (cUser : User)

def add (amt : CStr) : Prop :=
  AmountInLong amt ∧ ∀ x, Says amt x → InLong (cUser.balance + x)

/-- The product of BUY is no more than the amount. -/
def buy (stk amt : CStr) : Prop := ∀ _st ∈ toStockID stk, AmountInLong amt

def commitBuy : Prop :=
  cUser.buysell = 1 → c.now - cUser.promptTime ≤ quoteTo →
    InLong (cUser.balance - cUser.reserve) ∧
      ∀ stockID ∈ cUser.stockObj, ∀ cUserStock ∈ getUserStock cUser.usTree stockID,
        InLong (cUserStock.num + cUser.no)

/-- For an amount that is rounded up to whole shares, of which there may be fewer. -/
def sale (num prc quotePrice : ℤ) : Prop :=
  prc.tdiv quotePrice + 1 < 2 ^ 63 ∧
    if num ≤ prc.tdiv quotePrice then -2 ^ 63 ≤ quotePrice * num
    else quotePrice * (prc.tdiv quotePrice + 1) < 2 ^ 63

def sell (stk amt : CStr) : Prop :=
  ∀ stockID ∈ toStockID stk, AmountInLong amt ∧
    ∀ x, Says amt x → ∀ cUserStock ∈ getUserStock cUser.usTree stockID, cUserStock.num ≠ 0 →
      cUser.buysell = 0 → 1 ≤ (s.quoteFor c stockID).price →
        sale cUserStock.num x (s.quoteFor c stockID).price

def commitSell : Prop :=
  cUser.buysell = -1 → c.now - cUser.promptTime ≤ quoteTo →
    ∀ stockID ∈ cUser.stockObj, ∀ cUserStock ∈ getUserStock cUser.usTree stockID,
      InLong (cUser.balance + cUser.reserve) ∧ InLong (cUserStock.num - cUser.no)

def setBuyAmount (stk amt : CStr) : Prop :=
  ∀ stockID ∈ toStockID stk, AmountInLong amt ∧
    ∀ x, Says amt x → cUser.buysell = 0 → x ≤ cUser.balance →
      s.mem.getTrigger c.userID stockID .b = none → cUser.balance - x < 2 ^ 63

def cancelSetBuy (stk : CStr) : Prop :=
  ∀ stockID ∈ toStockID stk, ∀ cTrigger ∈ (s.mem.getTrigger c.userID stockID .b).bind s.mem.obj,
    InLong (cUser.balance + cTrigger.amount)

/-- The commands that only read their amount. -/
def readAmount (stk amt : CStr) : Prop := ∀ _st ∈ toStockID stk, AmountInLong amt

def command (comm : List CStr) : Prop :=
  match comm with
  | [] =>
    if c.userCmd = "COMMIT_BUY".toList then commitBuy c cUser
    else if c.userCmd = "CANCEL_BUY".toList then True
    else if c.userCmd = "COMMIT_SELL".toList then commitSell c cUser
    else True
  | [a] =>
    if c.userCmd = "ADD".toList then add cUser a
    else if c.userCmd = "QUOTE".toList then True
    else if c.userCmd = "CANCEL_SET_BUY".toList then cancelSetBuy s c cUser a
    else True
  | [a, b] =>
    if c.userCmd = "BUY".toList then buy a b
    else if c.userCmd = "SELL".toList then sell s c cUser a b
    else if c.userCmd = "SET_BUY_AMOUNT".toList then setBuyAmount s c cUser a b
    else if c.userCmd = "SET_BUY_TRIGGER".toList then readAmount a b
    else if c.userCmd = "SET_SELL_AMOUNT".toList then readAmount a b
    else if c.userCmd = "SET_SELL_TRIGGER".toList then readAmount a b
    else True
  | _ => True

/-- The change of a bought trigger is no more than its amount. -/
def fireBuy (cTrigger : Trigger) (quotePrice : ℤ) : Prop :=
  cTrigger.amount.tdiv quotePrice ≠ 0 →
    InLong (cUser.balance + cTrigger.amount) ∧
      ∀ cUserStock ∈ getUserStock cUser.usTree cTrigger.stockObj,
        InLong (cUserStock.num + cTrigger.amount.tdiv quotePrice)

def fireSell (cTrigger : Trigger) (quotePrice : ℤ) : Prop :=
  ∀ cUserStock ∈ getUserStock cUser.usTree cTrigger.stockObj, cUserStock.num ≠ 0 →
    let numStock := sellNo cUserStock.num cTrigger.amount quotePrice
    sale cUserStock.num cTrigger.amount quotePrice ∧ cUserStock.num - numStock < 2 ^ 63 ∧
      InLong (cUser.balance + quotePrice * numStock)

end Room

/-- The state has room for what the event brings. -/
def Room (s : Server) : Event → Prop
  | .command c commStr =>
    ∀ cUser ∈ s.user c.userID, Room.command s c cUser (delimSepNoCpy commStr ',')
  | .examine t quotePrice _ =>
    ∀ cTrigger ∈ s.mem.obj t, ∀ cUser ∈ s.user cTrigger.userObj,
      match cTrigger.type with
      | .b => quotePrice < cTrigger.trig → Room.fireBuy cUser cTrigger quotePrice
      | .s => quotePrice > cTrigger.trig ∧ cTrigger.trig ≠ 0 → Room.fireSell cUser cTrigger quotePrice
  | _ => True

/-! ### Amounts -/

theorem digit_iff (c : Char) : (ord c < 48 ∨ ord c > 57) ↔ ¬ c.isDigit := by
  constructor
  · intro h hc
    obtain ⟨hord, hlo, hhi⟩ := ord_digit hc
    omega
  · intro h
    by_contra hc
    rw [not_or] at hc
    exact h (isDigit_of_ord hc.1 hc.2)

theorem ord_bounds (c : Char) : -2 ^ 32 ≤ ord c ∧ ord c < 2 ^ 32 := by
  have hlt : c.toNat < 2 ^ 32 := c.val.toNat_lt
  unfold ord
  split_ifs <;> omega

/-- The digits before anything else, from the number read so far. -/
theorem digits_inLong : ∀ (cs : CStr) {acc : ℕ}, acc < 2 ^ 63 →
    ((∀ x ∈ Arith.digits cs acc, InLong x) ↔
      Nat.ofDigitChars 10 (cs.takeWhile Char.isDigit) acc < 2 ^ 63) := by
  intro cs
  induction cs with
  | nil =>
    intro acc hacc
    exact ⟨fun _ => hacc, fun _ x hx => absurd hx List.not_mem_nil⟩
  | cons c cs ih =>
    intro acc hacc
    rw [Arith.digits]
    by_cases hc : c.isDigit
    · obtain ⟨hord, hlo, hhi⟩ := ord_digit hc
      have hstep : (10 * (acc : ℤ) + ord c - 48) = ((10 * acc + (c.toNat - 48) : ℕ) : ℤ) := by
        rw [hord]
        push_cast [Nat.cast_sub hlo]
        ring
      rw [if_neg (by omega), List.takeWhile_cons_of_pos hc, Nat.ofDigitChars_cons, hstep, List.forall_mem_cons]
      constructor
      · rintro ⟨hnext, hrest⟩
        have hfit : 10 * acc + (c.toNat - 48) < 2 ^ 63 := by
          have hhi := hnext.2
          omega
        exact (ih hfit).mp hrest
      · intro h
        have hle : 10 * acc + (c.toNat - 48) ≤ Nat.ofDigitChars 10 (cs.takeWhile Char.isDigit)
            (10 * acc + (c.toNat - 48)) := le_ofDigitChars _ _
        have hfit : 10 * acc + (c.toNat - 48) < 2 ^ 63 := lt_of_le_of_lt hle h
        exact ⟨⟨by omega, by omega⟩, (ih hfit).mpr h⟩
    · rw [if_pos ((digit_iff c).mpr hc), List.takeWhile_cons_of_neg hc, Nat.ofDigitChars_nil]
      exact ⟨fun _ => hacc, fun _ x hx => absurd hx List.not_mem_nil⟩

theorem digits_zero (cs : CStr) :
    (∀ x ∈ Arith.digits cs 0, InLong x) ↔ val (cs.takeWhile Char.isDigit) < 2 ^ 63 := by
  have h := @digits_inLong cs 0 (by decide)
  rwa [Nat.cast_zero] at h

theorem ofDigitChars_lt : ∀ {cs : CStr}, cs.all Char.isDigit → ∀ acc : ℕ,
    Nat.ofDigitChars 10 cs acc < (acc + 1) * 10 ^ cs.length := by
  intro cs
  induction cs with
  | nil =>
    intro _ acc
    simp [Nat.ofDigitChars_nil]
  | cons c cs ih =>
    intro h acc
    rw [List.all_cons, Bool.and_eq_true] at h
    obtain ⟨-, hlo, hhi⟩ := ord_digit h.1
    have ih := ih h.2 (10 * acc + (c.toNat - 48))
    have hle : (10 * acc + (c.toNat - 48) + 1) * 10 ^ cs.length ≤ 10 * (acc + 1) * 10 ^ cs.length :=
      Nat.mul_le_mul_right _ (by omega)
    rw [Nat.ofDigitChars_cons, List.length_cons, pow_succ]
    calc Nat.ofDigitChars 10 cs (10 * acc + (c.toNat - 48))
        < (10 * acc + (c.toNat - 48) + 1) * 10 ^ cs.length := ih
      _ ≤ 10 * (acc + 1) * 10 ^ cs.length := hle
      _ = (acc + 1) * (10 ^ cs.length * 10) := by ring

/-- The one or two digits of the cents. -/
theorem cents_inLong {fp : CStr} (hlen : fp.length ≤ 2) : ∀ x ∈ Arith.digits fp 0, InLong x := by
  have hall : (fp.takeWhile Char.isDigit).all Char.isDigit := List.all_takeWhile
  have hlt := ofDigitChars_lt hall 0
  have hshort : (fp.takeWhile Char.isDigit).length ≤ 2 := 
    (List.takeWhile_sublist _).length_le.trans hlen
  have hpow : 10 ^ (fp.takeWhile Char.isDigit).length ≤ 10 ^ 2 := Nat.pow_le_pow_right (by decide) hshort
  rw [zero_add, one_mul] at hlt
  refine (digits_zero fp).mpr ?_
  rw [val]
  omega

theorem says_iff (amt : CStr) (x : ℤ) : Says amt x ↔ str2price id amt = x ∧ x ≠ -1 := by
  have hthree : ∀ a c : Char, str2price id [a, '.', c] = (ord a - 48) * 100 + (ord c - 48) := by
    intro a c
    exact if_pos ⟨by omega, by omega, rfl⟩
  constructor
  · rintro ⟨hx, ⟨a, c, rfl, rfl⟩ | ⟨ip, fp, rfl, hne, hip, hfp, hlen, rfl⟩⟩
    · exact ⟨hthree a c, hx⟩
    · exact ⟨str2price_shape hne hip hfp hlen, hx⟩
  · rintro ⟨rfl, hx⟩
    refine ⟨hx, ?_⟩
    by_cases hshort : ∃ a c, amt = [a, '.', c]
    · obtain ⟨a, c, rfl⟩ := hshort
      exact Or.inl ⟨a, c, rfl, hthree a c⟩
    · obtain ⟨ip, fp, rfl, hne, hip, hfp, hlen⟩ :=
        str2price_some (fun a c h => hshort ⟨a, c, h⟩) hx
      exact Or.inr ⟨ip, fp, rfl, hne, hip, hfp, hlen, str2price_shape hne hip hfp hlen⟩

/-- The two digit loops of an amount with a point, and the sum. -/
theorem priceDec_inLong {amt : CStr} {dec : ℕ} (hdec : 2 ≤ dec ∧ dec ≤ 3)
    (hpt : amt[amt.length - dec]? = some '.') :
    (∀ x ∈ Arith.priceDec amt dec, InLong x) ↔ val (amt.takeWhile Char.isDigit) < 2 ^ 63 ∧
      ∀ x, str2priceDec id amt dec = x ∧ x ≠ -1 → x < 2 ^ 63 := by
  have hsplit := eq_take_drop hpt
  have htake : amt.takeWhile Char.isDigit = (amt.take (amt.length - dec)).takeWhile Char.isDigit := by
    conv_lhs => rw [hsplit]
    rw [List.takeWhile_append]
    split_ifs with hall
    · rw [List.takeWhile_cons_of_neg (by decide), List.append_nil]
      exact ((List.takeWhile_prefix _).eq_of_length hall).symm
    · rfl
  have hcents : (amt.drop (amt.length - dec + 1)).length ≤ 2 := by
    rw [List.length_drop]
    omega
  rw [Arith.priceDec, List.forall_mem_append, List.forall_mem_append, digits_zero, ← htake,
    str2priceDec, and_iff_left (cents_inLong hcents)]
  refine and_congr_right fun _ => ?_
  cases hd : digitLoop id (amt.take (amt.length - dec)) 0 with
  | none => exact ⟨fun _ x hx => absurd hx.1.symm hx.2, fun _ x hx => absurd hx List.not_mem_nil⟩
  | some dollars =>
    cases hc : digitLoop id (amt.drop (amt.length - dec + 1)) 0 with
    | none => exact ⟨fun _ x hx => absurd hx.1.symm hx.2, fun _ x hx => absurd hx List.not_mem_nil⟩
    | some cents =>
      have hd₁ := digitLoop_digits (digitLoop_some hd) 0
      have hc₁ := digitLoop_digits (digitLoop_some hc) 0
      rw [Nat.cast_zero, hd, Option.some.injEq] at hd₁
      rw [Nat.cast_zero, hc, Option.some.injEq] at hc₁
      simp only [List.forall_mem_singleton, id_eq]
      constructor
      · rintro hfit x ⟨rfl, -⟩
        exact hfit.2
      · intro h
        exact ⟨by omega, h _ ⟨rfl, by omega⟩⟩

/-- What `str2price` goes through is in range exactly if the amount is. -/
theorem price_inLong (amt : CStr) : (∀ x ∈ Arith.price amt, InLong x) ↔ AmountInLong amt := by
  unfold AmountInLong Pointed
  simp only [says_iff]
  by_cases hthree : ∃ a p c, amt = [a, p, c]
  · obtain ⟨a, p, c, rfl⟩ := hthree
    have ha := ord_bounds a
    have hc := ord_bounds c
    have hshort : ¬ 4 ≤ [a, p, c].length := by
      rw [List.length_cons, List.length_cons, List.length_cons, List.length_nil]
      decide
    simp only [hshort, false_and, false_imp_iff, true_and, Arith.price, str2price]
    split_ifs
    · simp only [List.forall_mem_singleton, id_eq]
      constructor
      · rintro hfit x ⟨rfl, -⟩
        exact hfit.2
      · intro _
        exact ⟨by omega, by omega⟩
    · exact ⟨fun _ x hx => absurd hx.1.symm hx.2, fun _ x hx => absurd hx List.not_mem_nil⟩
  · have hprice : Arith.price amt = if amt.length < 4 then []
        else if amt[amt.length - 2]? = some '.' then Arith.priceDec amt 2
        else if amt[amt.length - 3]? ≠ some '.' then []
        else Arith.priceDec amt 3 := by
      unfold Arith.price
      split
      · exact absurd ⟨_, _, _, rfl⟩ hthree
      · rfl
    have hread : str2price id amt = if amt.length < 4 then -1
        else if amt[amt.length - 2]? = some '.' then str2priceDec id amt 2
        else if amt[amt.length - 3]? ≠ some '.' then -1
        else str2priceDec id amt 3 := by
      unfold str2price
      split
      · exact absurd ⟨_, _, _, rfl⟩ hthree
      · rfl
    rw [hprice, hread]
    by_cases hlen : amt.length < 4
    · rw [if_pos hlen, if_pos hlen]
      exact ⟨fun _ => ⟨fun h => absurd h.1 (by omega), fun x hx => absurd hx.1.symm hx.2⟩,
        fun _ x hx => absurd hx List.not_mem_nil⟩
    · have hlong : 4 ≤ amt.length := by omega
      simp only [if_neg hlen, hlong, true_and]
      by_cases hone : amt[amt.length - 2]? = some '.'
      · simp only [hone, if_true, true_or, true_imp_iff]
        exact priceDec_inLong ⟨by decide, by decide⟩ hone
      · by_cases htwo : amt[amt.length - 3]? = some '.'
        · simp only [if_neg hone, htwo, not_true, ne_eq, if_false, or_true, true_imp_iff]
          exact priceDec_inLong ⟨by decide, by decide⟩ htwo
        · simp only [hone, htwo, ne_eq, not_false_eq_true, if_true, if_false, or_self, false_imp_iff,
            true_and]
          exact ⟨fun _ x hx => absurd hx.1.symm hx.2, fun _ x hx => absurd hx List.not_mem_nil⟩

theorem AmountInLong.value {amt : CStr} {x : ℤ} (h : AmountInLong amt) (hx : Says amt x) : InLong x := by
  refine ⟨?_, h.2 x hx⟩
  rcases hx with ⟨-, ⟨a, c, -, rfl⟩ | ⟨ip, fp, -, -, -, -, -, rfl⟩⟩
  · have ha := ord_bounds a
    have hc := ord_bounds c
    omega
  · omega

theorem forall_amount {amt : CStr} {l : ℤ → List ℤ} :
    (∀ y ∈ (if str2price id amt = -1 then [] else l (str2price id amt)), InLong y) ↔
      ∀ x, Says amt x → ∀ y ∈ l x, InLong y := by
  simp only [says_iff]
  constructor
  · rintro h x ⟨rfl, hx⟩
    rwa [if_neg hx] at h
  · intro h y hy
    by_cases hx : str2price id amt = -1
    · rw [if_pos hx] at hy
      exact absurd hy List.not_mem_nil
    · rw [if_neg hx] at hy
      exact h _ ⟨rfl, hx⟩ y hy

/-! ### Shares -/

/-- Whole shares for an amount cost no more than it, -/
theorem cost_bounds {a p : ℤ} (hp : 1 ≤ p) : min a 0 ≤ p * a.tdiv p ∧ p * a.tdiv p ≤ max a 0 := by
  have heq := Int.mul_tdiv_add_tmod a p
  rcases le_total 0 a with ha | ha
  · have hmod := Int.tmod_nonneg p ha
    have hdiv := mul_nonneg (show 0 ≤ p by omega) (Int.tdiv_nonneg ha (show 0 ≤ p by omega))
    omega
  · have hmod := Int.tmod_nonneg p (show 0 ≤ -a by omega)
    have hdiv := mul_nonneg (show 0 ≤ p by omega)
      (Int.tdiv_nonneg (show 0 ≤ -a by omega) (show 0 ≤ p by omega))
    rw [Int.neg_tmod] at hmod
    rw [Int.neg_tdiv, mul_neg] at hdiv
    omega

/-- and are no more than its cents. -/
theorem shares_bounds {a p : ℤ} (hp : 1 ≤ p) : min a 0 ≤ a.tdiv p ∧ a.tdiv p ≤ max a 0 := by
  obtain ⟨hlo, hhi⟩ := @cost_bounds a p hp
  rcases le_total 0 (a.tdiv p) with hdiv | hdiv
  · have hle := mul_le_mul_of_nonneg_right hp hdiv
    omega
  · have hle := mul_le_mul_of_nonpos_right hp hdiv
    omega

theorem inLong_cost {a p : ℤ} (hp : 1 ≤ p) (ha : InLong a) : InLong (p * a.tdiv p) := by
  obtain ⟨hlo, hhi⟩ := @cost_bounds a p hp
  obtain ⟨hlo', hhi'⟩ := ha
  exact ⟨by omega, by omega⟩

theorem sale_room {num a p : ℤ} (hp : 1 ≤ p) (ha : InLong a) :
    InLong (a.tdiv p + 1) ∧ InLong (p * sellNo num a p) ↔ Room.sale num a p := by
  obtain ⟨hlo, hhi⟩ := @cost_bounds a p hp
  obtain ⟨hlo', hhi'⟩ := @shares_bounds a p hp
  obtain ⟨halo, hahi⟩ := ha
  unfold Room.sale sellNo InLong
  split_ifs with hnum
  · have hle := mul_le_mul_of_nonneg_left hnum (show 0 ≤ p by omega)
    rw [min_eq_left (by omega)]
    omega
  · rw [min_eq_right (by omega), mul_add, mul_one]
    omega

/-! ### Commands -/

section
variable {s : Server} {c : Cmd} {cUser : User} {stk amt : CStr}

theorem nil_room : (∀ x ∈ ([] : List ℤ), InLong x) ↔ True := by simp

theorem add_room : (∀ x ∈ Arith.add cUser amt, InLong x) ↔ Room.add cUser amt := by
  rw [Arith.add, List.forall_mem_append, price_inLong,
    forall_amount (l := fun x => [cUser.balance + x])]
  simp only [List.forall_mem_singleton]
  rfl

theorem buy_room : (∀ x ∈ Arith.buy s c cUser stk amt, InLong x) ↔ Room.buy stk amt := by
  unfold Arith.buy Room.buy
  cases hst : toStockID stk with
  | none => exact ⟨fun _ _ h => absurd h (by simp), fun _ x hx => absurd hx List.not_mem_nil⟩
  | some st =>
    simp only [Option.mem_some_iff, forall_eq', List.forall_mem_append, price_inLong]
    rw [forall_amount (l := fun x => if cUser.buysell ≠ 0 then [] else if cUser.balance < x then []
      else if ((((s.lenq (c.logLine stk spc amt)).findStock st).freshQuote c st).stock st).price < 1 then []
      else if x.tdiv ((((s.lenq (c.logLine stk spc amt)).findStock st).freshQuote c st).stock st).price = 0
        then []
      else [((((s.lenq (c.logLine stk spc amt)).findStock st).freshQuote c st).stock st).price *
        x.tdiv ((((s.lenq (c.logLine stk spc amt)).findStock st).freshQuote c st).stock st).price])]
    refine ⟨fun h => h.1, fun h => ⟨h, fun x hx => ?_⟩⟩
    split_ifs with h₁ h₂ h₃ h₄
    · simp
    · simp
    · simp
    · simp
    · rw [List.forall_mem_singleton]
      exact inLong_cost (by omega) (h.value hx)

theorem takeStock_room {us : Trie UserStock} {st : StockID} {n : ℤ} :
    (∀ x ∈ Arith.takeStock us st n, InLong x) ↔
      ∀ cUserStock ∈ getUserStock us st, InLong (cUserStock.num + n) := by
  unfold Arith.takeStock
  cases getUserStock us st <;> simp

theorem commitBuy_room : (∀ x ∈ Arith.commitBuy c cUser, InLong x) ↔ Room.commitBuy c cUser := by
  unfold Arith.commitBuy Room.commitBuy
  by_cases hside : cUser.buysell = 1
  · by_cases htime : c.now - cUser.promptTime > quoteTo
    · rw [if_neg (not_not.mpr hside), if_pos htime]
      exact ⟨fun _ _ h => absurd h (not_le.mpr htime), fun _ x hx => absurd hx List.not_mem_nil⟩
    · rw [if_neg (not_not.mpr hside), if_neg htime, List.forall_mem_cons]
      simp only [hside, not_lt.mp htime, true_imp_iff]
      refine and_congr_right fun _ => ?_
      cases hst : cUser.stockObj with
      | none => simp
      | some st =>
        simp only [Option.mem_some_iff, forall_eq']
        exact takeStock_room
  · rw [if_pos hside]
    exact ⟨fun _ h => absurd h hside, fun _ x hx => absurd hx List.not_mem_nil⟩

theorem commitSell_room : (∀ x ∈ Arith.commitSell c cUser, InLong x) ↔ Room.commitSell c cUser := by
  unfold Arith.commitSell Room.commitSell
  by_cases hside : cUser.buysell = -1
  · by_cases htime : c.now - cUser.promptTime > quoteTo
    · rw [if_neg (not_not.mpr hside), if_pos htime]
      exact ⟨fun _ _ h => absurd h (not_le.mpr htime), fun _ x hx => absurd hx List.not_mem_nil⟩
    · rw [if_neg (not_not.mpr hside), if_neg htime]
      simp only [hside, not_lt.mp htime, true_imp_iff]
      cases hst : cUser.stockObj with
      | none => simp
      | some st =>
        simp only [Option.mem_some_iff, forall_eq']
        cases getUserStock cUser.usTree st <;> simp
  · rw [if_pos hside]
    exact ⟨fun _ h => absurd h hside, fun _ x hx => absurd hx List.not_mem_nil⟩

theorem sell_room : (∀ x ∈ Arith.sell s c cUser stk amt, InLong x) ↔ Room.sell s c cUser stk amt := by
  unfold Arith.sell Room.sell
  cases hst : toStockID stk with
  | none => exact ⟨fun _ _ h => absurd h (by simp), fun _ x hx => absurd hx List.not_mem_nil⟩
  | some st =>
    simp only [Option.mem_some_iff, forall_eq', List.forall_mem_append, price_inLong, quote_freshQuote]
    refine and_congr_right fun hamt => ?_
    cases huso : getUserStock cUser.usTree st with
    | none => simp
    | some uso =>
      rw [forall_amount (l := fun x => if uso.num = 0 then [] else if cUser.buysell ≠ 0 then []
        else if (s.quoteFor c st).price < 1 then []
        else [x.tdiv (s.quoteFor c st).price + 1,
          (s.quoteFor c st).price * sellNo uso.num x (s.quoteFor c st).price])]
      refine forall_congr' fun x => imp_congr_right fun hx => ?_
      simp only [Option.mem_some_iff, forall_eq']
      by_cases hnum : uso.num = 0
      · simp [hnum]
      by_cases hidle : cUser.buysell = 0
      · by_cases hp : (s.quoteFor c st).price < 1
        · simp [hnum, hidle, hp]
        · simp only [hnum, hidle, hp, if_false, ne_eq, not_true, not_false_eq_true, not_lt.mp hp,
            true_imp_iff, List.forall_mem_cons, nil_room, and_true]
          exact sale_room (not_lt.mp hp) (hamt.value hx)
      · simp [hnum, hidle]

theorem setBuyAmount_room (hbal : InLong cUser.balance) :
    (∀ x ∈ Arith.setBuyAmount s c cUser stk amt, InLong x) ↔ Room.setBuyAmount s c cUser stk amt := by
  unfold Arith.setBuyAmount Room.setBuyAmount
  cases hst : toStockID stk with
  | none => exact ⟨fun _ _ h => absurd h (by simp), fun _ x hx => absurd hx List.not_mem_nil⟩
  | some st =>
    have hmem : ((s.lenq (c.logLine stk spc amt)).findStock st).mem = s.mem :=
      (Server.quiet_findStock st).mem
    simp only [Option.mem_some_iff, forall_eq', List.forall_mem_append, price_inLong, hmem]
    refine and_congr_right fun hamt => ?_
    obtain ⟨hlo, hhi⟩ := hbal
    cases s.mem.getTrigger c.userID st .b with
    | some t =>
      rw [forall_amount (l := fun x => if cUser.buysell ≠ 0 then [] else if cUser.balance < x then []
        else [])]
      simp
    | none =>
      rw [forall_amount (l := fun x => if cUser.buysell ≠ 0 then [] else if cUser.balance < x then []
        else [cUser.balance - x])]
      refine forall_congr' fun x => imp_congr_right fun hx => ?_
      by_cases hidle : cUser.buysell = 0
      · by_cases hle : cUser.balance < x
        · simp [hidle, hle]
        · simp only [hidle, hle, if_false, ne_eq, not_true, not_lt.mp hle, true_imp_iff,
            List.forall_mem_singleton, InLong]
          omega
      · simp [hidle]

theorem cancelSetBuy_room :
    (∀ x ∈ Arith.cancelSetBuy s c cUser stk, InLong x) ↔ Room.cancelSetBuy s c cUser stk := by
  unfold Arith.cancelSetBuy Room.cancelSetBuy
  cases hst : toStockID stk with
  | none => exact ⟨fun _ _ h => absurd h (by simp), fun _ x hx => absurd hx List.not_mem_nil⟩
  | some st =>
    have hmem : ((s.lenq (c.logLine stk spc spc)).findStock st).mem = s.mem :=
      (Server.quiet_findStock st).mem
    simp only [Option.mem_some_iff, forall_eq', hmem]
    cases (s.mem.getTrigger c.userID st .b).bind s.mem.obj <;> simp

theorem readAmount_room : (∀ x ∈ Arith.readAmount stk amt, InLong x) ↔ Room.readAmount stk amt := by
  unfold Arith.readAmount Room.readAmount
  cases hst : toStockID stk with
  | none => exact ⟨fun _ _ h => absurd h (by simp), fun _ x hx => absurd hx List.not_mem_nil⟩
  | some st => simp only [Option.mem_some_iff, forall_eq', price_inLong]

theorem ite_room {p : Prop} [Decidable p] {l l' : List ℤ} {q q' : Prop} (h : (∀ x ∈ l, InLong x) ↔ q)
    (h' : (∀ x ∈ l', InLong x) ↔ q') : (∀ x ∈ if p then l else l', InLong x) ↔ if p then q else q' := by
  split_ifs
  · exact h
  · exact h'

theorem command_room (hbal : InLong cUser.balance) (comm : List CStr) :
    (∀ x ∈ Arith.command s c cUser comm, InLong x) ↔ Room.command s c cUser comm := by
  unfold Arith.command Room.command
  match comm with
  | [] =>
    exact ite_room commitBuy_room (ite_room nil_room (ite_room commitSell_room nil_room))
  | [a] =>
    exact ite_room add_room (ite_room nil_room (ite_room cancelSetBuy_room nil_room))
  | [a, b] =>
    exact ite_room buy_room (ite_room sell_room (ite_room (setBuyAmount_room hbal)
      (ite_room readAmount_room (ite_room readAmount_room (ite_room readAmount_room nil_room)))))
  | _ :: _ :: _ :: _ => exact nil_room

end

/-! ### Firings -/

section
variable {cUser : User} {cTrigger : Trigger} {p : ℤ}

theorem fireBuy_room (hp : 1 ≤ p) (hbal : InLong cUser.balance) (hamt : InLong cTrigger.amount) :
    (∀ x ∈ Arith.fireBuy cUser cTrigger p, InLong x) ↔ Room.fireBuy cUser cTrigger p := by
  unfold Arith.fireBuy Room.fireBuy
  obtain ⟨hlo, hhi⟩ := @cost_bounds cTrigger.amount p hp
  have hcost := inLong_cost hp hamt
  by_cases hno : cTrigger.amount.tdiv p = 0
  · simp [hno]
  · rw [if_neg hno]
    simp only [ne_eq, hno, List.forall_mem_append, List.forall_mem_cons, nil_room,
      and_true, takeStock_room, hcost, true_and, not_false_eq_true, true_imp_iff]
    constructor
    · rintro ⟨htake, hin, -⟩
      exact ⟨hin, htake⟩
    · rintro ⟨hin, htake⟩
      refine ⟨htake, hin, ?_⟩
      -- the change lies between the balance and the balance with the amount
      obtain ⟨hlo₁, hhi₁⟩ := hbal
      obtain ⟨hlo₂, hhi₂⟩ := hin
      exact ⟨by omega, by omega⟩

theorem fireSell_room (hp : 1 ≤ p) (hamt : InLong cTrigger.amount) :
    (∀ x ∈ Arith.fireSell cUser cTrigger p, InLong x) ↔ Room.fireSell cUser cTrigger p := by
  unfold Arith.fireSell Room.fireSell
  cases huso : getUserStock cUser.usTree cTrigger.stockObj with
  | none => simp
  | some uso =>
    by_cases hnum : uso.num = 0
    · simp [hnum]
    · simp only [hnum, if_false, List.forall_mem_cons, nil_room, and_true,
        Option.mem_some_iff, forall_eq', ne_eq, not_false_eq_true, true_imp_iff, ← sale_room hp hamt]
      have hle : sellNo uso.num cTrigger.amount p ≤ uso.num := min_le_left _ _
      constructor
      · rintro ⟨h₁, h₂, h₃, h₄⟩
        exact ⟨⟨h₁, h₂⟩, h₃.2, h₄⟩
      · rintro ⟨⟨h₁, h₂⟩, h₃, h₄⟩
        exact ⟨h₁, h₂, ⟨by omega, h₃⟩, h₄⟩

end

/-- The results of a step are in range exactly if the event has room. -/
theorem arith_room {s s' : Server} {e : Event} (hs : s.Stored wrap64) (h : step wrap64 s e = some s') :
    (∀ x ∈ arith s e, InLong x) ↔ Room s e := by
  cases e with
  | connect u => exact nil_room
  | quote st q => exact nil_room
  | command c commStr =>
    simp only [arith, Room]
    cases husr : s.user c.userID with
    | none => simp
    | some cUser =>
      simp only [Option.mem_some_iff, forall_eq']
      exact command_room ((wrap64_eq_iff _).mp (hs.balance husr)) _
  | examine t p now =>
    simp only [step] at h
    split_ifs at h with hp
    simp only [arith, Room]
    cases htr : s.mem.obj t with
    | none => simp
    | some tr =>
      simp only [Option.mem_some_iff, forall_eq']
      cases husr : s.user tr.userObj with
      | none => simp
      | some cUser =>
        have hbal := (wrap64_eq_iff _).mp (hs.balance husr)
        have hamt := (wrap64_eq_iff _).mp (hs.trigger htr).1
        simp only [Option.mem_some_iff, forall_eq']
        cases tr.type with
        | b =>
          simp only
          split_ifs with hpt
          · simp only [hpt, true_imp_iff]
            exact fireBuy_room hp.1 hbal hamt
          · simp [hpt]
        | s =>
          simp only
          split_ifs with hpt
          · rw [imp_iff_right hpt]
            exact fireSell_room hp.1 hamt
          · simp only [hpt, false_imp_iff]
            exact nil_room

/-! ### Runs -/

/-- The machine runs as exact arithmetic does while its results are in range. -/
theorem exec_exact {es : List Event} (h : Along (step wrap64) (fun s e => ∀ x ∈ arith s e, InLong x) Server.init es) :
    exec (step wrap64) Server.init es = exec (step id) Server.init es := by
  have hwf : Along (step wrap64) (fun s _ => s.WF) Server.init es :=
    along_inv (fun _ _ _ => step_wf) es Server.init Server.wf_init
  refine (exec_congr_along (fun s e hok => ?_) es Server.init (along_and hwf h)).symm
  exact (step_fits hok.1 fun x hx => (wrap64_eq_iff x).mpr (hok.2 x hx)).symm

/-- In a run, all results are in range, so that every state is the one of exact arithmetic, exactly if
    there is room for each event in the state that it finds. -/
theorem in_range_iff_room {es : List Event} {s : Server} (hrun : exec (step wrap64) Server.init es = some s) :
    (Along (step wrap64) (fun s e => ∀ x ∈ arith s e, InLong x) Server.init es ∧
      ∀ n, exec (step wrap64) Server.init (es.take n) = exec (step id) Server.init (es.take n)) ↔
        Along (step wrap64) Room Server.init es := by
  have hiff := along_iff step_wf_stored (fun s e s' hs h => arith_room hs.2 h) es Server.init s
    ⟨Server.wf_init, stored_init⟩ hrun
  constructor
  · rintro ⟨harith, -⟩
    exact hiff.mp harith
  · intro hroom
    have harith := hiff.mpr hroom
    exact ⟨harith, fun n => exec_exact (along_take es Server.init n harith)⟩

/-- The largest amount that fits, and a cent. -/
def deposits : List Event :=
  [.connect aUser, commandAt 100000 100 "ADD" (some "92233720368547758.07"),
    commandAt 100000 100 "ADD" (some "0.01")]

theorem deposits_wrap : ∃ s ∈ exec (step wrap64) Server.init deposits,
    ∃ s' ∈ exec (step id) Server.init deposits,
      (s.user aUser).map User.balance = some (-2 ^ 63) ∧ (s'.user aUser).map User.balance = some (2 ^ 63) := by
  decide +kernel

theorem in_range_iff_room_deposits : ∃ s, exec (step wrap64) Server.init deposits = some s ∧
    ((Along (step wrap64) (fun s e => ∀ x ∈ arith s e, InLong x) Server.init deposits ∧
      ∀ n, exec (step wrap64) Server.init (deposits.take n) = exec (step id) Server.init (deposits.take n)) ↔
        Along (step wrap64) Room Server.init deposits) := by
  obtain ⟨s, hs, -⟩ := deposits_wrap
  exact ⟨s, hs, in_range_iff_room hs⟩

/-- A message of at most 200 bytes, or a firing at a price. -/
def Event.Received : Event → Prop
  | .command c commStr =>
    "WSC|".toList.length + c.transID.length + 1 + c.userCmd.length + 1 + c.userID.str.length +
      commStr.elim 0 (fun comm => comm.length + 1) ≤ 200
  | .examine _ quotePrice _ => 1 ≤ quotePrice
  | _ => True

/-- The two deposits make a debt. -/
theorem deposits_not_exact : ¬ ∀ es s, (∀ e ∈ es, e.Received) →
    exec (step wrap64) Server.init es = some s →
      Along (step wrap64) (fun s e => ∀ x ∈ arith s e, InLong x) Server.init es ∧
        ∀ n, exec (step wrap64) Server.init (es.take n) = exec (step id) Server.init (es.take n) := by
  intro h
  obtain ⟨s, hs, s', hs', hbal, hbal'⟩ := deposits_wrap
  have hreceived : ∀ e ∈ deposits, e.Received := by
    intro e he
    simp only [deposits, List.mem_cons, List.not_mem_nil, or_false] at he
    rcases he with rfl | rfl | rfl
    · trivial
    · show _ ≤ _
      decide
    · show _ ≤ _
      decide
  have hsame := (h deposits s hreceived hs).2 deposits.length
  rw [List.take_length, Option.mem_def.mp hs, Option.mem_def.mp hs', Option.some.injEq] at hsame
  rw [hsame, hbal', Option.some.injEq] at hbal
  exact absurd hbal (by decide)

end TradeC
