import TradeC.Stored

/-! Which texts `str2price` reads as the sum of money that they are.

    The code reads a single decimal as cents, takes any three characters with a point in the middle,
    and does not look whether a number fits into a `long int`. What `price2str` writes it reads back. -/

namespace TradeC
open Decimal

/-! ### Texts of money -/

/-- Digits, a point, one or two digits: a text of `x` cents. -/
def Money (s : CStr) (x : ℤ) : Prop :=
  ∃ ip fp, s = ip ++ '.' :: fp ∧ ip ≠ [] ∧ ip.all Char.isDigit ∧ fp.all Char.isDigit ∧
    (fp.length = 1 ∨ fp.length = 2) ∧ x = 100 * val ip + hundredths fp

/-- `str2price` accepts a text exactly if it is one of money, and then gives its cents. -/
structure ReadExactly (s : CStr) : Prop where
  accepts : str2price wrap64 s ≠ -1 ↔ ∃ x, Money s x ∧ x < 2 ^ 63
  value : str2price wrap64 s ≠ -1 → Money s (str2price wrap64 s) ∧ 0 ≤ str2price wrap64 s

/-- A text of money whose single decimal is 0 and that fits, or whose cents come to -1 as they do not
    fit. -/
def ReadableShape (ip fp : CStr) : Prop :=
  (fp.length = 1 → (fp = ['0'] ∧ 100 * val ip < 2 ^ 63) ∨ (100 * val ip + val fp) % 2 ^ 64 = 2 ^ 64 - 1) ∧
  (fp.length = 2 → 100 * val ip + val fp < 2 ^ 63 ∨ (100 * val ip + val fp) % 2 ^ 64 = 2 ^ 64 - 1)

/-- A text that the code reads as what it is. With a point in the middle of three characters that is
    `d.0`, or one of the two texts that come to -1 and are no money. -/
def Readable (s : CStr) : Prop :=
  match s with
  | [a, '.', c] => (a.isDigit ∧ c = '0') ∨ (a = '0' ∧ c = '/') ∨ (a = '1' ∧ c = '\xcb')
  | s => ∀ ip fp, s = ip ++ '.' :: fp → ip ≠ [] → ip.all Char.isDigit → fp.all Char.isDigit →
    ReadableShape ip fp

/-! ### Reading, up to overflow -/

theorem wrap64_wrap64_mul (x y : ℤ) : wrap64 (wrap64 x * y) = wrap64 (x * y) := Int.bmod_mul_bmod

theorem digitLoop_wrap64 : ∀ (cs : CStr) (acc : ℤ),
    digitLoop wrap64 cs (wrap64 acc) = (digitLoop id cs acc).map wrap64 := by
  intro cs
  induction cs with
  | nil =>
    intro _
    rfl
  | cons c cs ih =>
    intro acc
    have hstep : wrap64 (10 * wrap64 acc + ord c - 48) = wrap64 (10 * acc + ord c - 48) := by
      rw [add_sub_assoc, add_sub_assoc, mul_comm, ← wrap64_wrap64_add, wrap64_wrap64_mul,
        wrap64_wrap64_add, mul_comm]
    rw [digitLoop, digitLoop]
    split_ifs
    · rfl
    · rw [hstep, ih, id_eq]

theorem str2priceDec_wrap64 (s : CStr) (dec : ℕ) :
    str2priceDec wrap64 s dec = wrap64 (str2priceDec id s dec) := by
  have hzero : wrap64 0 = 0 := by decide
  have hd := digitLoop_wrap64 (s.take (s.length - dec)) 0
  have hc := digitLoop_wrap64 (s.drop (s.length - dec + 1)) 0
  rw [hzero] at hd hc
  unfold str2priceDec
  rw [hd, hc]
  have hneg : (-1 : ℤ) = wrap64 (-1) := by decide
  cases digitLoop id (s.take (s.length - dec)) 0 with
  | none => exact hneg
  | some dollars =>
    cases digitLoop id (s.drop (s.length - dec + 1)) 0 with
    | none => exact hneg
    | some cents =>
      simp only [Option.map_some, id_eq]
      rw [← wrap64_wrap64_add, wrap64_wrap64_mul, wrap64_wrap64_add, add_comm, wrap64_wrap64_add, add_comm]

/-- The machine's result is the exact one, reduced to 64 bits. -/
theorem str2price_eq_wrap64 (s : CStr) : str2price wrap64 s = wrap64 (str2price id s) := by
  have hneg : wrap64 (-1) = -1 := by decide
  unfold str2price
  split
  · split_ifs
    · rfl
    · exact hneg.symm
  · split_ifs
    · exact hneg.symm
    · exact str2priceDec_wrap64 _ _
    · exact hneg.symm
    · exact str2priceDec_wrap64 _ _

/-! ### What is accepted -/

theorem isDigit_of_ord {c : Char} (hlo : ¬ ord c < 48) (hhi : ¬ ord c > 57) : c.isDigit := by
  have hnat : 48 ≤ c.toNat ∧ c.toNat ≤ 57 := by
    unfold ord at hlo hhi
    split_ifs at hlo hhi <;> omega
  simpa [Char.isDigit, UInt32.le_iff_toNat_le, ← Char.toNat_val] using hnat

theorem digitLoop_some : ∀ {cs : CStr} {acc x : ℤ}, digitLoop id cs acc = some x →
    cs.all Char.isDigit := by
  intro cs
  induction cs with
  | nil =>
    intro _ _ _
    rfl
  | cons c cs ih =>
    intro acc x h
    rw [digitLoop] at h
    split_ifs at h with hc
    rw [not_or] at hc
    rw [List.all_cons, isDigit_of_ord hc.1 hc.2, ih h]
    rfl

theorem eq_take_drop {s : CStr} {k : ℕ} {x : Char} (h : s[k]? = some x) :
    s = s.take k ++ x :: s.drop (k + 1) := by
  obtain ⟨hk, hx⟩ := List.getElem?_eq_some_iff.mp h
  rw [← hx, ← List.drop_eq_getElem_cons hk, List.take_append_drop]

theorem str2priceDec_some {s : CStr} {dec : ℕ} (h : str2priceDec id s dec ≠ -1) :
    (s.take (s.length - dec)).all Char.isDigit ∧ (s.drop (s.length - dec + 1)).all Char.isDigit := by
  unfold str2priceDec at h
  cases hd : digitLoop id (s.take (s.length - dec)) 0 with
  | none => simp [hd] at h
  | some dollars =>
    cases hc : digitLoop id (s.drop (s.length - dec + 1)) 0 with
    | none => simp [hd, hc] at h
    | some cents => exact ⟨digitLoop_some hd, digitLoop_some hc⟩

/-- Of a text that is not of three characters with a point in the middle, only money is accepted. -/
theorem str2price_some {s : CStr} (hthree : ∀ a c, s ≠ [a, '.', c]) (h : str2price id s ≠ -1) :
    ∃ ip fp, s = ip ++ '.' :: fp ∧ ip ≠ [] ∧ ip.all Char.isDigit ∧ fp.all Char.isDigit ∧
      (fp.length = 1 ∨ fp.length = 2) := by
  have hdec : ∀ dec, 2 ≤ dec → dec ≤ 3 → dec < s.length → s[s.length - dec]? = some '.' →
      str2priceDec id s dec ≠ -1 → ∃ ip fp, s = ip ++ '.' :: fp ∧ ip ≠ [] ∧ ip.all Char.isDigit ∧
        fp.all Char.isDigit ∧ (fp.length = 1 ∨ fp.length = 2) := by
    intro dec hlo hhi hlen hpt hne
    obtain ⟨hip, hfp⟩ := str2priceDec_some hne
    refine ⟨_, _, eq_take_drop hpt, ?_, hip, hfp, ?_⟩
    · rw [← List.length_pos_iff, List.length_take]
      omega
    · rw [List.length_drop]
      omega
  unfold str2price at h
  split at h
  · rename_i a p c
    split_ifs at h with hp
    · exact absurd (by rw [hp.2.2]) (hthree a c)
    · exact absurd rfl h
  · split_ifs at h with hlen h₂ h₃
    · exact absurd rfl h
    · exact hdec 2 le_rfl (by omega) (by omega) h₂ h
    · exact absurd rfl h
    · exact hdec 3 (by omega) le_rfl (by omega) (not_not.mp h₃) h

/-! ### The texts of money -/

section Shape
variable {ip fp : CStr}

theorem split_unique {ip' fp' : CStr} (h : ip ++ '.' :: fp = ip' ++ '.' :: fp')
    (hip : ip.all Char.isDigit) (hip' : ip'.all Char.isDigit) : ip = ip' ∧ fp = fp' := by
  obtain ⟨ht, hd⟩ := takeWhile_digits hip fp
  obtain ⟨ht', hd'⟩ := takeWhile_digits hip' fp'
  rw [h] at ht hd
  exact ⟨ht.symm.trans ht', (List.cons.inj (hd.symm.trans hd')).2⟩

theorem val_digit {c : Char} (hc : c.isDigit) : (val [c] : ℤ) = ord c - 48 := by
  obtain ⟨hord, hlo, -⟩ := ord_digit hc
  rw [hord, val, Nat.ofDigitChars_cons, Nat.ofDigitChars_nil]
  have hval : 10 * 0 + (c.toNat - '0'.toNat) = c.toNat - 48 := by simp
  rw [hval]
  omega

theorem str2priceDec_one {c : Char} (hip : ip.all Char.isDigit) (hc : c.isDigit) :
    str2priceDec id (ip ++ ['.', c]) 2 = 100 * val ip + val [c] := by
  have hlen : (ip ++ ['.', c]).length - 2 = ip.length := by simp
  have htake : (ip ++ ['.', c]).take ip.length = ip := List.take_left
  have hdrop : (ip ++ ['.', c]).drop (ip.length + 1) = [c] := by
    rw [List.drop_append]
    simp
  have hd₁ := digitLoop_digits hip 0
  have hd₂ := digitLoop_digits (show [c].all Char.isDigit by simp [hc]) 0
  unfold str2priceDec
  rw [hlen, htake, hdrop]
  simp only [Nat.cast_zero] at hd₁ hd₂
  rw [hd₁, hd₂]
  simp only [val, id_eq]
  ring

/-- A single decimal is read as cents. -/
theorem str2price_one {c : Char} (hne : ip ≠ []) (hip : ip.all Char.isDigit) (hc : c.isDigit) :
    str2price id (ip ++ ['.', c]) = 100 * val ip + val [c] := by
  have hpos : 0 < ip.length := List.length_pos_iff.mpr hne
  have hlen : (ip ++ ['.', c]).length = ip.length + 2 := by simp
  have hget : (ip ++ ['.', c])[ip.length]? = some '.' := by
    rw [List.getElem?_append_right (by omega)]
    simp
  unfold str2price
  split
  · rename_i a p d heq
    have hone : ip.length = 1 := by
      have hcount := congrArg List.length heq
      simpa using hcount
    obtain ⟨b, rfl⟩ := List.length_eq_one_iff.mp hone
    simp only [List.cons_append, List.nil_append, List.cons.injEq, and_true] at heq
    obtain ⟨rfl, rfl, rfl⟩ := heq
    simp only [List.all_cons, List.all_nil, Bool.and_true] at hip
    rw [if_pos ⟨by omega, by omega, rfl⟩, val_digit hip, val_digit hc, id_eq]
    ring
  · rename_i hnot
    have hlong : ip.length ≠ 1 := by
      intro h1
      obtain ⟨a, rfl⟩ := List.length_eq_one_iff.mp h1
      exact hnot a '.' c rfl
    rw [hlen, if_neg (by omega), show ip.length + 2 - 2 = ip.length by omega, hget, if_pos rfl,
      str2priceDec_one hip hc]

/-- What the code reads of a text of money: its decimals as cents. -/
theorem str2price_shape (hne : ip ≠ []) (hip : ip.all Char.isDigit) (hfp : fp.all Char.isDigit)
    (hlen : fp.length = 1 ∨ fp.length = 2) :
    str2price id (ip ++ '.' :: fp) = 100 * val ip + val fp := by
  rcases hlen with hlen | hlen
  · obtain ⟨c, rfl⟩ := List.length_eq_one_iff.mp hlen
    simp only [List.all_cons, List.all_nil, Bool.and_true] at hfp
    exact str2price_one hne hip hfp
  · obtain ⟨c₁, c₂, rfl⟩ := List.length_eq_two.mp hlen
    simp only [List.all_cons, List.all_nil, Bool.and_true, Bool.and_eq_true] at hfp
    exact str2price_two hne hip hfp.1 hfp.2

theorem money_shape (hne : ip ≠ []) (hip : ip.all Char.isDigit) (hfp : fp.all Char.isDigit)
    (hlen : fp.length = 1 ∨ fp.length = 2) (x : ℤ) :
    Money (ip ++ '.' :: fp) x ↔ x = 100 * val ip + hundredths fp := by
  refine ⟨fun ⟨ip', fp', heq, _, hip', _, _, hx⟩ => ?_, fun hx => ⟨ip, fp, rfl, hne, hip, hfp, hlen, hx⟩⟩
  obtain ⟨rfl, rfl⟩ := split_unique heq hip hip'
  exact hx

end Shape

/-! ### The condition -/

theorem wrap64_eq_neg_one (n : ℕ) : wrap64 n = -1 ↔ n % 2 ^ 64 = 2 ^ 64 - 1 := by
  unfold wrap64 Int.bmod
  norm_num
  split_ifs <;> omega

/-- Reading is exact if it gives the cents of the text and they fit, or gives -1 and they do not. -/
theorem readExactly_shape {ip fp : CStr} (hne : ip ≠ []) (hip : ip.all Char.isDigit)
    (hfp : fp.all Char.isDigit) (hlen : fp.length = 1 ∨ fp.length = 2) :
    ReadExactly (ip ++ '.' :: fp) ↔
      (wrap64 ↑(100 * val ip + val fp) = 100 * val ip + hundredths fp ∧
        100 * val ip + hundredths fp < 2 ^ 63) ∨
      (wrap64 ↑(100 * val ip + val fp) = -1 ∧ ¬ 100 * val ip + hundredths fp < 2 ^ 63) := by
  have hread : str2price wrap64 (ip ++ '.' :: fp) = wrap64 ↑(100 * val ip + val fp) := by
    rw [str2price_eq_wrap64, str2price_shape hne hip hfp hlen]
    push_cast
    rfl
  have hmoney := money_shape hne hip hfp hlen
  have hpos : 0 ≤ 100 * (val ip : ℤ) + hundredths fp := by
    have hcents : 0 ≤ hundredths fp := by
      rcases hlen with hlen | hlen
      · obtain ⟨c, rfl⟩ := List.length_eq_one_iff.mp hlen
        simp [hundredths]
      · obtain ⟨c₁, c₂, rfl⟩ := List.length_eq_two.mp hlen
        rw [hundredths_two]
        omega
    omega
  constructor
  · rintro ⟨haccepts, hvalue⟩
    simp only [hread, hmoney, exists_eq_left] at haccepts hvalue
    by_cases hneg : wrap64 ↑(100 * val ip + val fp) = -1
    · exact .inr ⟨hneg, fun hlt => haccepts.mpr hlt hneg⟩
    · exact .inl ⟨(hvalue hneg).1, haccepts.mp hneg⟩
  · intro h
    refine ⟨?_, ?_⟩ <;> simp only [hread, hmoney, exists_eq_left]
    · rcases h with ⟨heq, hlt⟩ | ⟨heq, hge⟩
      · exact ⟨fun _ => hlt, fun _ => by omega⟩
      · exact ⟨fun h => absurd heq h, fun h => absurd h hge⟩
    · intro hneg
      rcases h with ⟨heq, hlt⟩ | ⟨heq, hge⟩
      · exact ⟨heq, by omega⟩
      · exact absurd heq hneg

theorem readExactly_iff_shape {ip fp : CStr} (hne : ip ≠ []) (hip : ip.all Char.isDigit)
    (hfp : fp.all Char.isDigit) (hlen : fp.length = 1 ∨ fp.length = 2) :
    ReadExactly (ip ++ '.' :: fp) ↔ ReadableShape ip fp := by
  rw [readExactly_shape hne hip hfp hlen, wrap64_eq_neg_one, ReadableShape]
  rcases hlen with hlen | hlen
  · obtain ⟨c, rfl⟩ := List.length_eq_one_iff.mp hlen
    simp only [List.all_cons, List.all_nil, Bool.and_true] at hfp
    have hval := val_digit hfp
    obtain ⟨hord, hlo, hhi⟩ := ord_digit hfp
    have hzero : [c] = ['0'] ↔ val [c] = 0 := by
      refine ⟨fun h => by rw [h]; decide, fun h => ?_⟩
      have hc : ord c = ord '0' := by rw [show ord '0' = 48 by decide]; omega
      rw [ord_inj hc]
    have hcents : hundredths [c] = 10 * val [c] := rfl
    rw [hzero, hcents]
    simp only [List.length_singleton, forall_const, OfNat.one_ne_ofNat, false_implies, and_true]
    constructor
    · rintro (⟨heq, hlt⟩ | ⟨hmod, -⟩)
      · rw [(wrap64_eq_iff _).mpr ⟨by omega, by push_cast; omega⟩] at heq
        exact .inl ⟨by push_cast at heq; omega, by omega⟩
      · exact .inr hmod
    · rintro (⟨hc, hlt⟩ | hmod)
      · refine .inl ⟨?_, by omega⟩
        rw [(wrap64_eq_iff _).mpr ⟨by omega, by push_cast; omega⟩, hc]
        push_cast
        ring
      · have hge := Nat.mod_le (100 * val ip + val [c]) (2 ^ 64)
        exact .inr ⟨hmod, by omega⟩
  · obtain ⟨c₁, c₂, rfl⟩ := List.length_eq_two.mp hlen
    rw [hundredths_two]
    simp only [List.length_cons, List.length_nil, forall_const, Nat.reduceAdd, OfNat.ofNat_ne_one,
      false_implies, true_and]
    constructor
    · rintro (⟨-, hlt⟩ | ⟨hmod, -⟩)
      · exact .inl (by omega)
      · exact .inr hmod
    · rintro (hlt | hmod)
      · refine .inl ⟨?_, by omega⟩
        rw [(wrap64_eq_iff _).mpr ⟨by omega, by push_cast; omega⟩]
        push_cast
        ring
      · exact .inr ⟨hmod, by omega⟩

/-- Three characters with a point in the middle, as bytes. -/
theorem readExactly_three {a c : Char} (ha : a.toNat < 256) (hc : c.toNat < 256) :
    ReadExactly [a, '.', c] ↔ (a.isDigit ∧ c = '0') ∨ (a = '0' ∧ c = '/') ∨ (a = '1' ∧ c = '\xcb') := by
  have hread : str2price id [a, '.', c] = (ord a - 48) * 100 + (ord c - 48) := by
    simp only [str2price, id_eq]
    exact if_pos ⟨by omega, by omega, trivial⟩
  have hord : ∀ x : Char, x.toNat < 256 → -128 ≤ ord x ∧ ord x ≤ 127 := by
    intro x hx
    unfold ord
    split_ifs <;> omega
  by_cases hdigits : a.isDigit ∧ c.isDigit
  · obtain ⟨hda, hdc⟩ := hdigits
    have hshape : ReadExactly ([a] ++ '.' :: [c]) ↔ ReadableShape [a] [c] :=
      readExactly_iff_shape (by simp) (by simp [hda]) (by simp [hdc]) (.inl rfl)
    have hva := val_digit hda
    have hvc := val_digit hdc
    obtain ⟨-, -, hahi⟩ := ord_digit hda
    obtain ⟨-, -, hchi⟩ := ord_digit hdc
    rw [List.singleton_append] at hshape
    rw [hshape, ReadableShape]
    have hsmall : 100 * val [a] + val [c] < 1000 := by
      have := ord_digit hda
      have := ord_digit hdc
      omega
    have hslash : c ≠ '/' := fun h => absurd (h ▸ hdc) (by decide)
    have hlast : c ≠ '\xcb' := fun h => absurd (h ▸ hdc) (by decide)
    simp only [List.length_singleton, forall_const, OfNat.one_ne_ofNat, false_implies, and_true, hda,
      hslash, hlast, and_false, or_false, true_and, List.cons.injEq]
    constructor
    · rintro (⟨rfl, -⟩ | hmod)
      · rfl
      · omega
    · rintro rfl
      exact .inl ⟨rfl, by omega⟩
  · have hnot : ∀ x, ¬ Money [a, '.', c] x := by
      rintro x ⟨ip, fp, heq, hne, hip, hfp, hlen, -⟩
      have hcount := congrArg List.length heq
      have hpos := List.length_pos_iff.mpr hne
      simp only [List.length_cons, List.length_nil, List.length_append] at hcount
      obtain ⟨b, rfl⟩ := List.length_eq_one_iff.mp (show ip.length = 1 by omega)
      obtain ⟨d, rfl⟩ := List.length_eq_one_iff.mp (show fp.length = 1 by omega)
      simp only [List.singleton_append, List.cons.injEq, and_true, true_and] at heq
      obtain ⟨rfl, rfl⟩ := heq
      exact hdigits ⟨by simpa using hip, by simpa using hfp⟩
    have hexact : ReadExactly [a, '.', c] ↔ str2price wrap64 [a, '.', c] = -1 := by
      refine ⟨fun h => ?_, fun h => ⟨⟨fun hne => absurd h hne, fun ⟨x, hx, _⟩ => absurd hx (hnot x)⟩,
        fun hne => absurd h hne⟩⟩
      by_contra hne
      exact hnot _ (h.value hne).1
    obtain ⟨halo, hahi⟩ := hord a ha
    obtain ⟨hclo, hchi⟩ := hord c hc
    rw [hexact, str2price_eq_wrap64, hread, (wrap64_eq_iff _).mpr ⟨by omega, by omega⟩]
    have hchars : ∀ {x y : Char}, x = y ↔ ord x = ord y := ⟨fun h => by rw [h], ord_inj⟩
    have hzero : ¬ (a.isDigit ∧ c = '0') := fun h => hdigits ⟨h.1, h.2 ▸ by decide⟩
    rw [or_iff_right hzero, hchars, hchars, hchars, hchars, show ord '0' = 48 by decide,
      show ord '/' = 47 by decide, show ord '1' = 49 by decide, show ord '\xcb' = -53 by decide]
    omega

/-- A text of bytes is read exactly, if and only if it is as `Readable` says. -/
theorem readExactly_iff {s : CStr} (hs : ∀ c ∈ s, c.toNat < 256) : ReadExactly s ↔ Readable s := by
  by_cases hthree : ∃ a c, s = [a, '.', c]
  · obtain ⟨a, c, rfl⟩ := hthree
    exact readExactly_three (hs a (by simp)) (hs c (by simp))
  · have hnot : ∀ a c, s ≠ [a, '.', c] := fun a c h => hthree ⟨a, c, h⟩
    have hcond : Readable s ↔ ∀ ip fp, s = ip ++ '.' :: fp → ip ≠ [] → ip.all Char.isDigit →
        fp.all Char.isDigit → ReadableShape ip fp := by
      unfold Readable
      split
      · exact absurd rfl (hnot _ _)
      · rfl
    rw [hcond]
    by_cases hread : str2price id s = -1
    · -- nothing is read, and a text of money would be
      have hraw : str2price wrap64 s = -1 := by rw [str2price_eq_wrap64, hread]; decide
      have hshape : ∀ ip fp, s = ip ++ '.' :: fp → ip ≠ [] → ip.all Char.isDigit →
          fp.all Char.isDigit → fp.length = 1 ∨ fp.length = 2 → False := by
        rintro ip fp rfl hne hip hfp hlen
        rw [str2price_shape hne hip hfp hlen] at hread
        omega
      refine ⟨fun _ ip fp heq hne hip hfp => ?_, fun _ => ⟨⟨fun h => absurd hraw h, ?_⟩,
        fun h => absurd hraw h⟩⟩
      · exact ⟨fun h => (hshape ip fp heq hne hip hfp (.inl h)).elim,
          fun h => (hshape ip fp heq hne hip hfp (.inr h)).elim⟩
      · rintro ⟨x, ⟨ip, fp, heq, hne, hip, hfp, hlen, -⟩, -⟩
        exact (hshape ip fp heq hne hip hfp hlen).elim
    · obtain ⟨ip, fp, rfl, hne, hip, hfp, hlen⟩ := str2price_some hnot hread
      rw [readExactly_iff_shape hne hip hfp hlen]
      refine ⟨fun h ip' fp' heq _ hip' _ => ?_, fun h => h ip fp rfl hne hip hfp⟩
      obtain ⟨rfl, rfl⟩ := split_unique heq hip hip'
      exact h

/-- 12.50 is read exactly, and 12.5 as 12.05. -/
theorem readExactly_twelveFifty : ReadExactly "12.50".toList := by
  refine (readExactly_iff (by simp)).mpr fun ip fp heq _ hip _ => ?_
  have heq' : "12".toList ++ '.' :: "50".toList = ip ++ '.' :: fp := heq
  obtain ⟨rfl, rfl⟩ := split_unique heq' (by decide) hip
  exact ⟨by decide, by decide⟩

theorem twelveHalf_not_exact : ¬ ∀ s : CStr, (∀ c ∈ s, 0 < c.toNat ∧ c.toNat < 256) → ReadExactly s := by
  intro h
  have hread := (h "12.5".toList (by simp)).value (by decide)
  have hmoney : Money "12.5".toList 1250 := ⟨"12".toList, "5".toList, by decide⟩
  rw [show ("12.5".toList : CStr) = "12".toList ++ '.' :: "5".toList by decide] at hread hmoney
  rw [money_shape (by decide) (by decide) (by decide) (by decide)] at hread
  exact absurd hread.1 (by decide)

/-! ### Writing and reading -/

/-- No zero in front that is not the only digit. -/
def Canonical (ip : CStr) : Prop :=
  ip ≠ [] ∧ ip.all Char.isDigit ∧ (ip.head? = some '0' → ip = ['0'])

theorem val_concat (ip : CStr) (c : Char) : val (ip ++ [c]) = 10 * val ip + (c.toNat - 48) := by
  rw [val, Nat.ofDigitChars_append, Nat.ofDigitChars_cons, Nat.ofDigitChars_nil]
  rfl

theorem digitChar_sub {c : Char} (hc : c.isDigit) : Nat.digitChar (c.toNat - 48) = c := by
  obtain ⟨-, hlo, hhi⟩ := ord_digit hc
  have hd : c.toNat - 48 < 10 := by omega
  have hsub := Nat.toNat_digitChar_sub_48_of_lt_ten hd
  obtain ⟨-, hlo', -⟩ := ord_digit (isDigit_digitChar hd)
  exact Char.toNat_inj.mp (by omega)

theorem val_pos {ip : CStr} (hne : ip ≠ []) (hip : ip.all Char.isDigit) (hhead : ip.head? ≠ some '0') :
    0 < val ip := by
  cases ip with
  | nil => exact absurd rfl hne
  | cons c cs =>
    rw [List.all_cons, Bool.and_eq_true] at hip
    obtain ⟨-, hlo, -⟩ := ord_digit hip.1
    have hc : c.toNat ≠ 48 := fun h => hhead (by
      rw [List.head?_cons, Char.toNat_inj.mp (h.trans (by decide : 48 = '0'.toNat))])
    have hle := le_ofDigitChars cs (10 * 0 + (c.toNat - '0'.toNat))
    rw [val, Nat.ofDigitChars_cons]
    refine lt_of_lt_of_le ?_ hle
    have hsub : '0'.toNat = 48 := by decide
    omega

/-- The digits of its value are the text again. -/
theorem toDigits_val : ∀ {ip : CStr}, Canonical ip → Nat.toDigits 10 (val ip) = ip := by
  intro ip h
  induction ip using List.reverseRecOn with
  | nil => exact absurd rfl h.1
  | append_singleton ip c ih =>
    obtain ⟨-, hdigits, hhead⟩ := h
    rw [List.all_append, Bool.and_eq_true] at hdigits
    obtain ⟨hip, hc⟩ := hdigits
    simp only [List.all_cons, List.all_nil, Bool.and_true] at hc
    obtain ⟨-, hlo, hhi⟩ := ord_digit hc
    rw [val_concat]
    cases ip with
    | nil =>
      rw [show val [] = 0 from rfl, Nat.mul_zero, Nat.zero_add, Nat.toDigits_of_lt_base (by omega),
        digitChar_sub hc]
      rfl
    | cons d ds =>
      have hfront : (d :: ds).head? ≠ some '0' := by
        intro hd
        have := hhead (by simpa using hd)
        simp at this
      have hpos := val_pos (by simp) hip hfront
      rw [← Nat.toDigits_append_toDigits (by decide) hpos (by omega),
        ih ⟨by simp, hip, fun h => absurd h hfront⟩, Nat.toDigits_of_lt_base (by omega), digitChar_sub hc]

theorem val_two_inj {c₁ c₂ d₁ d₂ : Char} (h₁ : c₁.isDigit) (h₂ : c₂.isDigit) (h₁' : d₁.isDigit)
    (h₂' : d₂.isDigit) (h : val [c₁, c₂] = val [d₁, d₂]) : c₁ = d₁ ∧ c₂ = d₂ := by
  have hval : ∀ x y : Char, val [x, y] = 10 * (x.toNat - 48) + (y.toNat - 48) := fun x y => by
    rw [show [x, y] = [x] ++ [y] from rfl, val_concat, show [x] = [] ++ [x] from rfl, val_concat,
      show val [] = 0 from rfl, Nat.mul_zero, Nat.zero_add]
  rw [hval, hval] at h
  have := ord_digit h₁
  have := ord_digit h₂
  have := ord_digit h₁'
  have := ord_digit h₂'
  exact ⟨Char.toNat_inj.mp (by omega), Char.toNat_inj.mp (by omega)⟩

/-- What is rendered is read back, with no overflow on the way, and what is read is rendered back. -/
theorem rendering_and_reading :
    (∀ p : ℤ, 0 ≤ p → p ≤ 2 ^ 63 - 1 → str2price wrap64 (price2str p) = p ∧
      ∀ x ∈ Arith.price (price2str p), -2 ^ 63 ≤ x ∧ x ≤ 2 ^ 63 - 1) ∧
    ∀ (ip : CStr) (c₁ c₂ : Char), Canonical ip → c₁.isDigit → c₂.isDigit →
      100 * val ip + val [c₁, c₂] < 2 ^ 63 →
      price2str (str2price wrap64 (ip ++ ['.', c₁, c₂])) = ip ++ ['.', c₁, c₂] := by
  refine ⟨fun p hlo hhi => ⟨?_, fun x hx => ?_⟩, fun ip c₁ c₂ hip h₁ h₂ hfits => ?_⟩
  · exact str2price_wrap64 hlo ((wrap64_eq_iff p).mpr ⟨by omega, by omega⟩)
  · have hb := mem_price_price2str hlo hx
    exact ⟨by omega, by omega⟩
  · have hread : str2price wrap64 (ip ++ ['.', c₁, c₂]) = ↑(100 * val ip + val [c₁, c₂]) := by
      rw [str2price_eq_wrap64, str2price_two hip.1 hip.2.1 h₁ h₂]
      push_cast
      exact (wrap64_eq_iff _).mpr ⟨by omega, by omega⟩
    have hcents : val [c₁, c₂] < 100 := by
      have hval : val [c₁, c₂] = 10 * val [c₁] + (c₂.toNat - 48) := val_concat [c₁] c₂
      have hval₁ := val_digit h₁
      have := ord_digit h₁
      have := ord_digit h₂
      omega
    obtain ⟨d₁, d₂, h₁', h₂', hstr, hval⟩ := price2str_toDigits (100 * val ip + val [c₁, c₂])
    have hdiv : (100 * val ip + val [c₁, c₂]) / 100 = val ip := by omega
    have hmod : (100 * val ip + val [c₁, c₂]) % 100 = val [c₁, c₂] := by omega
    rw [hmod] at hval
    obtain ⟨rfl, rfl⟩ := val_two_inj h₁' h₂' h₁ h₂ hval
    rw [hread, hstr, hdiv, toDigits_val hip]

/-- 7.05, both ways. -/
theorem rendering_and_reading_sevenFive :
    str2price wrap64 (price2str 705) = 705 ∧ price2str (str2price wrap64 "7.05".toList) = "7.05".toList := by
  refine ⟨(rendering_and_reading.1 705 (by decide) (by decide)).1, ?_⟩
  exact rendering_and_reading.2 ['7'] '0' '5' ⟨by decide, by decide, by decide⟩ (by decide) (by decide)
    (by decide)

end TradeC
