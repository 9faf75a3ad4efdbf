import TradeC.Quotes
import Mathlib.Data.List.GetD

/-! `str2price` of transServer.c and of loadBalancer.c, as loops over an index.

    Both run the same statements once `prclen` is known: the one takes `strlen`, the other looks for a
    comma and starts its index again. `body` reads no character from `prclen` on, so it is `str2price` on
    the characters before it. -/

namespace TradeC.Parsers

/-- `str[i]`. -/
def char (str : List Char) (i : ℕ) : Char := str.getD i nul

/-- A digit loop over the `n` characters from `i` on: the sum and the index after it; `none` is
    `return -1`. -/
def digits (w : ℤ → ℤ) (str : List Char) : ℕ → ℕ → ℤ → Option (ℤ × ℕ)
  | 0, i, acc => some (acc, i)
  | n + 1, i, acc =>
    let c := ord (char str i)
    if c < 48 ∨ c > 57 then none else digits w str n (i + 1) (w (10 * acc + c - 48))

/-- What follows once `prclen` is known; the first loop starts at `i`. -/
def body (w : ℤ → ℤ) (str : List Char) (prclen i : ℕ) : ℤ :=
  if prclen = 3 ∧ (ord (char str 0) > 48 ∨ ord (char str 0) < 57) ∧
      (ord (char str 2) > 48 ∨ ord (char str 2) < 57) ∧ char str 1 = '.' then
    w ((ord (char str 0) - 48) * 100 + (ord (char str 2) - 48))
  else if prclen < 4 then -1
  else if char str (prclen - 2) ≠ '.' ∧ char str (prclen - 3) ≠ '.' then -1
  else
    let dec := if char str (prclen - 2) = '.' then 2 else 3
    match digits w str (prclen - dec - i) i 0 with
    | none => -1
    | some (dollars, i) =>
      let i := i + 1
      match digits w str (prclen - i) i 0 with
      | none => -1
      | some (cents, _) => w (dollars * 100 + cents)

def TransServer.str2price (w : ℤ → ℤ) (str : Option (List Char)) : ℤ :=
  match str with
  | none => -1
  | some str => body w str (cstr str 0).length 0

/-- `while(str[i] != ',') i++`; no result where there is no comma to the end of the memory. -/
def comma : List Char → ℕ → Option ℕ
  | [], _ => none
  | c :: str, i => if c ≠ ',' then comma str (i + 1) else some i

def LoadBalancer.str2price (w : ℤ → ℤ) (str : Option (List Char)) : Option ℤ :=
  match str with
  | none => some (-1)
  | some str => (comma str 0).map fun prclen => body w str prclen 0

/-- The line that `get_quote_thread` enqueues of a reply, if any. -/
def quoteLine (w : ℤ → ℤ) (transID : CStr) (mTS : ℤ) (rep : List Char) : Option (Option CStr) :=
  (LoadBalancer.str2price w (some rep)).map fun price =>
    if price = -1 then none
    else some ("quote,".toList ++ ld mTS ++ ",LOAD1,".toList ++ transID ++ ',' :: cstr rep 0)

/-! ### The loops on a string with something behind it -/

variable {w : ℤ → ℤ}

theorem char_append {s : CStr} (t : List Char) {i : ℕ} (hi : i < s.length) :
    char (s ++ t) i = s[i] := by
  rw [char, List.getD_append _ _ _ _ hi, List.getD_eq_getElem _ _ hi]

/-- The index loop is the loop over the characters it reads. -/
theorem digits_eq : ∀ (u p r : List Char) (acc : ℤ),
    digits w (p ++ (u ++ r)) u.length p.length acc =
      (digitLoop w u acc).map fun sum => (sum, p.length + u.length) := by
  intro u
  induction u with
  | nil =>
    intro _ _ _
    rfl
  | cons c u ih =>
    intro p r acc
    have hat : char (p ++ (c :: u ++ r)) p.length = c := by
      rw [char, List.getD_append_right _ _ _ _ (Nat.le_refl _), Nat.sub_self]
      rfl
    rw [List.length_cons, digits, hat, digitLoop]
    by_cases hc : ord c < 48 ∨ ord c > 57
    · rw [if_pos hc, if_pos hc]
      rfl
    · have hsplit : p ++ (c :: u ++ r) = p ++ [c] ++ (u ++ r) := by simp
      have hlen : (p ++ [c]).length = p.length + 1 := by simp
      rw [if_neg hc, if_neg hc, hsplit, ← hlen, ih (p ++ [c]) r, hlen]
      congr 1
      funext sum
      rw [Nat.add_assoc, Nat.add_comm 1]

/-- The two digit loops, with the point `dec` places from the end. -/
theorem loops_eq {s : CStr} (t : List Char) {dec : ℕ} (h0 : 0 < dec) (hdec : dec ≤ s.length) :
    (match digits w (s ++ t) (s.length - dec - 0) 0 0 with
      | none => -1
      | some (dollars, i) =>
        match digits w (s ++ t) (s.length - (i + 1)) (i + 1) 0 with
        | none => -1
        | some (cents, _) => w (dollars * 100 + cents)) = str2priceDec w s dec := by
  set k := s.length - dec with hk
  have hfirst : digits w (s ++ t) k 0 0 = (digitLoop w (s.take k) 0).map fun sum => (sum, k) := by
    have h := digits_eq (w := w) (s.take k) [] (s.drop k ++ t) 0
    have hlen : (s.take k).length = k := by
      rw [List.length_take]
      omega
    rw [hlen, List.length_nil, Nat.zero_add, List.nil_append, ← List.append_assoc,
      List.take_append_drop] at h
    exact h
  have hsecond : digits w (s ++ t) (s.length - (k + 1)) (k + 1) 0 =
      (digitLoop w (s.drop (k + 1)) 0).map fun sum => (sum, s.length) := by
    have h := digits_eq (w := w) (s.drop (k + 1)) (s.take (k + 1)) t 0
    have hlen : (s.take (k + 1)).length = k + 1 := by
      rw [List.length_take]
      omega
    rw [hlen, List.length_drop, ← List.append_assoc, List.take_append_drop,
      show k + 1 + (s.length - (k + 1)) = s.length by omega] at h
    exact h
  rw [Nat.sub_zero, hfirst, str2priceDec, ← hk]
  cases digitLoop w (s.take k) 0 with
  | none => rfl
  | some dollars =>
    simp only [Option.map_some, hsecond]
    cases digitLoop w (s.drop (k + 1)) 0 <;> rfl

/-- The body reads the characters before `prclen` only, as the string does. -/
theorem body_eq (s t : List Char) : body w (s ++ t) s.length 0 = TradeC.str2price w s := by
  unfold TradeC.str2price
  split
  · rename_i a p c
    simp [body, char]
  · rename_i hne
    have hthree : s.length ≠ 3 := by
      intro h
      obtain ⟨a, p, c, rfl⟩ := List.length_eq_three.mp h
      exact hne a p c rfl
    rw [body, if_neg fun h => hthree h.1]
    by_cases hlen : s.length < 4
    · rw [if_pos hlen, if_pos hlen]
    · have htwo : char (s ++ t) (s.length - 2) = s[s.length - 2] := char_append t (by omega)
      have hthree' : char (s ++ t) (s.length - 3) = s[s.length - 3] := char_append t (by omega)
      rw [if_neg hlen, if_neg hlen, htwo, hthree', List.getElem?_eq_getElem (by omega),
        List.getElem?_eq_getElem (by omega)]
      simp only [Option.some.injEq, ne_eq]
      by_cases hdot : s[s.length - 2] = '.'
      · rw [if_neg fun h => h.1 hdot, if_pos hdot, if_pos hdot]
        exact loops_eq t (by omega) (by omega)
      · by_cases hdot' : s[s.length - 3] = '.'
        · rw [if_neg fun h => h.2 hdot', if_neg hdot, if_neg hdot, if_neg (not_not.mpr hdot')]
          exact loops_eq t (by omega) (by omega)
        · rw [if_pos ⟨hdot, hdot'⟩, if_neg hdot, if_pos hdot']

theorem comma_eq {s : CStr} (hs : ',' ∉ s) (rest : List Char) : ∀ i : ℕ,
    comma (s ++ ',' :: rest) i = some (i + s.length) := by
  induction s with
  | nil =>
    intro i
    simp [comma]
  | cons c s ih =>
    intro i
    rw [List.mem_cons, not_or] at hs
    rw [List.cons_append, comma, if_pos (Ne.symm hs.1), ih hs.2, List.length_cons]
    congr 1
    omega

/-! ### The two parsers -/

/-- `str2price` of transServer.c, on a string in a buffer. -/
theorem transServer_eq {s : CStr} (hs : nul ∉ s) (rest : List Char) :
    TransServer.str2price w (some (s ++ nul :: rest)) = TradeC.str2price w s := by
  have hstr : cstr (s ++ nul :: rest) 0 = s :=
    cstr_eq (p := []) (r := rest) (by simp) rfl fun _ hc h => hs (h ▸ hc)
  rw [TransServer.str2price, hstr, body_eq]

/-- `str2price` of loadBalancer.c, on a string with a comma after it. -/
theorem loadBalancer_eq {s : CStr} (hs : ',' ∉ s) (rest : List Char) :
    LoadBalancer.str2price w (some (s ++ ',' :: rest)) = some (TradeC.str2price w s) := by
  rw [LoadBalancer.str2price, comma_eq hs, Option.map_some, Nat.zero_add, body_eq]

/-- The load balancer reads before a comma what the transaction server reads before the NUL, and logs a
    quote exactly when that is a price. -/
theorem parsers_agree (w : ℤ → ℤ) (s : CStr) (rest rest' : List Char) (hcomma : ',' ∉ s)
    (hnul : nul ∉ s) :
    LoadBalancer.str2price w (some (s ++ ',' :: rest)) =
        some (TransServer.str2price w (some (s ++ nul :: rest'))) ∧
      ∀ transID mTS, (∃ line, quoteLine w transID mTS (s ++ ',' :: rest) = some (some line)) ↔
        TransServer.str2price w (some (s ++ nul :: rest')) ≠ -1 := by
  have hlb : LoadBalancer.str2price w (some (s ++ ',' :: rest)) =
      some (TransServer.str2price w (some (s ++ nul :: rest'))) := by
    rw [loadBalancer_eq hcomma, transServer_eq hnul]
  refine ⟨hlb, fun transID mTS => ?_⟩
  rw [quoteLine, hlb, Option.map_some]
  by_cases hprc : TransServer.str2price w (some (s ++ nul :: rest')) = -1
  · simp [hprc]
  · simp [hprc]

theorem parsers_agree_price :
    LoadBalancer.str2price id (some "12.50,ABC,user,1,key\n".toList) = some 1250 ∧
      LoadBalancer.str2price id (some "12.50,ABC,user,1,key\n".toList) =
        some (TransServer.str2price id (some "12.50\x00".toList)) :=
  ⟨by decide,
    (parsers_agree id "12.50".toList "ABC,user,1,key\n".toList [] (by decide) (by decide)).1⟩

end TradeC.Parsers
