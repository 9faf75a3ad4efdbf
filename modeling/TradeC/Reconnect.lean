import TradeC.Replies
import TradeC.Lib.Decimal
import Mathlib.Data.Char
import Mathlib.Data.List.Lex

/-! `reconnect()` of the web pages: which transaction server a session is sent to.

    A server answers `USR|userID` with `HAV|userID` or `NOT|num`, and sends the NUL of the string with
    it; the pages take the answer apart at `|`. They look for `HAVE`, so that a server that has the user is
    passed over; and they compare the counts as strings. -/

namespace TradeC.Web

/-- What a transaction server knows: whether `getUser` finds the user, and `uList->num`. -/
structure Trans where
  has : Bool
  num : ℕ
  deriving DecidableEq

/-- A count as it arrives. -/
def count (n : ℕ) : CStr := ld n ++ ['\x00']

/-- The reply to `USR`. -/
def Trans.usr (t : Trans) (userID : CStr) : CStr := usrText t.has t.num userID ++ ['\x00']

/-- `$a > $b`, where null is the empty string. The counts end with a NUL, so they are no numeric strings,
    and PHP compares them byte by byte. -/
def phpGreater (a : Option CStr) (b : CStr) : Bool := b < a.getD []

/-- `$a == null`. -/
def phpNull (a : Option CStr) : Bool := a.getD [] == []

section
variable {σ : Type*}

/-- The variables of `reconnect`. -/
structure Scan (σ : Type*) where
  numUsers : Option CStr
  currentServer : Option σ
  selectedServer : Option σ

variable (net : σ → Option Trans) (userID : CStr)

/-- The loop over the servers; `net` is `none` where `stream_socket_client` fails. -/
def scan : List σ → Scan σ → Scan σ
  | [], c => c
  | value :: rest, c =>
    match net value with
    | none => scan rest c
    | some t =>
      let responseArray := explode '|' (t.usr userID)
      if responseArray[0]? = some "HAVE".toList then { c with selectedServer := some value }
      else if responseArray[0]? = some "NOT".toList then
        let n := (responseArray[1]?).getD []
        if phpGreater c.numUsers n || phpNull c.numUsers then
          scan rest { c with numUsers := some n, currentServer := some value }
        else scan rest c
      else scan rest c

/-- `$_SESSION["selectedServer"]` in the end. -/
def reconnect (transServers : List σ) : Option σ :=
  let c := scan net userID transServers ⟨none, none, none⟩
  c.selectedServer <|> c.currentServer

/-- What is asked of the selection: a server that has the user, if one that is reachable has; otherwise
    a reachable one with the least number of users. -/
structure Selects (transServers : List σ) (selected : Option σ) : Prop where
  having : (∃ v ∈ transServers, ∃ t ∈ net v, t.has) →
    ∃ v ∈ transServers, selected = some v ∧ ∃ t ∈ net v, t.has
  least : (∃ v ∈ transServers, (net v).isSome) → (∀ v ∈ transServers, ∀ t ∈ net v, ¬ t.has) →
    ∃ v ∈ transServers, selected = some v ∧
      ∃ t ∈ net v, ∀ w ∈ transServers, ∀ t' ∈ net w, t.num ≤ t'.num

/-! ### The replies -/

theorem count_ne_bar (n : ℕ) : ∀ c ∈ count n, c ≠ '|' := by
  rintro c hc rfl
  have hdigits := List.all_eq_true.mp (Decimal.all_isDigit_toDigits n)
  simp only [count, ld, List.mem_append, List.mem_singleton] at hc
  rcases hc with hc | hc
  · rw [if_neg (by omega)] at hc
    exact absurd (hdigits '|' hc) (by decide)
  · exact absurd hc (by decide)

theorem explode_usr_not {t : Trans} (ht : t.has = false) :
    explode '|' (t.usr userID) = ["NOT".toList, count t.num] := by
  have htext : t.usr userID = "NOT".toList ++ '|' :: count t.num := by
    simp [Trans.usr, usrText, ht, count]
  rw [htext, explode_append (by simp), explode_none (count_ne_bar t.num)]

theorem explode_usr_hav {t : Trans} (ht : t.has = true) :
    (explode '|' (t.usr userID))[0]? = some "HAV".toList := by
  have htext : t.usr userID = "HAV".toList ++ '|' :: (userID ++ ['\x00']) := by
    simp [Trans.usr, usrText, ht]
  rw [htext, explode_append (by simp)]
  rfl

theorem count_inj {m n : ℕ} (h : count m = count n) : m = n := by
  have hdigits := List.append_cancel_right h
  simp only [ld] at hdigits
  rw [if_neg (by omega), if_neg (by omega)] at hdigits
  have hval := congrArg Decimal.val hdigits
  simpa [Decimal.val_toDigits] using hval

theorem count_ne_nil (n : ℕ) : count n ≠ [] := by simp [count]

/-! ### The loop -/

variable {net userID}

/-- After the servers of `seen`: none has been selected as having the user; the current one is that of
    the servers without the user whose count is the least string. -/
structure Scan.Ok (net : σ → Option Trans) (seen : List σ) (c : Scan σ) : Prop where
  selected : c.selectedServer = none
  fresh : c.currentServer = none → c.numUsers = none ∧ ∀ v ∈ seen, ∀ t ∈ net v, t.has
  current : ∀ v, c.currentServer = some v → v ∈ seen ∧ ∃ t ∈ net v, t.has = false ∧
    c.numUsers = some (count t.num) ∧
      ∀ w ∈ seen, ∀ t' ∈ net w, t'.has = false → count t.num ≤ count t'.num

variable {seen : List σ} {c : Scan σ} {v : σ}

/-- A server is passed over. -/
theorem Scan.Ok.skip (h : c.Ok net seen)
    (hv : ∀ t ∈ net v, t.has = false → ∃ n, c.numUsers = some n ∧ n ≤ count t.num) :
    c.Ok net (seen ++ [v]) where
  selected := h.selected
  fresh hnone := by
    obtain ⟨hnum, hall⟩ := h.fresh hnone
    refine ⟨hnum, fun w hw t ht => ?_⟩
    rcases List.mem_append.mp hw with hw | hw
    · exact hall w hw t ht
    · rw [List.mem_singleton.mp hw] at ht
      by_contra hhas
      obtain ⟨n, hn, -⟩ := hv t ht (by simpa using hhas)
      rw [hnum] at hn
      cases hn
  current u hu := by
    obtain ⟨hmem, t, ht, hhas, hnum, hleast⟩ := h.current u hu
    refine ⟨List.mem_append_left _ hmem, t, ht, hhas, hnum, fun w hw t' ht' hhas' => ?_⟩
    rcases List.mem_append.mp hw with hw | hw
    · exact hleast w hw t' ht' hhas'
    · rw [List.mem_singleton.mp hw] at ht'
      obtain ⟨n, hn, hle⟩ := hv t' ht' hhas'
      rw [hnum] at hn
      cases hn
      exact hle

/-- A server becomes the current one. -/
theorem Scan.Ok.take (h : c.Ok net seen) {t : Trans} (ht : net v = some t) (hhas : t.has = false)
    (hless : ∀ n, c.numUsers = some n → count t.num < n) :
    Scan.Ok net (seen ++ [v]) ⟨some (count t.num), some v, c.selectedServer⟩ where
  selected := h.selected
  fresh hnone := by cases hnone
  current u hu := by
    cases hu
    refine ⟨by simp, t, ht, hhas, rfl, fun w hw t' ht' hhas' => ?_⟩
    rcases List.mem_append.mp hw with hw | hw
    · cases hcur : c.currentServer with
      | none =>
        have hhave := (h.fresh hcur).2 w hw t' ht'
        rw [hhas'] at hhave
        cases hhave
      | some u =>
        obtain ⟨-, t₀, -, -, hnum, hleast⟩ := h.current u hcur
        exact (hless _ hnum).le.trans (hleast w hw t' ht' hhas')
    · rw [List.mem_singleton.mp hw, ht] at ht'
      cases ht'
      exact le_rfl

/-- What the test makes of a count. -/
theorem takes_iff (h : c.Ok net seen) (n : ℕ) :
    (phpGreater c.numUsers (count n) || phpNull c.numUsers) = true ↔
      ∀ m, c.numUsers = some m → count n < m := by
  cases hcur : c.currentServer with
  | none => simp [(h.fresh hcur).1, phpGreater, phpNull]
  | some u =>
    obtain ⟨-, t, -, -, hnum, -⟩ := h.current u hcur
    simp [hnum, phpGreater, phpNull, count_ne_nil]

theorem scan_ok : ∀ (rest : List σ) {seen : List σ} {c : Scan σ}, c.Ok net seen →
    (scan net userID rest c).Ok net (seen ++ rest) := by
  intro rest
  induction rest with
  | nil =>
    intro seen c h
    simpa [scan] using h
  | cons v rest ih =>
    intro seen c h
    rw [List.append_cons, scan]
    cases ht : net v with
    | none => exact ih (h.skip fun t ht' => by simp [ht] at ht')
    | some t =>
      cases hhas : t.has with
      | true =>
        -- HAV is neither of the words that are looked for
        simp only [explode_usr_hav userID hhas]
        rw [if_neg (by decide), if_neg (by decide)]
        refine ih (h.skip fun t' ht' hhas' => ?_)
        rw [ht] at ht'
        cases ht'
        rw [hhas] at hhas'
        cases hhas'
      | false =>
        simp only [explode_usr_not userID hhas, List.getElem?_cons_zero, List.getElem?_cons_succ,
          Option.getD_some]
        rw [if_neg (by decide), if_pos trivial]
        split_ifs with htakes
        · exact ih (h.take ht hhas ((takes_iff h t.num).mp htakes))
        · refine ih (h.skip fun t' ht' _ => ?_)
          rw [ht] at ht'
          cases ht'
          by_contra hle
          refine htakes ((takes_iff h t.num).mpr fun m hm => ?_)
          by_contra hlt
          exact hle ⟨m, hm, not_lt.mp hlt⟩

variable (net userID) in
/-- The server that is selected has not got the user; its count is the least string. -/
theorem reconnect_ok (transServers : List σ) :
    ∃ n, Scan.Ok net transServers ⟨n, reconnect net userID transServers, none⟩ := by
  have hstart : Scan.Ok net [] ⟨none, none, none⟩ :=
    ⟨rfl, fun _ => ⟨rfl, by simp⟩, fun v hv => by cases hv⟩
  have hok : Scan.Ok net ([] ++ transServers) (scan net userID transServers ⟨none, none, none⟩) :=
    scan_ok transServers hstart
  have hselected := hok.selected
  refine ⟨(scan net userID transServers ⟨none, none, none⟩).numUsers, ?_⟩
  simp only [reconnect, hselected]
  rw [List.nil_append] at hok
  exact ⟨rfl, hok.fresh, hok.current⟩

variable (net userID) in
/-- `reconnect` selects as it is meant to exactly if no reachable server has the user, and, where one is
    reachable, the count of one of them is the least both as a number and as a string. -/
theorem reconnect_selects_iff (transServers : List σ) :
    Selects net transServers (reconnect net userID transServers) ↔
      (∀ v ∈ transServers, ∀ t ∈ net v, ¬ t.has) ∧
        ((∀ v ∈ transServers, net v = none) ∨
          ∃ v ∈ transServers, ∃ t ∈ net v, ∀ w ∈ transServers, ∀ t' ∈ net w,
            t.num ≤ t'.num ∧ count t.num ≤ count t'.num) := by
  obtain ⟨n, hok⟩ := reconnect_ok net userID transServers
  constructor
  · intro hsel
    have hnone : ∀ v ∈ transServers, ∀ t ∈ net v, ¬ t.has := by
      intro v hv t ht hhas
      obtain ⟨u, -, hu, t', ht', hhas'⟩ := hsel.having ⟨v, hv, t, ht, hhas⟩
      obtain ⟨-, t'', ht'', hnot, -⟩ := hok.current u hu
      cases Option.mem_unique ht' ht''
      rw [hnot] at hhas'
      cases hhas'
    refine ⟨hnone, ?_⟩
    by_cases hreach : ∃ v ∈ transServers, (net v).isSome
    · obtain ⟨u, hu, hsome, t, ht, hleast⟩ := hsel.least hreach hnone
      obtain ⟨-, t', ht', -, -, hstr⟩ := hok.current u hsome
      cases Option.mem_unique ht ht'
      exact .inr ⟨u, hu, t, ht, fun w hw t' ht' =>
        ⟨hleast w hw t' ht', hstr w hw t' ht' (by simpa using hnone w hw t' ht')⟩⟩
    · exact .inl fun v hv => by
        by_contra hne
        exact hreach ⟨v, hv, Option.isSome_iff_ne_none.mpr hne⟩
  · rintro ⟨hnone, hcount⟩
    constructor
    case having =>
      rintro ⟨v, hv, t, ht, hhas⟩
      exact absurd hhas (hnone v hv t ht)
    case least =>
      rintro ⟨v, hv, hreach⟩ -
      obtain ⟨t, ht⟩ := Option.isSome_iff_exists.mp hreach
      cases hcur : reconnect net userID transServers with
      | none => exact absurd ((hok.fresh hcur).2 v hv t ht) (hnone v hv t ht)
      | some u =>
        obtain ⟨hu, t', ht', -, -, hstr⟩ := hok.current u hcur
        refine ⟨u, hu, rfl, t', ht', ?_⟩
        rcases hcount with hall | ⟨v₀, hv₀, t₀, ht₀, hleast⟩
        · rw [hall v hv] at ht
          cases ht
        · have heq : t'.num = t₀.num := count_inj (le_antisymm
            (hstr v₀ hv₀ t₀ ht₀ (by simpa using hnone v₀ hv₀ t₀ ht₀)) (hleast u hu t' ht').2)
          intro w hw t'' ht''
          rw [heq]
          exact (hleast w hw t'' ht'').1

end

/-- The first of two servers has no users, and the second has the user; or the first has 10 users and the
    second 9. Either way the first is selected. -/
theorem reconnect_misses :
    ¬ Selects (fun v : Fin 2 => if v = 0 then some ⟨false, 0⟩ else some ⟨true, 1⟩) [0, 1]
        (reconnect (fun v : Fin 2 => if v = 0 then some ⟨false, 0⟩ else some ⟨true, 1⟩)
          "aaaaaaaaaa".toList [0, 1]) ∧
      ¬ Selects (fun v : Fin 2 => if v = 0 then some ⟨false, 10⟩ else some ⟨false, 9⟩) [0, 1]
        (reconnect (fun v : Fin 2 => if v = 0 then some ⟨false, 10⟩ else some ⟨false, 9⟩)
          "aaaaaaaaaa".toList [0, 1]) := by
  constructor
  · intro hsel
    obtain ⟨v, -, hv, t, ht, hhas⟩ := hsel.having ⟨1, by simp, ⟨true, 1⟩, by simp, rfl⟩
    have hzero : v = 0 := Option.some.inj (hv.symm.trans (by decide))
    subst hzero
    cases ht
    cases hhas
  · intro hsel
    obtain ⟨v, -, hv, t, ht, hleast⟩ := hsel.least ⟨0, by simp⟩ (by decide)
    have hzero : v = 0 := Option.some.inj (hv.symm.trans (by decide))
    subst hzero
    cases ht
    exact absurd (hleast 1 (by simp) ⟨false, 9⟩ (by simp)) (by decide)

end TradeC.Web
