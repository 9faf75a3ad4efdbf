import TradeC.Message
import Mathlib.Data.List.TakeWhile

/-! The splitters of transServer.c and loadBalancer.c, as loops over an index.

    `delimSepNoCpy` and `delimSepMaxDelim` write a NUL over each delimiter in their input and store
    pointers into it; the load balancer's `delimSep` copies slices. What they make of a string is
    `parts`, by recursion on the string: the loop invariant is that the buffer is `q ++ (cur ++ (u ++ t))`
    with `q` done, `cur` the field that has begun at `start`, and `u` to go. -/

namespace TradeC.Splitters

/-- The variables of a loop: the buffer `in`, the pointers stored in `out`, and `start`; `count` is the
    number of pointers. -/
structure Scan where
  buf : List Char
  out : List ℕ
  start : ℕ

/-- The loop of `delimSepNoCpy` and `delimSepMaxDelim` over the indices; `stop` is the test of `count`
    before its `break`. -/
def scan (delim : Char) (stop : ℕ → Bool) : List ℕ → Scan → Scan
  | [], v => v
  | i :: is, v =>
    if v.buf[i]? = some delim then
      let count := v.out.length + 1
      let v := ⟨v.buf.set i nul, v.out ++ [v.start], i + 1⟩
      if stop count then v else scan delim stop is v
    else scan delim stop is v

/-- What a splitter leaves: its input, written over, and the pointers in `out`. -/
structure Split where
  buf : List Char
  out : List ℕ
  deriving DecidableEq

/-- The strings that the pointers point to. -/
def Split.fields (r : Split) : List CStr := r.out.map (cstr r.buf)

def sep (stop : ℕ → Bool) (str : Option (List Char)) (delim : Char) : Split :=
  match str with
  | none => ⟨[], []⟩
  | some buf =>
    let len := (cstr buf 0).length
    if len = 0 then ⟨buf, []⟩
    else
      let v := scan delim stop (List.range len) ⟨buf, [], 0⟩
      ⟨v.buf, v.out ++ [v.start]⟩

def delimSepNoCpy (str : Option (List Char)) (delim : Char) : Split := sep (fun _ => false) str delim

def delimSepMaxDelim (str : Option (List Char)) (delim : Char) (maxDelim : Int8) : Split :=
  sep (fun count => (count : ℤ) = maxDelim.toInt) str delim

/-- `strncpy` of the characters from `start` to before `i`, with the NUL that is written after them. -/
def slice (buf : List Char) (start i : ℕ) : CStr :=
  ((buf.drop start).take (i - start)).takeWhile (· ≠ nul)

/-- The loop of loadBalancer's `delimSep`: `out`, and `start`. -/
def copyLoop (delim : Char) (buf : List Char) : List ℕ → List CStr → ℕ → List CStr × ℕ
  | [], out, start => (out, start)
  | i :: is, out, start =>
    if buf[i]? = some delim then copyLoop delim buf is (out ++ [slice buf start i]) (i + 1)
    else copyLoop delim buf is out start

/-- loadBalancer's `delimSep`. -/
def delimSep (str : Option (List Char)) (delim : Char) : List CStr :=
  match str with
  | none => []
  | some buf =>
    let len := (cstr buf 0).length
    if len = 0 then []
    else
      let (out, start) := copyLoop delim buf (List.range len) [] 0
      out ++ [slice buf start len]

/-! ### The parts of a string -/

/-- The field `cur` that has begun, and the fields of the rest, up to where `stop` ends it. -/
def parts (delim : Char) (stop : ℕ → Bool) : CStr → CStr → ℕ → List CStr
  | [], cur, _ => [cur]
  | c :: s, cur, count =>
    if c = delim then
      if stop (count + 1) then [cur, s] else cur :: parts delim stop s [] (count + 1)
    else parts delim stop s (cur ++ [c]) count

variable {delim : Char} {stop : ℕ → Bool}

theorem parts_ne_nil : ∀ (s cur : CStr) (count : ℕ), parts delim stop s cur count ≠ [] := by
  intro s
  induction s with
  | nil =>
    intro _ _
    exact List.cons_ne_nil _ _
  | cons c s ih =>
    intro cur count
    rw [parts]
    split_ifs
    · exact List.cons_ne_nil _ _
    · exact List.cons_ne_nil _ _
    · exact ih _ _

theorem mem_parts {c : Char} : ∀ {s cur f : CStr} {count : ℕ}, f ∈ parts delim stop s cur count →
    c ∈ f → c ∈ cur ++ s := by
  intro s
  induction s with
  | nil =>
    intro cur f count hf hc
    rw [parts, List.mem_singleton] at hf
    rw [List.append_nil, ← hf]
    exact hc
  | cons d s ih =>
    intro cur f count hf hc
    rw [parts] at hf
    rw [List.mem_append, List.mem_cons]
    split_ifs at hf
    · rcases List.mem_cons.mp hf with rfl | hf
      · exact .inl hc
      · rw [List.mem_singleton] at hf
        exact .inr (.inr (hf ▸ hc))
    · rcases List.mem_cons.mp hf with rfl | hf
      · exact .inl hc
      · have hmem : c ∈ [] ++ s := ih hf hc
        exact .inr (.inr hmem)
    · have hmem : c ∈ cur ++ [d] ++ s := ih hf hc
      simpa [or_assoc] using hmem

/-- Without a limit the parts are the fields. -/
theorem parts_never : ∀ (s cur : CStr) (count : ℕ),
    parts delim (fun _ => false) s cur count = delimLoop delim s cur := by
  intro s
  induction s with
  | nil =>
    intro _ _
    rfl
  | cons c s ih =>
    intro cur count
    rw [parts, delimLoop, ih [], ih (cur ++ [c])]
    simp

/-- Joined with the delimiter, the fields are the string. -/
theorem join_delimLoop : ∀ s cur : CStr, [delim].intercalate (delimLoop delim s cur) = cur ++ s := by
  intro s
  induction s with
  | nil =>
    intro cur
    simp [delimLoop]
  | cons c s ih =>
    intro cur
    rw [delimLoop]
    split_ifs with hc
    · rw [intercalate_cons delim cur (delimLoop_ne_nil delim s []), ih [], hc]
      rfl
    · rw [ih (cur ++ [c]), List.append_assoc, List.singleton_append]

/-- With a limit that is not reached yet: all the fields, or as many as the limit leaves and the rest
    in one part. -/
theorem parts_max (m : ℕ) : ∀ (s cur : CStr) (count : ℕ), count < m →
    parts delim (fun k => (k : ℤ) = m) s cur count =
      if (delimLoop delim s cur).length ≤ m - count then delimLoop delim s cur
      else (delimLoop delim s cur).take (m - count) ++
        [[delim].intercalate ((delimLoop delim s cur).drop (m - count))] := by
  intro s
  induction s with
  | nil =>
    intro cur count h
    rw [delimLoop, parts, if_pos (by simp; omega)]
  | cons c s ih =>
    intro cur count h
    by_cases hc : c = delim
    · rw [parts, delimLoop, if_pos hc, if_pos hc]
      have hlen : (delimLoop delim s []).length ≠ 0 := by
        rw [length_delimLoop]
        omega
      by_cases hlast : count + 1 = m
      · have hone : m - count = 1 := by omega
        rw [if_pos (by simp [hlast]), hone, if_neg (by rw [List.length_cons]; omega), List.take_one,
          List.drop_one, List.tail_cons, join_delimLoop]
        rfl
      · obtain ⟨k, hk⟩ : ∃ k, m - count = k + 1 := ⟨m - count - 1, by omega⟩
        have hk' : m - (count + 1) = k := by omega
        rw [if_neg (by simp; omega), ih [] (count + 1) (by omega), hk, hk',
          List.length_cons, List.take_succ_cons, List.drop_succ_cons]
        simp only [Nat.add_le_add_iff_right]
        split_ifs <;> rfl
    · rw [parts, delimLoop, if_neg hc, if_neg hc]
      exact ih (cur ++ [c]) count h

theorem join_append (x : Char) : ∀ {fs gs : List CStr}, fs ≠ [] → gs ≠ [] →
    [x].intercalate (fs ++ gs) = [x].intercalate fs ++ x :: [x].intercalate gs := by
  intro fs
  induction fs with
  | nil =>
    intro _ h _
    exact absurd rfl h
  | cons f fs ih =>
    intro gs _ h
    cases fs with
    | nil =>
      rw [List.singleton_append, intercalate_cons x f h]
      simp
    | cons g fs =>
      have hrest := ih (List.cons_ne_nil g fs) h
      rw [List.cons_append, intercalate_cons x f (by simp), hrest, intercalate_cons x f (by simp)]
      simp

/-- A join is as long with one separator as with another. -/
theorem length_join (x y : Char) : ∀ fs : List CStr,
    ([x].intercalate fs).length = ([y].intercalate fs).length := by
  intro fs
  induction fs with
  | nil => rfl
  | cons f fs ih =>
    cases fs with
    | nil => simp
    | cons g fs =>
      rw [intercalate_cons x f (List.cons_ne_nil _ _), intercalate_cons y f (List.cons_ne_nil _ _),
        List.length_append, List.length_append, List.length_cons, List.length_cons, ih]

/-! ### The loops -/

theorem getElem?_middle (q cur u t : List Char) (c : Char) :
    (q ++ (cur ++ (c :: u ++ t)))[q.length + cur.length]? = some c := by
  rw [List.getElem?_append_right (Nat.le_add_right _ _), Nat.add_sub_cancel_left,
    List.getElem?_append_right (Nat.le_refl _), Nat.sub_self]
  rfl

/-- What the loop makes of the buffer, and where the pointers are. -/
theorem scan_eq : ∀ (u q cur t : List Char) (out : List ℕ) {v : Scan},
    v = scan delim stop (List.range' (q.length + cur.length) u.length)
      ⟨q ++ (cur ++ (u ++ t)), out, q.length⟩ →
    v.buf = q ++ ([nul].intercalate (parts delim stop u cur out.length) ++ t) ∧
      v.out ++ [v.start] = out ++ offsets (parts delim stop u cur out.length) q.length := by
  intro u
  induction u with
  | nil =>
    intro q cur t out v hv
    subst hv
    simp [scan, parts, offsets]
  | cons c u ih =>
    intro q cur t out v hv
    rw [List.length_cons, List.range'_succ, scan, getElem?_middle] at hv
    have hlen : (q ++ cur ++ [nul]).length = q.length + cur.length + 1 := by
      simp [Nat.add_assoc]
    by_cases hc : c = delim
    · have hset : (q ++ (cur ++ (c :: u ++ t))).set (q.length + cur.length) nul =
          q ++ cur ++ [nul] ++ ([] ++ (u ++ t)) := by
        rw [set_eq (p := q ++ cur) (r := u ++ t) (x := c) (by simp) (by simp)]
        simp
      rw [if_pos (by rw [hc]), hset, ← hlen] at hv
      rw [parts, if_pos hc]
      by_cases hstop : stop (out.length + 1)
      · rw [if_pos hstop] at hv
        subst hv
        rw [if_pos hstop]
        simp [offsets, List.intercalate, Nat.add_assoc]
      · rw [if_neg hstop] at hv
        rw [if_neg hstop]
        obtain ⟨hbuf, hout⟩ := ih (q ++ cur ++ [nul]) [] t (out ++ [q.length]) hv
        rw [List.length_append, List.length_singleton] at hbuf hout
        rw [hbuf, hout, intercalate_cons nul cur (parts_ne_nil u [] _), offsets, hlen]
        simp
    · rw [if_neg (by simpa using hc)] at hv
      rw [parts, if_neg hc]
      refine ih q (cur ++ [c]) t out ?_
      rw [hv, List.length_append, List.length_singleton]
      simp [Nat.add_assoc]

theorem slice_eq {buf q cur t : List Char} (hbuf : buf = q ++ (cur ++ t)) (hcur : nul ∉ cur) :
    slice buf q.length (q.length + cur.length) = cur := by
  rw [slice, hbuf, List.drop_left, Nat.add_sub_cancel_left, List.take_left,
    List.takeWhile_eq_self_iff]
  rintro c hc
  have hne : c ≠ nul := fun h => hcur (h ▸ hc)
  simpa using hne

theorem copyLoop_eq : ∀ (u q cur t : List Char) (out : List CStr) {r : List CStr × ℕ},
    r = copyLoop delim (q ++ (cur ++ (u ++ t))) (List.range' (q.length + cur.length) u.length) out
      q.length → nul ∉ cur ++ u →
    r.1 ++ [slice (q ++ (cur ++ (u ++ t))) r.2 (q.length + cur.length + u.length)] =
      out ++ delimLoop delim u cur := by
  intro u
  induction u with
  | nil =>
    intro q cur t out r hr h
    subst hr
    rw [List.append_nil] at h
    simp [copyLoop, delimLoop, slice_eq rfl h]
  | cons c u ih =>
    intro q cur t out r hr h
    rw [List.length_cons, List.range'_succ, copyLoop, getElem?_middle] at hr
    rw [delimLoop]
    have hcur : nul ∉ cur := fun hmem => h (List.mem_append_left _ hmem)
    by_cases hc : c = delim
    · have hlen : (q ++ cur ++ [c]).length = q.length + cur.length + 1 := by simp [Nat.add_assoc]
      have hsplit : q ++ (cur ++ (c :: u ++ t)) = q ++ cur ++ [c] ++ ([] ++ (u ++ t)) := by simp
      have hu : nul ∉ [] ++ u := fun hmem => h (by simpa using .inr (.inr hmem))
      rw [if_pos (by rw [hc]), slice_eq rfl hcur, hsplit, ← hlen] at hr
      have ih := ih (q ++ cur ++ [c]) [] t (out ++ [cur]) hr hu
      have hend : q.length + cur.length + (c :: u).length =
          (q ++ cur ++ [c]).length + ([] : List Char).length + u.length := by
        rw [hlen, List.length_cons, List.length_nil]
        omega
      rw [if_pos hc, hsplit, hend, ih, List.append_assoc, List.singleton_append]
    · have hlen : q.length + (cur ++ [c]).length = q.length + cur.length + 1 := by
        simp [Nat.add_assoc]
      have hsplit : q ++ (cur ++ (c :: u ++ t)) = q ++ (cur ++ [c] ++ (u ++ t)) := by simp
      have hu : nul ∉ cur ++ [c] ++ u := by simpa using h
      rw [if_neg (by simpa using hc), hsplit, ← hlen] at hr
      have ih := ih q (cur ++ [c]) t out hr hu
      have hend : q.length + cur.length + (c :: u).length =
          q.length + (cur ++ [c]).length + u.length := by
        rw [hlen, List.length_cons]
        omega
      rw [if_neg hc, hsplit, hend, ih]

/-! ### Splitting a string -/

section String
variable {s : CStr} {rest : List Char}

theorem cstr_zero (hnul : nul ∉ s) : cstr (s ++ nul :: rest) 0 = s :=
  cstr_eq (p := []) (r := rest) (by simp) rfl fun _ hc h => hnul (h ▸ hc)

/-- What `delimSepNoCpy` and `delimSepMaxDelim` leave of a string and its buffer. -/
theorem sep_eq (hs : s ≠ []) (hnul : nul ∉ s) :
    sep stop (some (s ++ nul :: rest)) delim =
      ⟨[nul].intercalate (parts delim stop s [] 0) ++ nul :: rest,
        offsets (parts delim stop s [] 0) 0⟩ := by
  have hlen : s.length ≠ 0 := fun h => hs (List.eq_nil_of_length_eq_zero h)
  obtain ⟨hbuf, hout⟩ := @scan_eq delim stop s [] [] (nul :: rest) [] _ rfl
  simp only [sep, cstr_zero hnul, if_neg hlen, List.range_eq_range']
  simp only [List.nil_append, List.length_nil, Nat.add_zero] at hbuf hout
  rw [hbuf, hout]

theorem fields_sep (hs : s ≠ []) (hnul : nul ∉ s) :
    (sep stop (some (s ++ nul :: rest)) delim).fields = parts delim stop s [] 0 := by
  rw [sep_eq hs hnul, Split.fields]
  refine map_cstr_offsets (p := []) (by simp) _ fun f hf c hc h => hnul ?_
  have hmem := mem_parts hf hc
  rwa [List.nil_append, h] at hmem

/-- The NULs stand where the delimiters were, and the pointers where the fields start: what
    `ConnBuf.read` says of a message. -/
theorem delimSepNoCpy_eq (hs : s ≠ []) (hnul : nul ∉ s) :
    delimSepNoCpy (some (s ++ nul :: rest)) delim =
      ⟨s.map (fun c => if c = delim then nul else c) ++ nul :: rest,
        offsets (TradeC.delimSepNoCpy (some s) delim) 0⟩ := by
  have hfields : TradeC.delimSepNoCpy (some s) delim = delimLoop delim s [] := by
    cases s with
    | nil => exact absurd rfl hs
    | cons c s => rfl
  have hmap := intercalate_delimLoop delim s [] fun _ hc => absurd hc List.not_mem_nil
  rw [delimSepNoCpy, sep_eq hs hnul, parts_never, hmap, hfields, List.nil_append]

/-- Through the buffer, the fields are those of the string. -/
theorem fields_delimSepNoCpy (hs : s ≠ []) (hnul : nul ∉ s) :
    (delimSepNoCpy (some (s ++ nul :: rest)) delim).fields = TradeC.delimSepNoCpy (some s) delim := by
  rw [delimSepNoCpy, fields_sep hs hnul, parts_never]
  cases s with
  | nil => exact absurd rfl hs
  | cons c s => rfl

/-- The load balancer's copies are the same fields. -/
theorem delimSep_eq_fields (hs : s ≠ []) (hnul : nul ∉ s) :
    delimSep (some (s ++ nul :: rest)) delim =
      (delimSepNoCpy (some (s ++ nul :: rest)) delim).fields := by
  have hlen : s.length ≠ 0 := fun h => hs (List.eq_nil_of_length_eq_zero h)
  have hcopy := @copyLoop_eq delim s [] [] (nul :: rest) [] _ rfl (by simpa using hnul)
  rw [delimSepNoCpy, fields_sep hs hnul, parts_never]
  simp only [delimSep, cstr_zero hnul, if_neg hlen, List.range_eq_range']
  simpa using hcopy

/-- With fewer delimiters than the limit, all fields. -/
theorem fields_max_all (hs : s ≠ []) (hnul : nul ∉ s) {m : Int8} (hm : 1 ≤ m.toInt)
    (hcount : (s.count delim : ℤ) < m.toInt) :
    (delimSepMaxDelim (some (s ++ nul :: rest)) delim m).fields =
      (delimSepNoCpy (some (s ++ nul :: rest)) delim).fields := by
  obtain ⟨k, hk⟩ : ∃ k : ℕ, m.toInt = k := ⟨m.toInt.toNat, by omega⟩
  rw [delimSepMaxDelim, delimSepNoCpy, fields_sep hs hnul, fields_sep hs hnul, parts_never, hk,
    parts_max k s [] 0 (by omega), length_delimLoop, if_pos (by omega)]

/-- Else the first fields, and the rest of the string as it was. -/
theorem fields_max_rest (hs : s ≠ []) (hnul : nul ∉ s) {m : Int8} (hm : 1 ≤ m.toInt)
    (hcount : m.toInt ≤ s.count delim) :
    let fs := (delimSepNoCpy (some (s ++ nul :: rest)) delim).fields
    ∃ r, s = [delim].intercalate (fs.take m.toInt.toNat) ++ delim :: r ∧
      (delimSepMaxDelim (some (s ++ nul :: rest)) delim m).fields = fs.take m.toInt.toNat ++ [r] ∧
      (delimSepMaxDelim (some (s ++ nul :: rest)) delim m).buf.drop (s.length - r.length) =
        r ++ nul :: rest := by
  obtain ⟨k, hk⟩ : ∃ k : ℕ, m.toInt = k := ⟨m.toInt.toNat, by omega⟩
  set fs := delimLoop delim s [] with hfs
  have hlen : fs.length = s.count delim + 1 := length_delimLoop delim s []
  have htake : fs.take k ≠ [] := by
    rw [← List.length_pos_iff, List.length_take]
    omega
  have hdrop : fs.drop k ≠ [] := by
    rw [← List.length_pos_iff, List.length_drop]
    omega
  set r := [delim].intercalate (fs.drop k) with hr
  have hparts : parts delim (fun n => (n : ℤ) = m.toInt) s [] 0 = fs.take k ++ [r] := by
    rw [hk, parts_max k s [] 0 (by omega), ← hfs, Nat.sub_zero, if_neg (by omega)]
  have hjoin : s = [delim].intercalate (fs.take k) ++ delim :: r := by
    rw [← join_append delim htake hdrop, List.take_append_drop, hfs, join_delimLoop, List.nil_append]
  have hlast : s.length - r.length = ([nul].intercalate (fs.take k) ++ [nul]).length := by
    have hsum := congrArg List.length hjoin
    rw [List.length_append, List.length_cons] at hsum
    rw [List.length_append, List.length_singleton, length_join nul delim]
    omega
  rw [delimSepNoCpy, delimSepMaxDelim, fields_sep hs hnul, fields_sep hs hnul, sep_eq hs hnul, hparts,
    parts_never, ← hfs, hk, Int.toNat_natCast]
  refine ⟨r, hjoin, rfl, ?_⟩
  rw [join_append nul htake (List.cons_ne_nil _ _), hlast]
  simp

end String

/-! ### The splitters -/

/-- The fields of `s` at `d`. -/
structure Exact (s : CStr) (d : Char) (fs : List CStr) : Prop where
  free : ∀ f ∈ fs, d ∉ f
  count : fs.length = s.count d + 1
  join : [d].intercalate fs = s

theorem exact_delimSepNoCpy {s : CStr} (hs : s ≠ []) (hnul : nul ∉ s) (d : Char) (rest : List Char) :
    Exact s d (delimSepNoCpy (some (s ++ nul :: rest)) d).fields := by
  rw [delimSepNoCpy, fields_sep hs hnul, parts_never]
  exact ⟨fun f hf => not_mem_delimLoop hf List.not_mem_nil, length_delimLoop d s [],
    by rw [join_delimLoop, List.nil_append]⟩

/-- Of a string in a buffer, `delimSepNoCpy` makes exactly the fields, the load balancer's `delimSep`
    the same ones, and `delimSepMaxDelim` the first `m` of them and then the rest, untouched, or all
    when there are fewer than `m` delimiters. -/
theorem splitters_agree (s : CStr) (d : Char) (rest : List Char) (hs : s ≠ []) (hnul : nul ∉ s) :
    let buf := some (s ++ nul :: rest)
    let fs := (delimSepNoCpy buf d).fields
    Exact s d fs ∧ delimSep buf d = fs ∧ ∀ m : Int8, 1 ≤ m.toInt →
      (s.count d < m.toInt → (delimSepMaxDelim buf d m).fields = fs) ∧
      (m.toInt ≤ s.count d → ∃ r, s = [d].intercalate (fs.take m.toInt.toNat) ++ d :: r ∧
        (delimSepMaxDelim buf d m).fields = fs.take m.toInt.toNat ++ [r] ∧
        (delimSepMaxDelim buf d m).buf.drop (s.length - r.length) = r ++ nul :: rest) := by
  intro buf fs
  exact ⟨exact_delimSepNoCpy hs hnul d rest, delimSep_eq_fields hs hnul,
    fun m hm => ⟨fields_max_all hs hnul hm, fields_max_rest hs hnul hm⟩⟩

/-- `a,,b,c` at the comma. -/
theorem splitters_agree_abc :
    (delimSepNoCpy (some "a,,b,c\x00xyz".toList) ',').fields = ["a", "", "b", "c"].map String.toList ∧
      (delimSepMaxDelim (some "a,,b,c\x00xyz".toList) ',' 2).fields = ["a", "", "b,c"].map String.toList ∧
      delimSep (some "a,,b,c\x00xyz".toList) ',' =
        (delimSepNoCpy (some "a,,b,c\x00xyz".toList) ',').fields :=
  ⟨by decide, by decide,
    (splitters_agree "a,,b,c".toList ',' "xyz".toList (by decide) (by decide)).2.1⟩

end TradeC.Splitters
