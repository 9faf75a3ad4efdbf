import TradeC.OwnBytes
import Mathlib.Data.List.TakeWhile

/-! Which indices `connection_handler` and `command_handler` use for a message.

    The buffer has 200 bytes, `message` five pointers and `comm` two. The trims look at the byte before the
    length without testing it, the terminator is written at the length, and a splitter writes a slot for
    every delimiter. -/

namespace TradeC.Bounds

/-! ### The indices -/

section
variable (mem : ℤ → Char)

/-- `if(clientMessage[readSize - 1] == c) readSize--`, in memory that goes on before and behind the
    buffer. -/
def chop (c : Char) (readSize : ℤ) : ℤ := if mem (readSize - 1) = c then readSize - 1 else readSize

/-- What is read of `clientMessage`, and the terminator. -/
def trimIndices (n : ℤ) : List ℤ :=
  let n₁ := chop mem nul n
  let n₂ := chop mem '\n' n₁
  let n₃ := chop mem '\r' n₂
  [n - 1, n₁ - 1, n₂ - 1, n₃ - 1, chop mem ' ' n₃]

/-- The string in front of the terminator. -/
def text (n : ℤ) : CStr :=
  let readSize := chop mem ' ' (chop mem '\r' (chop mem '\n' (chop mem nul n)))
  cstr ((List.range readSize.toNat).map fun i : ℕ => mem i) 0

end

/-- The slots that the loop of `delimSepNoCpy` writes, from `count` on. -/
def slotLoop (delim : Char) : CStr → ℕ → List ℕ
  | [], count => [count]
  | c :: cs, count => if c = delim then count :: slotLoop delim cs (count + 1) else slotLoop delim cs count

/-- The slots of `delimSepNoCpy`, none for NULL or the empty string. -/
def sepSlots (str : Option CStr) (delim : Char) : List ℕ :=
  match str with
  | none => []
  | some [] => []
  | some s => slotLoop delim s 0

def maxLoop (delim : Char) (maxDelim : ℕ) : CStr → ℕ → List ℕ
  | [], count => [count]
  | c :: cs, count =>
    if c = delim then
      if count + 1 = maxDelim then [count, count + 1] else count :: maxLoop delim maxDelim cs (count + 1)
    else maxLoop delim maxDelim cs count

/-- The slots of `delimSepMaxDelim`. -/
def maxSlots (str : Option CStr) (delim : Char) (maxDelim : ℕ) : List ℕ :=
  match str with
  | none => []
  | some [] => []
  | some s => maxLoop delim maxDelim s 0

/-- All that a message of `bytes.length` bytes makes the handlers use, in whatever `b` has of earlier
    messages. -/
structure InBounds (mem : ℤ → Char) (b : ConnBuf) (bytes : List Char) : Prop where
  buffer : ∀ i ∈ trimIndices mem bytes.length, 0 ≤ i ∧ i < 200
  fields : ∀ i ∈ sepSlots (some (text mem bytes.length)) '|', i < 5
  -- delimSepMaxDelim(message[3], message + 3, ',', 1)
  user : ∀ str, ∀ i ∈ maxSlots str ',' 1, 3 + i < 5
  data : ∀ b' transID userCmd userID comm,
    b.receive bytes = some (b', .command transID userCmd userID comm) → ∀ i ∈ sepSlots comm ',', i < 2

/-! ### The condition -/

/-- The messages of which the trims leave nothing before the last of them has looked. -/
def empties : List (List Char) :=
  [[nul], ['\n'], ['\n', nul], ['\r'], ['\r', nul], ['\r', '\n'], ['\r', '\n', nul]]

/-- With the message in the buffer, `message[3]` points to a valid user and its data. -/
structure Sends (v : ConnBuf) (messageLen : ℕ) (rest : CStr) : Prop where
  len : messageLen = 4 ∨ messageLen = 2
  tag : v.str 0 = some "WSC".toList
  transID : (v.ptr 1).isSome
  userCmd : (v.ptr 2).isSome
  str : v.str 3 = some rest
  valid : validUserID (rest.takeWhile (· ≠ ',')) = true

/-- Something is left to look at; there is room for the terminator; at most five fields; a user's data has
    at most two. -/
structure Room (b : ConnBuf) (bytes : List Char) : Prop where
  left : bytes ∉ empties
  full : bytes.length < 200 ∨ bytes.getLast? ∈ [some nul, some '\n', some '\r', some ' ']
  fields : (cstr (trim bytes) 0).count '|' ≤ 4
  data : ∀ v messageLen rest, b.read bytes = some (v, messageLen) → Sends v messageLen rest →
    rest.count ',' ≤ 2

/-! ### Slots -/

theorem slotLoop_eq (delim : Char) : ∀ (s : CStr) (count : ℕ),
    slotLoop delim s count = List.range' count (s.count delim + 1) := by
  intro s
  induction s with
  | nil =>
    intro _
    rfl
  | cons c s ih =>
    intro count
    rw [slotLoop]
    by_cases hc : c = delim
    · subst hc
      rw [if_pos rfl, ih (count + 1), List.count_cons_self, ← List.range'_succ]
    · rw [if_neg hc, ih count, List.count_cons_of_ne hc]

/-- The slots are in the array if the delimiters are few. -/
theorem sepSlots_iff (s : CStr) (delim : Char) {n : ℕ} (hn : 0 < n) :
    (∀ i ∈ sepSlots (some s) delim, i < n) ↔ s.count delim < n := by
  cases s with
  | nil => simp [sepSlots, hn]
  | cons c s =>
    rw [show sepSlots (some (c :: s)) delim = slotLoop delim (c :: s) 0 from rfl, slotLoop_eq]
    simp only [List.mem_range'_1, Nat.zero_le, true_and, Nat.zero_add]
    exact ⟨fun h => h _ (Nat.lt_succ_self _), fun h i hi => by omega⟩

/-- With one delimiter looked for, two slots are written at most. -/
theorem maxLoop_lt (delim : Char) : ∀ (s : CStr), ∀ i ∈ maxLoop delim 1 s 0, i < 2 := by
  intro s
  induction s with
  | nil =>
    intro i hi
    rw [List.mem_singleton.mp hi]
    decide
  | cons c s ih =>
    intro i hi
    rw [maxLoop, if_pos rfl] at hi
    by_cases hc : c = delim
    · rw [if_pos hc] at hi
      simp only [List.mem_cons, List.not_mem_nil, or_false] at hi
      omega
    · rw [if_neg hc] at hi
      exact ih i hi

theorem maxSlots_lt (str : Option CStr) (delim : Char) : ∀ i ∈ maxSlots str delim 1, 3 + i < 5 := by
  intro i hi
  match str with
  | none => exact absurd hi List.not_mem_nil
  | some [] => exact absurd hi List.not_mem_nil
  | some (c :: s) =>
    have h := maxLoop_lt delim (c :: s) i hi
    omega

/-! ### Trimming -/

section Trim
variable {mem : ℤ → Char} {bytes : List Char}

/-- The buffer has the message in front. -/
def Holds (mem : ℤ → Char) (bytes : List Char) : Prop := ∀ i : ℕ, ∀ c ∈ bytes[i]?, mem i = c

theorem chop_eq (hmem : Holds mem bytes) (c : Char) {s : List Char} (hs : s <+: bytes) (hne : s ≠ []) :
    chop mem c s.length = (dropEnd c s).length := by
  obtain ⟨t, x, rfl⟩ := List.eq_nil_or_concat s |>.resolve_left hne
  rw [List.concat_eq_append] at hs ⊢
  obtain ⟨r, rfl⟩ := hs
  have hlast : mem ((t ++ [x]).length - 1 : ℤ) = x := by
    have h := hmem t.length x (by simp)
    rw [← h, List.length_append, List.length_singleton]
    congr 1
    omega
  rw [chop, hlast, dropEnd, List.getLast?_append, List.getLast?_singleton]
  by_cases hx : x = c
  · rw [if_pos hx, if_pos (by rw [hx]; rfl), List.dropLast_concat, List.length_append, List.length_singleton]
    omega
  · rw [if_neg hx, if_neg (by simpa using hx)]

theorem dropEnd_eq_iff {c : Char} {s t : List Char} :
    dropEnd c s = t ↔ s = t ++ [c] ∨ s = t ∧ t.getLast? ≠ some c := by
  unfold dropEnd
  split_ifs with hlast
  · obtain ⟨r, hr⟩ := List.getLast?_eq_some_iff.mp hlast
    rw [hr, List.dropLast_concat]
    constructor
    · rintro rfl
      exact Or.inl rfl
    · rintro (h | ⟨h, hne⟩)
      · exact List.append_cancel_right h
      · exact absurd (by rw [← h]; simp) hne
  · constructor
    · rintro rfl
      exact Or.inr ⟨rfl, hlast⟩
    · rintro (h | ⟨h, -⟩)
      · exact absurd (by rw [h]; simp) hlast
      · exact h

theorem dropEnd_eq_nil_iff {c : Char} {s : List Char} : dropEnd c s = [] ↔ s = [c] ∨ s = [] := by
  rw [dropEnd_eq_iff, List.nil_append]
  simp

theorem mem_empties_iff (hne : bytes ≠ []) :
    bytes ∈ empties ↔ dropEnd '\r' (dropEnd '\n' (dropEnd nul bytes)) = [] := by
  have hone : ∀ c x : Char, x ≠ c → ∀ s, dropEnd c s = [x] ↔ s = [x, c] ∨ s = [x] := by
    intro c x hx s
    rw [dropEnd_eq_iff]
    simp [hx]
  have htwo : dropEnd nul bytes = ['\r', '\n'] ↔ bytes = ['\r', '\n', nul] ∨ bytes = ['\r', '\n'] := by
    rw [dropEnd_eq_iff]
    simp [show '\n' ≠ nul by decide]
  rw [dropEnd_eq_nil_iff, dropEnd_eq_nil_iff, dropEnd_eq_nil_iff, hone '\n' '\r' (by decide),
    hone nul '\r' (by decide), hone nul '\n' (by decide), htwo]
  simp only [empties, List.mem_cons, List.not_mem_nil, or_false]
  constructor
  · rintro (h | h | h | h | h | h | h) <;> simp [h]
  · rintro (((h | h) | h | h) | (h | h) | h | h)
    · simp [h]
    · simp [h]
    · simp [h]
    · simp [h]
    · simp [h]
    · simp [h]
    · simp [h]
    · exact absurd h hne

/-- A byte is trimmed exactly if the last is one of the four. -/
theorem length_trim_lt_iff (hne : bytes ≠ []) : (trim bytes).length < bytes.length ↔
    bytes.getLast? ∈ [some nul, some '\n', some '\r', some ' '] := by
  have hle : ∀ c (s : List Char), (dropEnd c s).length ≤ s.length := fun c s =>
    (dropEnd_isPrefix c s).length_le
  have hlt : ∀ {c} {s : List Char}, s ≠ [] → s.getLast? = some c → (dropEnd c s).length < s.length := by
    intro c s hs hlast
    rw [dropEnd, if_pos hlast, List.length_dropLast]
    exact Nat.sub_lt (List.length_pos_iff.mpr hs) Nat.one_pos
  have hsame : ∀ {c} {s : List Char}, s.getLast? ≠ some c → dropEnd c s = s := fun h => if_neg h
  have h₁ := hle '\n' (dropEnd nul bytes)
  have h₂ := hle '\r' (dropEnd '\n' (dropEnd nul bytes))
  have h₃ := hle ' ' (dropEnd '\r' (dropEnd '\n' (dropEnd nul bytes)))
  simp only [List.mem_cons, List.not_mem_nil, or_false]
  rw [trim]
  by_cases hnul : bytes.getLast? = some nul
  · have h := hlt hne hnul
    exact ⟨fun _ => Or.inl hnul, fun _ => by omega⟩
  rw [hsame hnul] at h₁ h₂ h₃ ⊢
  by_cases hnl : bytes.getLast? = some '\n'
  · have h := hlt hne hnl
    exact ⟨fun _ => Or.inr (Or.inl hnl), fun _ => by omega⟩
  rw [hsame hnl] at h₂ h₃ ⊢
  by_cases hcr : bytes.getLast? = some '\r'
  · have h := hlt hne hcr
    exact ⟨fun _ => Or.inr (Or.inr (Or.inl hcr)), fun _ => by omega⟩
  rw [hsame hcr] at h₃ ⊢
  by_cases hsp : bytes.getLast? = some ' '
  · have h := hlt hne hsp
    exact ⟨fun _ => Or.inr (Or.inr (Or.inr hsp)), fun _ => h⟩
  rw [hsame hsp]
  refine ⟨fun h => absurd h (Nat.lt_irrefl _), ?_⟩
  rintro (h | h | h | h)
  · exact absurd h hnul
  · exact absurd h hnl
  · exact absurd h hcr
  · exact absurd h hsp

/-- The trims look inside the message as long as one of its bytes is left. -/
theorem trimIndices_eq (hmem : Holds mem bytes)
    (hleft : dropEnd '\r' (dropEnd '\n' (dropEnd nul bytes)) ≠ []) :
    trimIndices mem bytes.length = [(bytes.length : ℤ) - 1, (dropEnd nul bytes).length - 1,
      (dropEnd '\n' (dropEnd nul bytes)).length - 1,
      (dropEnd '\r' (dropEnd '\n' (dropEnd nul bytes))).length - 1, (trim bytes).length] ∧
    text mem bytes.length = cstr (trim bytes) 0 := by
  have hpre := fun c (s : List Char) => dropEnd_isPrefix c s
  have hne₂ : dropEnd '\n' (dropEnd nul bytes) ≠ [] := fun h => hleft (by rw [h]; rfl)
  have hne₁ : dropEnd nul bytes ≠ [] := fun h => hne₂ (by rw [h]; rfl)
  have hne : bytes ≠ [] := fun h => hne₁ (by rw [h]; rfl)
  have h₁ := chop_eq hmem nul List.prefix_rfl hne
  have h₂ := chop_eq hmem '\n' (hpre nul bytes) hne₁
  have h₃ := chop_eq hmem '\r' ((hpre _ _).trans (hpre _ _)) hne₂
  have h₄ := chop_eq hmem ' ' ((hpre _ _).trans ((hpre _ _).trans (hpre _ _))) hleft
  rw [trimIndices, text, h₁, h₂, h₃, h₄]
  refine ⟨rfl, ?_⟩
  rw [Int.toNat_natCast]
  congr 1
  obtain ⟨r, hr⟩ := trim_isPrefix bytes
  refine List.ext_getElem (by simp [trim]) fun i hi hi' => ?_
  have hget : bytes[i]? = (trim bytes)[i]? := by
    conv_lhs => rw [← hr]
    exact List.getElem?_append_left hi'
  rw [List.getElem_map, List.getElem_range]
  refine hmem i _ ?_
  rw [hget, List.getElem?_eq_getElem hi']
  rfl

theorem trim_iff (hmem : Holds mem bytes) (hne : bytes ≠ []) (hlen : bytes.length ≤ 200) :
    (∀ i ∈ trimIndices mem bytes.length, 0 ≤ i ∧ i < 200) ↔ bytes ∉ empties ∧
      (bytes.length < 200 ∨ bytes.getLast? ∈ [some nul, some '\n', some '\r', some ' ']) := by
  rw [mem_empties_iff hne, ← length_trim_lt_iff hne]
  have hle := (trim_isPrefix bytes).length_le
  by_cases hleft : dropEnd '\r' (dropEnd '\n' (dropEnd nul bytes)) = []
  · -- a byte in front of the buffer is read
    refine ⟨fun h => ?_, fun h => absurd hleft h.1⟩
    have h₁ := chop_eq hmem nul List.prefix_rfl hne
    have hi₁ := (h (chop mem nul bytes.length - 1) (by simp [trimIndices])).1
    have hne₁ : dropEnd nul bytes ≠ [] := fun hnil => by
      rw [h₁, hnil, List.length_nil] at hi₁
      omega
    have h₂ := chop_eq hmem '\n' (dropEnd_isPrefix nul bytes) hne₁
    have hi₂ := (h (chop mem '\n' (chop mem nul bytes.length) - 1) (by simp [trimIndices])).1
    have hne₂ : dropEnd '\n' (dropEnd nul bytes) ≠ [] := fun hnil => by
      rw [h₁, h₂, hnil, List.length_nil] at hi₂
      omega
    have h₃ := chop_eq hmem '\r' ((dropEnd_isPrefix _ _).trans (dropEnd_isPrefix nul bytes)) hne₂
    have hi₃ := (h (chop mem '\r' (chop mem '\n' (chop mem nul bytes.length)) - 1)
      (by simp [trimIndices])).1
    rw [h₁, h₂, h₃, hleft, List.length_nil] at hi₃
    omega
  · have hpos : ∀ {s : List Char}, s ≠ [] → 0 < s.length := fun h => List.length_pos_iff.mpr h
    have h₃ := hpos hleft
    have h₂ := (dropEnd_isPrefix '\r' (dropEnd '\n' (dropEnd nul bytes))).length_le
    have h₁ := (dropEnd_isPrefix '\n' (dropEnd nul bytes)).length_le
    have h₀ := (dropEnd_isPrefix nul bytes).length_le
    rw [(trimIndices_eq hmem hleft).1]
    simp only [List.mem_cons, List.not_mem_nil, or_false, forall_eq_or_imp, forall_eq]
    refine ⟨fun h => ⟨hleft, by omega⟩, fun h => ?_⟩
    omega

end Trim

/-! ### The data of a command -/

section Data
variable {b v : ConnBuf} {bytes : List Char} {messageLen : ℕ} {rest : CStr}

/-- A message of four or of two fields leaves NULL in the last pointer. -/
theorem read_ptr (hread : b.read bytes = some (v, messageLen)) (hlen : messageLen = 4 ∨ messageLen = 2) :
    v.ptr 4 = none := by
  obtain ⟨r, -, hread'⟩ := b.read_eq bytes
  rw [hread] at hread'
  split_ifs at hread'
  rw [Option.some.injEq, Prod.mk.injEq] at hread'
  have hn := hread'.2
  have hptrs : ((offsets (fieldsOf bytes) 0).map some).length = messageLen := by
    rw [List.length_map, length_offsets, hn]
  rw [hread'.1, ConnBuf.ptr]
  simp only
  rw [List.getElem?_append_right (by omega), hptrs, List.getElem?_drop, ← hn,
    Nat.add_sub_cancel' (by omega)]
  cases h : (b.message.set 4 none)[4]? with
  | none => rfl
  | some x =>
    rw [List.getElem?_set, if_pos rfl] at h
    split_ifs at h
    cases h
    rfl

/-- A terminator written into a string leaves the string in front of it, and the one behind it. -/
theorem cstr_set {buf a d : List Char} {x : Char} {o : ℕ} (h : cstr buf o = a ++ x :: d) :
    cstr (buf.set (o + a.length) nul) o = a ∧ cstr (buf.set (o + a.length) nul) (o + a.length + 1) = d := by
  have hnul : ∀ c ∈ a ++ x :: d, c ≠ nul := h ▸ cstr_ne_nul buf o
  have hend : ∀ c ∈ ((buf.drop o).dropWhile (· ≠ nul)).head?, c = nul := by
    intro c hc
    have hhead := List.head?_dropWhile_not (· ≠ nul) (buf.drop o)
    rw [Option.mem_def.mp hc] at hhead
    simpa using hhead
  have hdrop : buf.drop o = a ++ x :: (d ++ (buf.drop o).dropWhile (· ≠ nul)) := by
    conv_lhs => rw [← List.takeWhile_append_dropWhile (p := (· ≠ nul)) (l := buf.drop o)]
    rw [show (buf.drop o).takeWhile (· ≠ nul) = a ++ x :: d from h, List.append_assoc, List.cons_append]
  generalize (buf.drop o).dropWhile (· ≠ nul) = r at hend hdrop
  have hlen : (buf.take o).length = o := by
    rw [List.length_take, Nat.min_eq_left]
    by_contra hlt
    rw [List.drop_eq_nil_of_le (by omega)] at hdrop
    exact absurd hdrop (by simp)
  have hbuf : buf = buf.take o ++ a ++ x :: (d ++ r) := by
    conv_lhs => rw [← List.take_append_drop o buf, hdrop]
    rw [List.append_assoc]
  generalize buf.take o = p at hlen hbuf
  have hset := set_eq hbuf (o := o + a.length) (by rw [List.length_append, hlen])
  rw [hset]
  constructor
  · exact cstr_eq (p := p) (r := d ++ r) (by rw [List.append_assoc]) hlen.symm
      fun c hc => hnul c (List.mem_append_left _ hc)
  · have hd := cstr_end (p := p ++ a ++ [nul]) (f := d) (r := r)
      (fun c hc => hnul c (List.mem_append_right _ (List.mem_cons_of_mem _ hc))) hend
    have hp : (p ++ a ++ [nul]).length = o + a.length + 1 := by
      rw [List.length_append, List.length_append, hlen, List.length_singleton]
    rw [hp] at hd
    rw [show p ++ a ++ nul :: (d ++ r) = p ++ a ++ [nul] ++ (d ++ r) by simp]
    exact hd

/-- What `delimSepMaxDelim` makes of the user and its data. -/
theorem sepUser_str (hfive : v.message.length = 5) (hptr : v.ptr 4 = none) (hrest : v.str 3 = some rest) :
    v.sepUser.str 3 = some (rest.takeWhile (· ≠ ',')) ∧
      v.sepUser.str 4 = if ',' ∈ rest then some (rest.drop (rest.idxOf ',' + 1)) else none := by
  obtain ⟨o, ho, hstr⟩ := Option.map_eq_some_iff.mp hrest
  rw [ConnBuf.sepUser, ho]
  simp only
  rw [hstr]
  by_cases hcomma : ',' ∈ rest
  · obtain ⟨hsplit, hix⟩ := split_at_first ',' hcomma
    obtain ⟨hfront, hback⟩ := cstr_set (hstr.trans hsplit)
    rw [if_pos hcomma, if_pos hcomma, hix] at *
    have hptr₃ : ConnBuf.ptr ⟨v.clientMessage.set (o + (rest.takeWhile (· ≠ ',')).length) nul,
        v.message.set 4 (some (o + (rest.takeWhile (· ≠ ',')).length + 1))⟩ 3 = some o := by
      rw [← ho, ConnBuf.ptr, ConnBuf.ptr]
      simp only
      rw [List.getElem?_set_ne (by decide)]
    have hptr₄ : ConnBuf.ptr ⟨v.clientMessage.set (o + (rest.takeWhile (· ≠ ',')).length) nul,
        v.message.set 4 (some (o + (rest.takeWhile (· ≠ ',')).length + 1))⟩ 4 =
          some (o + (rest.takeWhile (· ≠ ',')).length + 1) := by
      rw [ConnBuf.ptr]
      simp only
      rw [List.getElem?_set_self (by omega)]
      rfl
    rw [ConnBuf.str, ConnBuf.str, hptr₃, hptr₄, Option.map_some, Option.map_some]
    exact ⟨congrArg some hfront, congrArg some hback⟩
  · have hall : ∀ c ∈ rest, (decide (c ≠ ',')) = true := fun c hc => by
      simpa using fun h : c = ',' => hcomma (h ▸ hc)
    rw [if_neg hcomma, if_neg hcomma, List.takeWhile_eq_self_iff.mpr hall, ConnBuf.str, ConnBuf.str, ho,
      hptr, Option.map_some, hstr]
    exact ⟨rfl, rfl⟩

theorem sepUser_ptr (v : ConnBuf) {i : ℕ} (hi : i ≠ 4) : v.sepUser.ptr i = v.ptr i := by
  rw [ConnBuf.sepUser]
  cases v.ptr 3 with
  | none => rfl
  | some o =>
    simp only
    split_ifs
    · rw [ConnBuf.ptr, ConnBuf.ptr]
      simp only
      rw [List.getElem?_set_ne hi.symm]
    · rfl

theorem isSome_ptr {w : ConnBuf} {i : ℕ} {str : CStr} (h : w.str i = some str) : (w.ptr i).isSome := by
  obtain ⟨o, ho, -⟩ := Option.map_eq_some_iff.mp h
  rw [ho]
  rfl

/-- A command is queued with the data of a valid user. -/
theorem Sends.accept (h : Sends v messageLen rest) (hfive : v.message.length = 5) (hptr : v.ptr 4 = none) :
    ∃ transID userCmd userID, v.accept messageLen = some (v.sepUser, .command transID userCmd userID
      (if ',' ∈ rest then some (rest.drop (rest.idxOf ',' + 1)) else none)) := by
  obtain ⟨hstr₃, hstr₄⟩ := sepUser_str hfive hptr h.str
  obtain ⟨o₁, ho₁⟩ := Option.isSome_iff_exists.mp h.transID
  obtain ⟨o₂, ho₂⟩ := Option.isSome_iff_exists.mp h.userCmd
  have hstr₁ : v.str 1 = some (cstr v.clientMessage o₁) := by rw [ConnBuf.str, ho₁]; rfl
  have hsep₁ : v.sepUser.str 1 = some (cstr v.sepUser.clientMessage o₁) := by
    rw [ConnBuf.str, sepUser_ptr v (by decide), ho₁]; rfl
  have hsep₂ : v.sepUser.str 2 = some (cstr v.sepUser.clientMessage o₂) := by
    rw [ConnBuf.str, sepUser_ptr v (by decide), ho₂]; rfl
  have hpath : ∀ userCmd : CStr, ¬ (userCmd = "DUMPLOG".toList ∧ ((rest.takeWhile (· ≠ ',')).head? = some '.' ∨
      (rest.takeWhile (· ≠ ',')).head? = some '/')) := by
    rintro userCmd ⟨-, hhead⟩
    have hall := h.valid
    simp only [validUserID, Bool.and_eq_true, List.all_eq_true] at hall
    rcases hhead with hhead | hhead
    · exact absurd (hall.2 _ (List.mem_of_mem_head? hhead)) (by decide)
    · exact absurd (hall.2 _ (List.mem_of_mem_head? hhead)) (by decide)
  refine ⟨cstr v.sepUser.clientMessage o₁, cstr v.sepUser.clientMessage o₂, ⟨_, h.valid⟩, ?_⟩
  rw [ConnBuf.accept, if_neg (by have := h.len; omega), h.tag, hstr₁]
  simp only
  rw [if_neg (by decide), if_pos trivial, hsep₁, hsep₂]
  simp only
  rw [hstr₃]
  simp only
  rw [if_neg (hpath _), dif_pos h.valid, hstr₄]

theorem sends_of_accept {b' : ConnBuf} {transID userCmd : CStr} {userID : UserID} {comm : Option CStr}
    (h : v.accept messageLen = some (b', .command transID userCmd userID comm))
    (hfive : v.message.length = 5) (hptr : messageLen = 4 ∨ messageLen = 2 → v.ptr 4 = none) :
    ∃ rest, Sends v messageLen rest ∧
      comm = if ',' ∈ rest then some (rest.drop (rest.idxOf ',' + 1)) else none := by
  rw [ConnBuf.accept] at h
  by_cases hlen : messageLen ≠ 4 ∧ messageLen ≠ 2
  · rw [if_pos hlen] at h
    simp at h
  have hlen' : messageLen = 4 ∨ messageLen = 2 := by omega
  rw [if_neg hlen] at h
  cases h₀ : v.str 0 with
  | none => simp [h₀] at h
  | some internalCmd =>
  cases h₁ : v.str 1 with
  | none => simp [h₀, h₁] at h
  | some x =>
  rw [h₀, h₁] at h
  simp only at h
  by_cases husr : internalCmd = "USR".toList
  · rw [if_pos husr] at h
    simp at h
  by_cases hwsc : internalCmd = "WSC".toList
  swap
  · rw [if_neg husr, if_neg hwsc] at h
    simp at h
  rw [if_neg husr, if_pos hwsc] at h
  cases hs₁ : v.sepUser.str 1 with
  | none => simp [hs₁] at h
  | some t =>
  cases hs₂ : v.sepUser.str 2 with
  | none => simp [hs₁, hs₂] at h
  | some cmd =>
  rw [hs₁, hs₂] at h
  simp only at h
  have hptr₂ : (v.ptr 2).isSome := sepUser_ptr v (i := 2) (by decide) ▸ isSome_ptr hs₂
  cases h₃ : v.str 3 with
  | none =>
    have hnone : v.sepUser.str 3 = none := by
      rw [ConnBuf.str, sepUser_ptr v (by decide)]
      rw [ConnBuf.str, Option.map_eq_none_iff] at h₃
      rw [h₃]
      rfl
    rw [hnone] at h
    simp only at h
    split_ifs at h
    simp at h
  | some rest =>
    obtain ⟨hstr₃, hstr₄⟩ := sepUser_str hfive (hptr hlen') h₃
    rw [hstr₃] at h
    simp only at h
    by_cases hpath : cmd = "DUMPLOG".toList ∧ ((rest.takeWhile (· ≠ ',')).head? = some '.' ∨
        (rest.takeWhile (· ≠ ',')).head? = some '/')
    · rw [if_pos hpath] at h
      simp at h
    rw [if_neg hpath] at h
    by_cases hvalid : validUserID (rest.takeWhile (· ≠ ',')) = true
    · rw [dif_pos hvalid, hstr₄] at h
      simp only [Option.some.injEq, Prod.mk.injEq, ClientCmd.command.injEq] at h
      exact ⟨rest, ⟨hlen', hwsc ▸ h₀, isSome_ptr h₁, hptr₂, h₃, hvalid⟩, h.2.2.2.2.symm⟩
    · rw [dif_neg hvalid] at h
      simp at h

/-- A user's data has a comma less than the string it is taken from. -/
theorem count_drop (hcomma : ',' ∈ rest) :
    rest.count ',' = (rest.drop (rest.idxOf ',' + 1)).count ',' + 1 := by
  obtain ⟨hsplit, -⟩ := split_at_first ',' hcomma
  have hnone : (rest.takeWhile (· ≠ ',')).count ',' = 0 := by
    rw [List.count_eq_zero]
    intro h
    simpa using List.all_eq_true.mp List.all_takeWhile _ h
  conv_lhs => rw [hsplit, List.count_append, hnone, List.count_cons_self, Nat.zero_add]

theorem data_iff (hfive : b.message.length = 5) :
    (∀ b' transID userCmd userID comm,
      b.receive bytes = some (b', .command transID userCmd userID comm) →
        ∀ i ∈ sepSlots comm ',', i < 2) ↔
    ∀ v messageLen rest, b.read bytes = some (v, messageLen) → Sends v messageLen rest →
      rest.count ',' ≤ 2 := by
  constructor
  · intro h v messageLen rest hread hsends
    obtain ⟨transID, userCmd, userID, haccept⟩ :=
      hsends.accept (ConnBuf.read_length hfive hread) (read_ptr hread hsends.len)
    have hdata := h v.sepUser transID userCmd userID _ (by rw [ConnBuf.receive, hread]; exact haccept)
    by_cases hcomma : ',' ∈ rest
    · rw [if_pos hcomma, sepSlots_iff _ _ (by decide)] at hdata
      have hcount := count_drop hcomma
      omega
    · rw [List.count_eq_zero.mpr hcomma]
      exact Nat.zero_le 2
  · intro h b' transID userCmd userID comm hreceive
    obtain ⟨⟨v, messageLen⟩, hread, haccept⟩ := Option.bind_eq_some_iff.mp hreceive
    obtain ⟨rest, hsends, rfl⟩ :=
      sends_of_accept haccept (ConnBuf.read_length hfive hread) fun hlen => read_ptr hread hlen
    have hcount := h v messageLen rest hread hsends
    by_cases hcomma : ',' ∈ rest
    · rw [if_pos hcomma, sepSlots_iff _ _ (by decide)]
      have hdrop := count_drop hcomma
      omega
    · rw [if_neg hcomma]
      exact fun i hi => absurd hi List.not_mem_nil

end Data

/-- What a message makes the handlers use is in bounds exactly under the condition. -/
theorem inBounds_iff {mem : ℤ → Char} {b : ConnBuf} {bytes : List Char} (hmem : Holds mem bytes)
    (hfive : b.message.length = 5) (hpos : 1 ≤ bytes.length) (hlen : bytes.length ≤ 200) :
    InBounds mem b bytes ↔ Room b bytes := by
  have hne : bytes ≠ [] := List.length_pos_iff.mp hpos
  have htrim := trim_iff hmem hne hlen
  have htext : bytes ∉ empties → text mem bytes.length = cstr (trim bytes) 0 := fun h =>
    (trimIndices_eq hmem (mt (mem_empties_iff hne).mpr h)).2
  constructor
  · intro h
    obtain ⟨hleft, hfull⟩ := htrim.mp h.buffer
    have hfields := h.fields
    rw [htext hleft, sepSlots_iff _ _ (by decide)] at hfields
    exact ⟨hleft, hfull, by omega, (data_iff hfive).mp h.data⟩
  · intro h
    have hfields := h.fields
    refine ⟨htrim.mpr ⟨h.left, h.full⟩, ?_, fun str => maxSlots_lt str ',', (data_iff hfive).mpr h.data⟩
    rw [htext h.left, sepSlots_iff _ _ (by decide)]
    omega

/-- A buffer that has only the message. -/
def memOf (bytes : List Char) (i : ℤ) : Char := (bytes[i.toNat]?).getD nul

theorem holds_memOf (bytes : List Char) : Holds (memOf bytes) bytes := by
  intro i c hc
  rw [memOf, Int.toNat_natCast, hc, Option.getD_some]

def addMessage : List Char := "WSC|1|ADD|aaaaaaaaaa,1.00".toList

theorem inBounds_addMessage : InBounds (memOf addMessage) (ConnBuf.init []) addMessage := by
  refine (inBounds_iff (holds_memOf _) rfl (by decide) (by decide)).mpr
    ⟨by decide, by decide, by decide, fun v messageLen rest hread hsends => ?_⟩
  have hrest : ((ConnBuf.init []).read addMessage).bind (fun r => r.1.str 3) =
      some "aaaaaaaaaa,1.00".toList := by decide
  rw [hread, Option.bind_some, hsends.str, Option.some.injEq] at hrest
  rw [hrest]
  decide

/-- Five delimiters and nothing else have a sixth slot written. -/
theorem sixFields : ¬ ∀ (mem : ℤ → Char) (b : ConnBuf) (bytes : List Char), Holds mem bytes →
    b.message.length = 5 → 1 ≤ bytes.length → bytes.length ≤ 200 → InBounds mem b bytes := by
  intro h
  have hfields := (h (memOf "|||||".toList) (ConnBuf.init []) "|||||".toList (holds_memOf _) rfl (by decide)
    (by decide)).fields
  have htext : text (memOf "|||||".toList) ("|||||".toList.length : ℕ) = "|||||".toList := by decide
  rw [htext] at hfields
  exact absurd (hfields 5 (by decide)) (by decide)

end TradeC.Bounds
