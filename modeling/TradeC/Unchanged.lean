import TradeC.Lines
import TradeC.Lib.Run

/-! A line reaches the server unchanged, whatever lines came before it.

    `main` takes each line apart in one buffer, with one array of four pointers for all lines, of which
    it resets the last only. A line that is well formed sets every pointer that it uses. -/

namespace TradeC.Workload
open Run

/-- What `fgets(op, 100, wl)` reads up to the end of the file, one time after the other; `read` is what
    this time has read so far. -/
def fgets : List Char → CStr → List CStr
  | [], read => if read = [] then [] else [read]
  | c :: file, read =>
    if c = '\n' ∨ read.length + 2 = 100 then (read ++ [c]) :: fgets file []
    else fgets file (read ++ [c])

/-- `op`, and where the pointers of `messageSep` point to in it. -/
structure OpBuf where
  op : List Char
  messageSep : List (Option ℕ)

namespace OpBuf
variable (b : OpBuf)

/-- The buffer as `malloc` gives it, and the pointers as `calloc` does. -/
def init (garbage : List Char) : OpBuf := ⟨garbage, List.replicate 4 none⟩

def ptr (i : ℕ) : Option ℕ := (b.messageSep[i]?).join

/-- `messageSep[i]` as a string. -/
def str (i : ℕ) : Option CStr := (b.ptr i).map (cstr b.op)

/-- `delimSepNoCpy(in, messageSep + k, delim)`: a NUL goes in front of each field but the first. -/
def sep (b : OpBuf) (source : Option ℕ) (k : ℕ) (delim : Char) : OpBuf :=
  match source with
  | none => b
  | some o =>
    let starts := offsets (delimSepNoCpy (cstr b.op o) delim) o
    ⟨starts.tail.foldl (fun op p => op.set (p - 1) nul) b.op,
      b.messageSep.take k ++ starts.map some ++ b.messageSep.drop (k + starts.length)⟩

/-- The body of the loop of `main`, for what `fgets` has read; no result where NULL would be used. -/
def readOp (b : OpBuf) (line : CStr) (transID : ℤ) : Option (OpBuf × Fin NUM_THREADS × CStr) :=
  let op := line ++ nul :: b.op.drop (line.length + 1)
  let messageLen := (dropEnd ' ' (dropEnd '\n' (cstr op 0))).length
  let b : OpBuf := ⟨op.set messageLen nul, b.messageSep.set 3 none⟩
  let b := b.sep (some 0) 0 ' '
  let b := b.sep (b.ptr 1) 1 ','
  match b.str 1, b.str 2 with
  | some userCmd, some userID => some (b, userSort userID, message transID userCmd userID (b.str 3))
  | _, _ => none

/-- A turn of the loop, with `transID`. -/
def turn (s : OpBuf × ℤ) (line : CStr) : Option (OpBuf × ℤ) :=
  (s.1.readOp line s.2).map fun r => (r.1, wrap64 (s.2 + 1))

end OpBuf

/-! ### Fields in a buffer -/

/-- A NUL in front of each field but the first. -/
theorem foldl_set (delim : Char) (r : List Char) : ∀ (fs : List CStr) (f : CStr) (p : List Char),
    (offsets (f :: fs) p.length).tail.foldl (fun op q => op.set (q - 1) nul)
      (p ++ [delim].intercalate (f :: fs) ++ r) = p ++ [nul].intercalate (f :: fs) ++ r := by
  intro fs
  induction fs with
  | nil =>
    intro f p
    simp [offsets]
  | cons g fs ih =>
    intro f p
    have hset : (p ++ [delim].intercalate (f :: g :: fs) ++ r).set (p.length + f.length) nul =
        p ++ f ++ [nul] ++ [delim].intercalate (g :: fs) ++ r := by
      rw [set_eq (p := p ++ f) (x := delim) (r := [delim].intercalate (g :: fs) ++ r)
        (by simp [List.intercalate]) (by simp)]
      simp
    have ih := ih g (p ++ f ++ [nul])
    rw [List.length_append, List.length_append, List.length_singleton] at ih
    rw [offsets, List.tail_cons, offsets, List.foldl_cons, Nat.add_sub_cancel, hset]
    rw [offsets, List.tail_cons] at ih
    rw [ih]
    simp [List.intercalate]

/-- A string that stands in the buffer is taken apart into its fields. -/
theorem OpBuf.sep_eq {b : OpBuf} {o : ℕ} {delim : Char} {p r : List Char} (f : CStr)
    (fs : List CStr) (k : ℕ) (hop : b.op = p ++ [delim].intercalate (f :: fs) ++ nul :: r) (ho : o = p.length)
    (hsep : delimSepNoCpy ([delim].intercalate (f :: fs)) delim = f :: fs)
    (hnul : ∀ c ∈ [delim].intercalate (f :: fs), c ≠ nul) :
    b.sep (some o) k delim = ⟨p ++ [nul].intercalate (f :: fs) ++ nul :: r,
      b.messageSep.take k ++ (offsets (f :: fs) p.length).map some ++
        b.messageSep.drop (k + (f :: fs).length)⟩ := by
  have hstr : cstr b.op o = [delim].intercalate (f :: fs) :=
    cstr_eq (r := r) (by rw [hop, List.append_assoc]) ho hnul
  unfold OpBuf.sep
  simp only
  rw [hstr, hsep, ho, hop, foldl_set, length_offsets]

/-! ### A line in the buffer of `main` -/

namespace Line
variable (l : Line)

theorem text_ne_nul : ∀ c ∈ l.text, c ≠ nul := by
  intro c hc
  simp only [text, List.mem_append, List.mem_cons] at hc
  rcases hc with (hc | rfl | hc) | hc
  · exact (l.plain_tag c hc).2.2.2.2
  · decide
  · exact (l.plain_body c hc).2.2.2.2
  · have hends := l.ends
    simp only [List.mem_cons, List.not_mem_nil, or_false] at hends
    rcases hends with h | h | h | h <;> rw [h] at hc <;> simp at hc
    · rw [hc]; decide
    · rw [hc]; decide
    · rcases hc with rfl | rfl <;> decide

/-- The line, cut off after its last field. -/
theorem trimmed (r : List Char) : ∃ r', (l.text ++ nul :: r).set (l.tag ++ ' ' :: l.body).length nul =
    l.tag ++ ' ' :: l.body ++ nul :: r' := by
  obtain ⟨x, r', hx⟩ : ∃ x r', l.ending ++ nul :: r = x :: r' := by
    cases l.ending with
    | nil => exact ⟨_, _, rfl⟩
    | cons x xs => exact ⟨_, _, rfl⟩
  have hsplit : l.text ++ nul :: r = l.tag ++ ' ' :: l.body ++ x :: r' := by
    rw [text, List.append_assoc, hx]
  exact ⟨r', set_eq hsplit rfl⟩

theorem body_eq : l.body = [','].intercalate (l.userCmd :: l.userID :: l.data.toList) := by
  cases hd : l.data <;> simp [body, rest, hd, List.intercalate]

theorem fields_ne_nul : ∀ f ∈ l.userCmd :: l.userID :: l.data.toList, ∀ c ∈ f, c ≠ nul := by
  intro f hf c hc
  rcases List.mem_cons.mp hf with rfl | hf
  · exact (l.plain_userCmd c hc).1.2.2.2.2
  · rcases List.mem_cons.mp hf with rfl | hf
    · exact (l.plain_userID c hc).1.2.2.2.2
    · exact (l.plain_data f (Option.mem_toList.mp hf) c hc).2.2.2.2

/-- The number and the rest, with the pointers that `main` had to them before. -/
theorem sep_space (r : List Char) (sep : List (Option ℕ)) :
    OpBuf.sep ⟨l.tag ++ ' ' :: l.body ++ nul :: r, sep⟩ (some 0) 0 ' ' =
      ⟨l.tag ++ nul :: l.body ++ nul :: r, some 0 :: some (l.tag.length + 1) :: sep.drop 2⟩ := by
  have hjoin : ∀ c : Char, [c].intercalate [l.tag, l.body] = l.tag ++ c :: l.body := by
    intro c
    simp [List.intercalate]
  have hnul : ∀ c ∈ l.tag ++ ' ' :: l.body, c ≠ nul := by
    intro c hc
    rcases List.mem_append.mp hc with hc | hc
    · exact (l.plain_tag c hc).2.2.2.2
    · rcases List.mem_cons.mp hc with rfl | hc
      · decide
      · exact (l.plain_body c hc).2.2.2.2
  rw [OpBuf.sep_eq (o := 0) (p := []) (r := r) l.tag [l.body] 0 (by rw [hjoin]; rfl) rfl
    (by rw [hjoin, l.sep_text]) (by rw [hjoin]; exact hnul), hjoin]
  simp [offsets]

/-- The fields of the rest. -/
theorem sep_comma (r : List Char) (x : Option ℕ) (sep : List (Option ℕ)) :
    OpBuf.sep ⟨l.tag ++ nul :: l.body ++ nul :: r, x :: sep⟩ (some (l.tag.length + 1)) 1 ',' =
      ⟨l.tag ++ [nul] ++ [nul].intercalate (l.userCmd :: l.userID :: l.data.toList) ++ nul :: r,
        x :: (offsets (l.userCmd :: l.userID :: l.data.toList) (l.tag ++ [nul]).length).map some ++
          sep.drop (l.userCmd :: l.userID :: l.data.toList).length⟩ := by
  rw [OpBuf.sep_eq (p := l.tag ++ [nul]) (r := r) l.userCmd (l.userID :: l.data.toList) 1
    (by simp [body_eq]) (by simp) (by rw [← l.body_eq, l.sep_body])
    (by rw [← l.body_eq]; exact fun c hc => (l.plain_body c hc).2.2.2.2)]
  rw [Nat.add_comm 1, List.drop_succ_cons]
  rfl

end Line

/-- A pointer to a field, after the pointer to what the fields are the rest of. -/
theorem OpBuf.str_field {p r : List Char} {fs : List CStr} (hnul : ∀ f ∈ fs, ∀ c ∈ f, c ≠ nul)
    (x : Option ℕ) (sep : List (Option ℕ)) {i : ℕ} (hi : i < fs.length) :
    OpBuf.str ⟨p ++ [nul].intercalate fs ++ nul :: r, x :: (offsets fs p.length).map some ++ sep⟩ (i + 1) =
      fs[i]? := by
  have hptr : OpBuf.ptr ⟨p ++ [nul].intercalate fs ++ nul :: r, x :: (offsets fs p.length).map some ++ sep⟩
      (i + 1) = (((offsets fs p.length).map some ++ sep)[i]?).join := by
    rw [OpBuf.ptr]
    simp only
    rw [List.cons_append, List.getElem?_cons_succ]
  rw [OpBuf.str, hptr]
  exact cstr_field (by simp) hnul sep hi

namespace Line
variable (l : Line)

/-- `main` takes a line apart in whatever earlier lines have left. -/
theorem readOp_text (b : OpBuf) (transID : ℤ) : ∃ b',
    b.readOp l.text transID = some (b', userSort l.userID, l.bytes transID) := by
  obtain ⟨r, hr⟩ := l.trimmed (b.op.drop (l.text.length + 1))
  have htext : cstr (l.text ++ nul :: b.op.drop (l.text.length + 1)) 0 = l.text :=
    cstr_eq (p := []) rfl rfl l.text_ne_nul
  have hfield := @OpBuf.str_field (l.tag ++ [nul]) r _ l.fields_ne_nul (some 0)
    ((some (l.tag.length + 1) :: (b.messageSep.set 3 none).drop 2).drop
      (l.userCmd :: l.userID :: l.data.toList).length)
  unfold OpBuf.readOp
  simp only
  rw [htext, l.trim_text, hr, l.sep_space]
  have hptr : OpBuf.ptr ⟨l.tag ++ nul :: l.body ++ nul :: r,
      some 0 :: some (l.tag.length + 1) :: (b.messageSep.set 3 none).drop 2⟩ 1 = some (l.tag.length + 1) := rfl
  have hdata : OpBuf.str ⟨l.tag ++ [nul] ++ [nul].intercalate (l.userCmd :: l.userID :: l.data.toList) ++ nul :: r,
      some 0 :: (offsets (l.userCmd :: l.userID :: l.data.toList) (l.tag ++ [nul]).length).map some ++
        (some (l.tag.length + 1) :: (b.messageSep.set 3 none).drop 2).drop
          (l.userCmd :: l.userID :: l.data.toList).length⟩ 3 = l.data := by
    cases hd : l.data with
    | some d =>
      rw [hd] at hfield
      exact hfield (i := 2) (by simp)
    | none =>
      -- the one pointer that is reset
      have hreset : ((b.messageSep.set 3 none)[3]?).join = none := by
        rw [List.getElem?_set, if_pos rfl]
        split_ifs <;> rfl
      rw [OpBuf.str, OpBuf.ptr]
      simp only [offsets, Option.toList_none, List.map_cons, List.map_nil, List.length_cons,
        List.length_nil, List.cons_append, List.nil_append, List.getElem?_cons_succ, List.drop_succ_cons,
        List.getElem?_drop]
      rw [hreset]
      rfl
  rw [hptr, l.sep_comma]
  rw [hfield (i := 0) (by simp), hfield (i := 1) (by simp), hdata]
  exact ⟨_, rfl⟩

end Line

/-! ### The lines before it -/

/-- Lines as they stand in a file. -/
def lines (ls : List CStr) : List Char := ls.flatMap (· ++ ['\n'])

/-- A line starts with a call of its own. -/
theorem fgets_line (file : List Char) : ∀ (s read : CStr), '\n' ∉ s →
    fgets (s ++ '\n' :: file) read = fgets (s ++ ['\n']) read ++ fgets file [] := by
  intro s
  induction s with
  | nil =>
    intro read _
    simp [fgets]
  | cons c s ih =>
    intro read h
    have hs : '\n' ∉ s := fun hmem => h (List.mem_cons_of_mem _ hmem)
    rw [List.cons_append, List.cons_append, fgets, fgets]
    split_ifs
    · rw [ih [] hs, List.cons_append]
    · exact ih (read ++ [c]) hs

/-- A line is read at once if it is short, -/
theorem fgets_short : ∀ (s read : CStr), '\n' ∉ s → read.length + s.length ≤ 98 →
    fgets (s ++ ['\n']) read = [read ++ s ++ ['\n']] := by
  intro s
  induction s with
  | nil =>
    intro read _ _
    simp [fgets]
  | cons c s ih =>
    intro read hs hlen
    rw [List.length_cons] at hlen
    rw [List.cons_append, fgets, if_neg, ih _ (fun h => hs (List.mem_cons_of_mem _ h))]
    · simp
    · rw [List.length_append, List.length_singleton]
      omega
    · rintro (rfl | h)
      · exact hs List.mem_cons_self
      · omega

/-- The last line need not end. -/
theorem fgets_last : ∀ s read : CStr, '\n' ∉ s → read ++ s ≠ [] → read.length + s.length ≤ 99 →
    fgets s read = [read ++ s] := by
  intro s
  induction s with
  | nil =>
    intro read _ hne _
    rw [List.append_nil] at hne
    rw [fgets, if_neg hne, List.append_nil]
  | cons c s ih =>
    intro read hs _ hlen
    have hc : c ≠ '\n' := fun h => hs (h ▸ List.mem_cons_self)
    rw [List.length_cons] at hlen
    rw [fgets]
    by_cases hfull : read.length + 2 = 100
    · obtain rfl : s = [] := List.eq_nil_of_length_eq_zero (by omega)
      rw [if_pos (Or.inr hfull), fgets, if_pos rfl]
    · rw [if_neg (not_or.mpr ⟨hc, hfull⟩),
        ih _ (fun h => hs (List.mem_cons_of_mem _ h)) (by simp) (by simp; omega)]
      simp

theorem fgets_ne_nil : ∀ s read : CStr, 1 ≤ (fgets (s ++ ['\n']) read).length := by
  intro s
  induction s with
  | nil =>
    intro read
    simp [fgets]
  | cons c s ih =>
    intro read
    rw [List.cons_append, fgets]
    split_ifs
    · exact Nat.succ_le_succ (Nat.zero_le _)
    · exact ih _

/-- and in more than one piece if it is not. -/
theorem fgets_long : ∀ s read : CStr, read.length ≤ 98 → 98 < read.length + s.length →
    2 ≤ (fgets (s ++ ['\n']) read).length := by
  intro s
  induction s with
  | nil =>
    intro read hread hlen
    rw [List.length_nil] at hlen
    omega
  | cons c s ih =>
    intro read hread hlen
    rw [List.length_cons] at hlen
    rw [List.cons_append, fgets]
    split_ifs with hc
    · exact Nat.succ_le_succ (fgets_ne_nil s [])
    · have hroom : (read ++ [c]).length ≤ 98 := by
        rw [List.length_append, List.length_singleton]
        have hfull : ¬ read.length + 2 = 100 := fun h => hc (Or.inr h)
        omega
      refine ih _ hroom ?_
      rw [List.length_append, List.length_singleton]
      omega

/-- No call reads nothing. -/
theorem length_fgets_le : ∀ file read : List Char,
    (fgets file read).length ≤ file.length + if read = [] then 0 else 1 := by
  intro file
  induction file with
  | nil =>
    intro read
    rw [fgets]
    split_ifs <;> simp
  | cons c file ih =>
    intro read
    rw [fgets]
    by_cases hc : c = '\n' ∨ read.length + 2 = 100
    · have ih := ih []
      rw [if_pos rfl] at ih
      rw [if_pos hc, List.length_cons, List.length_cons]
      omega
    · rw [if_neg hc]
      have ih := ih (read ++ [c])
      rw [if_neg (by simp)] at ih
      exact ih.trans (Nat.le_add_right _ _)

section
variable {ls : List CStr} (hls : ∀ s ∈ ls, '\n' ∉ s)
include hls

theorem fgets_lines (file : List Char) :
    fgets (lines ls ++ file) [] = fgets (lines ls) [] ++ fgets file [] := by
  induction ls with
  | nil => rfl
  | cons s ls ih =>
    have hs := hls s List.mem_cons_self
    have ih := ih fun t ht => hls t (List.mem_cons_of_mem _ ht)
    have hcons : ∀ file', lines (s :: ls) ++ file' = s ++ '\n' :: (lines ls ++ file') := by
      intro file'
      simp [lines]
    have hself := hcons []
    rw [List.append_nil, List.append_nil] at hself
    rw [hcons, hself, fgets_line (lines ls ++ file) s [] hs, ih, fgets_line (lines ls) s [] hs,
      List.append_assoc]

/-- The calls are as many as the lines where all lines are short. -/
theorem length_fgets_lines : ls.length ≤ (fgets (lines ls) []).length ∧
    ((fgets (lines ls) []).length = ls.length ↔ ∀ s ∈ ls, s.length ≤ 98) := by
  induction ls with
  | nil => exact ⟨le_rfl, by simp [lines, fgets]⟩
  | cons s ls ih =>
    have hs := hls s List.mem_cons_self
    obtain ⟨hle, hiff⟩ := ih fun t ht => hls t (List.mem_cons_of_mem _ ht)
    have hone := fgets_ne_nil s []
    have hcons : lines (s :: ls) = s ++ '\n' :: lines ls := by simp [lines]
    rw [hcons, fgets_line _ s [] hs, List.length_append, List.length_cons, List.forall_mem_cons, ← hiff]
    refine ⟨by omega, ?_, ?_⟩
    · intro heq
      refine ⟨?_, by omega⟩
      by_contra hlong
      have hlong := fgets_long s [] (Nat.zero_le _) (by rw [List.length_nil]; omega)
      omega
    · rintro ⟨hshort, heq⟩
      have hshort := fgets_short s [] hs (by rw [List.length_nil]; omega)
      rw [hshort, heq, List.length_singleton]
      omega

end

/-- The number is that of the call. -/
theorem exec_turn {ls : List CStr} {s s' : OpBuf × ℤ} {x : ℤ} (hx : s.2 = wrap64 x)
    (h : exec OpBuf.turn s ls = some s') : s'.2 = wrap64 (x + ls.length) := by
  induction ls generalizing s x with
  | nil =>
    rw [exec_nil, Option.some.injEq] at h
    rw [← h, hx, List.length_nil, Nat.cast_zero, add_zero]
  | cons l ls ih =>
    obtain ⟨t, hturn, hrest⟩ := exec_cons_some h
    obtain ⟨r, -, rfl⟩ := Option.map_eq_some_iff.mp hturn
    have hnext : wrap64 (s.2 + 1) = wrap64 (x + 1) := by rw [hx, wrap64_wrap64_add]
    rw [ih hnext hrest, List.length_cons, Nat.cast_add_one, add_assoc, add_comm (1 : ℤ)]

/-- A line of a file, of which there are fewer than 2^63 bytes. -/
structure Place where
  earlier : List CStr
  line : Line
  later : List Char
  whole : ∀ s ∈ earlier, '\n' ∉ s
  last : later = [] ∨ '\n' ∈ line.ending
  size : (lines earlier ++ line.text ++ later).length < 2 ^ 63

namespace Place
variable (p : Place)

def file : List Char := lines p.earlier ++ p.line.text ++ p.later

/-- The line is read at once. -/
theorem fgets_text : fgets (p.line.text ++ p.later) [] = p.line.text :: fgets p.later [] := by
  have hfields : '\n' ∉ p.line.tag ++ ' ' :: p.line.body := by
    intro h
    rcases List.mem_append.mp h with h | h
    · exact (p.line.plain_tag _ h).2.2.1 rfl
    · rcases List.mem_cons.mp h with h | h
      · exact absurd h (by decide)
      · exact (p.line.plain_body _ h).2.2.1 rfl
  have hshort : (p.line.tag ++ ' ' :: p.line.body ++ p.line.ending).length ≤ 99 := p.line.short
  have hends := p.line.ends
  -- where the line ends, it does with the newline
  have hending : '\n' ∉ p.line.ending ∨ ∃ e, '\n' ∉ e ∧ p.line.ending = e ++ ['\n'] := by
    simp only [List.mem_cons, List.not_mem_nil, or_false] at hends
    rcases hends with h | h | h | h <;> rw [h]
    · exact Or.inl (by decide)
    · exact Or.inr ⟨[], by decide, rfl⟩
    · exact Or.inl (by decide)
    · exact Or.inr ⟨[' '], by decide, rfl⟩
  rcases hending with hopen | ⟨e, he, hend⟩
  · have hlater : p.later = [] := p.last.resolve_right hopen
    have hnot : '\n' ∉ p.line.text := by
      rw [Line.text, List.mem_append]
      exact not_or.mpr ⟨hfields, hopen⟩
    rw [hlater, List.append_nil, fgets_last p.line.text [] hnot (by simp [Line.text])
      (by rw [List.length_nil, Nat.zero_add]; exact hshort)]
    rfl
  · have hnot : '\n' ∉ p.line.tag ++ ' ' :: p.line.body ++ e := by
      rw [List.mem_append]
      exact not_or.mpr ⟨hfields, he⟩
    have htext : p.line.text = p.line.tag ++ ' ' :: p.line.body ++ e ++ ['\n'] := by
      rw [Line.text, hend, List.append_assoc _ e]
    rw [hend, ← List.append_assoc, List.length_append, List.length_singleton] at hshort
    rw [htext, List.append_assoc _ ['\n'], List.singleton_append, fgets_line p.later _ [] hnot,
      fgets_short _ [] hnot (by rw [List.length_nil]; omega)]
    rfl

theorem fgets_file : fgets p.file [] = fgets (lines p.earlier) [] ++ p.line.text :: fgets p.later [] := by
  rw [file, List.append_assoc, fgets_lines p.whole, p.fgets_text]

end Place

/-- The server has the line as it stands in the file. The number that it has with it is the number of
    the line where `main` has read each earlier line at once. -/
theorem line_unchanged (p : Place) (garbage : List Char) {s : OpBuf × ℤ}
    (hrun : exec OpBuf.turn (OpBuf.init garbage, 1) (fgets (lines p.earlier) []) = some s)
    {v : ConnBuf} (hv : v.message.length = 5) :
    fgets p.file [] = fgets (lines p.earlier) [] ++ p.line.text :: fgets p.later [] ∧
      ∃ b' bytes v₁ v₂ transID,
        s.1.readOp p.line.text s.2 = some (b', userSort p.line.userID, bytes) ∧
          v.read bytes = some (v₁, 4) ∧ p.line.Split transID v₁ v₂ ∧
          (transID = Nat.toDigits 10 (p.earlier.length + 1) ↔ ∀ e ∈ p.earlier, e.length ≤ 98) := by
  obtain ⟨b', hread⟩ := p.line.readOp_text s.1 s.2
  have hnum := exec_turn (x := 1) (show (1 : ℤ) = wrap64 1 by decide) hrun
  rw [hnum] at hread
  obtain ⟨v₁, v₂, hmessage, hsplit, -⟩ := p.line.split_bytes (1 + (fgets (lines p.earlier) []).length) hv
  refine ⟨p.fgets_file, b', _, v₁, v₂, _, by rw [hnum]; exact hread, hmessage, hsplit, ?_⟩
  obtain ⟨hle, hiff⟩ := length_fgets_lines p.whole
  have hcalls := length_fgets_le (lines p.earlier) []
  have hsize := p.size
  have htext : 0 < p.line.text.length := by simp [Line.text]
  rw [if_pos rfl] at hcalls
  rw [List.length_append, List.length_append] at hsize
  have hfit : wrap64 (1 + (fgets (lines p.earlier) []).length) =
      ((fgets (lines p.earlier) []).length + 1 : ℕ) := by
    rw [(wrap64_eq_iff _).mpr (by omega)]
    push_cast
    exact add_comm _ _
  rw [hfit, ld, if_neg (by omega), Int.natAbs_natCast, ← hiff]
  constructor
  · intro h
    have hval := congrArg (Nat.ofDigitChars 10 · 0) h
    simp only [Nat.ofDigitChars_ten_toDigits] at hval
    exact Nat.succ.inj hval
  · intro h
    rw [h]

theorem plain_buyLine : (∀ c ∈ "[2]".toList, plain c) ∧ (∀ c ∈ "BUY".toList, plain c ∧ c ≠ ',') ∧
    (∀ c ∈ "aaaaaaaaaa".toList, plain c ∧ c ≠ ',') ∧
      ∀ d ∈ some "ABC,10.00".toList, ∀ c ∈ d, plain c := by
  simp [plain, nul]

theorem ends_buyLine : [' ', '\n'] ∈ [[], ['\n'], [' '], [' ', '\n']] := by simp

/-- A line, and a file that has it second. -/
def buyLine : Line where
  tag := "[2]".toList
  userCmd := "BUY".toList
  userID := "aaaaaaaaaa".toList
  data := some "ABC,10.00".toList
  ending := [' ', '\n']
  plain_tag := plain_buyLine.1
  plain_userCmd := plain_buyLine.2.1
  plain_userID := plain_buyLine.2.2.1
  plain_data := plain_buyLine.2.2.2
  ends := ends_buyLine
  short := by decide

def second (first : CStr) (hfirst : '\n' ∉ first ∧ first.length < 1000) : Place where
  earlier := [first]
  line := buyLine
  later := []
  whole := by simpa using hfirst.1
  last := Or.inl rfl
  size := by
    have htext : buyLine.text.length = 30 := by decide
    simp only [lines, List.flatMap_cons, List.flatMap_nil, List.append_nil, List.length_append,
      List.length_singleton, htext]
    omega

def shortFirst : Place := second "[1] ADD,aaaaaaaaaa,100.00".toList (by decide)

def longFirst : Place := second ("[1] ADD,aaaaaaaaaa,".toList ++ List.replicate 90 '1') (by decide)

theorem line_unchanged_short : ∃ s v₁ v₂,
    exec OpBuf.turn (OpBuf.init [], 1) (fgets (lines shortFirst.earlier) []) = some s ∧
      buyLine.Split "2".toList v₁ v₂ := by
  obtain ⟨s, hs⟩ := Option.isSome_iff_exists.mp
    (show (exec OpBuf.turn (OpBuf.init [], 1) (fgets (lines shortFirst.earlier) [])).isSome by decide)
  obtain ⟨-, b', bytes, v₁, v₂, transID, -, -, hsplit, hnum⟩ :=
    line_unchanged shortFirst [] hs (v := ConnBuf.init []) rfl
  have htransID : transID = "2".toList := hnum.mpr (by decide)
  exact ⟨s, v₁, v₂, hs, htransID ▸ hsplit⟩

/-- The line after a line of 109 characters is the third, as `main` counts. -/
theorem longFirst_third : ¬ ∀ (p : Place) garbage s,
    exec OpBuf.turn (OpBuf.init garbage, 1) (fgets (lines p.earlier) []) = some s →
      ∃ b' bytes v₁ v₂, s.1.readOp p.line.text s.2 = some (b', userSort p.line.userID, bytes) ∧
        (ConnBuf.init []).read bytes = some (v₁, 4) ∧
          p.line.Split (Nat.toDigits 10 (p.earlier.length + 1)) v₁ v₂ := by
  intro h
  obtain ⟨s, hs⟩ := Option.isSome_iff_exists.mp
    (show (exec OpBuf.turn (OpBuf.init [], 1) (fgets (lines longFirst.earlier) [])).isSome by decide)
  have hcalls : (fgets (lines longFirst.earlier) []).length = 2 := by decide
  have hnum := exec_turn (x := 1) (show (1 : ℤ) = wrap64 1 by decide) hs
  rw [hcalls] at hnum
  obtain ⟨b', bytes, v₁, v₂, hread, hmessage, hsplit⟩ := h longFirst [] s hs
  obtain ⟨b'', hread'⟩ := longFirst.line.readOp_text s.1 s.2
  rw [hread', Option.some.injEq, Prod.mk.injEq, Prod.mk.injEq] at hread
  obtain ⟨v₁', v₂', hmessage', hsplit', -⟩ :=
    longFirst.line.split_bytes (1 + (2 : ℕ)) (v := ConnBuf.init []) rfl
  rw [← hread.2.2, hnum, hmessage', Option.some.injEq, Prod.mk.injEq] at hmessage
  have haccept := hsplit.accept
  rw [← hmessage.1, hsplit'.accept, Option.some.injEq, Prod.mk.injEq] at haccept
  have htransID := hsplit.transID
  rw [← haccept.1, hsplit'.transID] at htransID
  exact absurd (Option.some.inj htransID) (by decide)

end TradeC.Workload
