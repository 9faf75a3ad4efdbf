import TradeC.Str

/-! The messages of clients, and how `connection_handler` takes them apart in its buffer.

    `recv` writes over the front of `clientMessage`, and the pointers of `message` that a message with
    few fields does not set stay those of an earlier one. A string is read from the buffer where a
    pointer points, up to the next NUL. -/

namespace TradeC

def nul : Char := '\x00'

/-- The string at an offset of a buffer. -/
def cstr (buf : List Char) (o : ℕ) : CStr := (buf.drop o).takeWhile (· ≠ nul)

/-- `if(clientMessage[readSize - 1] == c) readSize--`; of an empty message nothing is taken, where the
    source looks before the buffer. -/
def dropEnd (c : Char) (bytes : List Char) : List Char :=
  if bytes.getLast? = some c then bytes.dropLast else bytes

def trim (bytes : List Char) : List Char :=
  dropEnd ' ' (dropEnd '\r' (dropEnd '\n' (dropEnd nul bytes)))

/-- `clientMessage`, and where the pointers of `message` point to in it. -/
structure ConnBuf where
  clientMessage : List Char
  message : List (Option ℕ)

/-- What `connection_handler` makes of a message. -/
inductive ClientCmd where
  -- a number of fields other than 4 and 2; neither USR nor WSC
  | badLength
  | ignored
  | usr (userID : CStr)
  | dumplog (transID file : CStr)
  -- a user that validUserID refuses
  | badUser (transID userCmd : CStr)
  | command (transID userCmd : CStr) (userID : UserID) (comm : Option CStr)

/-- Where fields start that stand one after the other, with one character between them. -/
def offsets : List CStr → ℕ → List ℕ
  | [], _ => []
  | f :: fs, o => o :: offsets fs (o + f.length + 1)

/-! ### Fields of a string -/

theorem delimLoop_ne_nil (delim : Char) : ∀ s cur : CStr, delimLoop delim s cur ≠ [] := by
  intro s
  induction s with
  | nil =>
    intro cur
    exact List.cons_ne_nil _ _
  | cons c s ih =>
    intro cur
    rw [delimLoop]
    split_ifs
    · exact List.cons_ne_nil _ _
    · exact ih _

theorem intercalate_cons (x : Char) (f : CStr) {fs : List CStr} (hfs : fs ≠ []) :
    [x].intercalate (f :: fs) = f ++ x :: [x].intercalate fs := by
  cases fs with
  | nil => exact absurd rfl hfs
  | cons g fs => simp [List.intercalate]

/-- The NULs stand where the delimiters were. -/
theorem intercalate_delimLoop (delim : Char) : ∀ s cur : CStr, (∀ c ∈ cur, c ≠ delim) →
    [nul].intercalate (delimLoop delim s cur) = (cur ++ s).map fun c => if c = delim then nul else c := by
  intro s
  induction s with
  | nil =>
    intro cur h
    rw [delimLoop, List.append_nil]
    conv_lhs => rw [← List.map_id ([nul].intercalate [cur])]
    rw [show [nul].intercalate [cur] = cur by simp]
    exact (List.map_congr_left fun c hc => if_neg (h c hc)).symm
  | cons c s ih =>
    intro cur h
    have hcur : cur.map (fun c => if c = delim then nul else c) = cur := by
      conv_rhs => rw [← List.map_id cur]
      exact List.map_congr_left fun c hc => if_neg (h c hc)
    rw [delimLoop]
    split_ifs with hc
    · rw [intercalate_cons nul cur (delimLoop_ne_nil delim s []),
        ih [] (fun _ hx => absurd hx List.not_mem_nil), List.nil_append,
        List.map_append, hcur, List.map_cons, if_pos hc]
    · rw [ih (cur ++ [c]), List.append_assoc, List.singleton_append]
      intro x hx
      rcases List.mem_append.mp hx with hx | hx
      · exact h x hx
      · exact List.mem_singleton.mp hx ▸ hc

theorem mem_delimLoop {delim c : Char} : ∀ {s cur f : CStr}, f ∈ delimLoop delim s cur → c ∈ f →
    c ∈ cur ++ s := by
  intro s
  induction s with
  | nil =>
    intro cur f hf hc
    rw [delimLoop, List.mem_singleton] at hf
    rw [List.append_nil, ← hf]
    exact hc
  | cons d s ih =>
    intro cur f hf hc
    rw [delimLoop] at hf
    split_ifs at hf with hd
    · rcases List.mem_cons.mp hf with rfl | hf
      · exact List.mem_append_left _ hc
      · have hmem : c ∈ [] ++ s := ih hf hc
        rw [List.nil_append] at hmem
        exact List.mem_append_right _ (List.mem_cons_of_mem _ hmem)
    · have hmem : c ∈ cur ++ [d] ++ s := ih hf hc
      rwa [List.append_assoc, List.singleton_append] at hmem

theorem length_delimLoop (delim : Char) : ∀ s cur : CStr,
    (delimLoop delim s cur).length = s.count delim + 1 := by
  intro s
  induction s with
  | nil =>
    intro _
    rfl
  | cons c s ih =>
    intro cur
    rw [delimLoop]
    by_cases hc : c = delim
    · rw [if_pos hc, List.length_cons, ih [], hc, List.count_cons_self]
    · rw [if_neg hc, ih (cur ++ [c]), List.count_cons_of_ne hc]

/-- No part has a delimiter. -/
theorem not_mem_delimLoop {delim : Char} : ∀ {s cur f : CStr}, f ∈ delimLoop delim s cur → delim ∉ cur →
    delim ∉ f := by
  intro s
  induction s with
  | nil =>
    intro cur f hf h
    rw [List.mem_singleton.mp hf]
    exact h
  | cons c s ih =>
    intro cur f hf h
    rw [delimLoop] at hf
    by_cases hc : c = delim
    · rw [if_pos hc] at hf
      rcases List.mem_cons.mp hf with rfl | hf
      · exact h
      · exact ih hf List.not_mem_nil
    · rw [if_neg hc] at hf
      refine ih hf fun hmem => ?_
      rcases List.mem_append.mp hmem with hmem | hmem
      · exact h hmem
      · exact hc (List.mem_singleton.mp hmem).symm

/-! ### Strings in a buffer -/

/-- A string goes on up to a NUL or the end of the buffer. -/
theorem cstr_end {p f r : List Char} (hf : ∀ c ∈ f, c ≠ nul) (hr : ∀ c ∈ r.head?, c = nul) :
    cstr (p ++ (f ++ r)) p.length = f := by
  rw [cstr, List.drop_left, List.takeWhile_append_of_pos fun c hc => by simpa using hf c hc]
  cases r with
  | nil => simp
  | cons x r =>
    rw [List.takeWhile_cons_of_neg (by simpa using hr x rfl), List.append_nil]

theorem cstr_eq {buf p f r : List Char} {o : ℕ} (hbuf : buf = p ++ (f ++ nul :: r)) (ho : o = p.length)
    (hf : ∀ c ∈ f, c ≠ nul) : cstr buf o = f := by
  rw [hbuf, ho, cstr_end hf]
  simp

theorem set_eq {buf p r : List Char} {x : Char} {o : ℕ} (hbuf : buf = p ++ x :: r) (ho : o = p.length) :
    buf.set o nul = p ++ nul :: r := by
  rw [hbuf, ho, List.set_append_right _ _ (Nat.le_refl _)]
  simp

theorem length_offsets : ∀ (fs : List CStr) (o : ℕ), (offsets fs o).length = fs.length := by
  intro fs
  induction fs with
  | nil =>
    intro _
    rfl
  | cons _ fs ih =>
    intro _
    exact congrArg (· + 1) (ih _)

/-- The pointers find the fields. -/
theorem map_cstr_offsets {r : List Char} (hr : ∀ c ∈ r.head?, c = nul) : ∀ (fs : List CStr)
    (p : List Char), (∀ f ∈ fs, ∀ c ∈ f, c ≠ nul) →
      (offsets fs p.length).map (cstr (p ++ [nul].intercalate fs ++ r)) = fs
  | [], _, _ => rfl
  | [f], p, h => by
    have hjoin : [nul].intercalate [f] = f := by simp
    rw [offsets, List.map_cons, hjoin, List.append_assoc, cstr_end (h f (by simp)) hr]
    rfl
  | f :: g :: fs, p, h => by
    have ih := map_cstr_offsets hr (g :: fs) (p ++ f ++ [nul]) fun f' hf' =>
      h f' (List.mem_cons_of_mem _ hf')
    rw [List.length_append, List.length_append, List.length_singleton] at ih
    have hbuf : p ++ [nul].intercalate (f :: g :: fs) ++ r =
        p ++ f ++ [nul] ++ [nul].intercalate (g :: fs) ++ r := by
      simp [List.intercalate]
    rw [offsets, List.map_cons, hbuf, ih]
    congr 1
    exact cstr_eq (p := p) (f := f) (r := [nul].intercalate (g :: fs) ++ r) (by simp) rfl
      (h f List.mem_cons_self)

/-- A pointer to a field, whatever the pointers behind those to the fields are. -/
theorem cstr_field {p r : List Char} {fs : List CStr} (hr : ∀ c ∈ r.head?, c = nul)
    (hnul : ∀ f ∈ fs, ∀ c ∈ f, c ≠ nul) (rest : List (Option ℕ)) {i : ℕ} (hi : i < fs.length) :
    ((((offsets fs p.length).map some ++ rest)[i]?).join).map (cstr (p ++ [nul].intercalate fs ++ r)) =
      fs[i]? := by
  have hlen : i < ((offsets fs p.length).map some).length := by
    rw [List.length_map, length_offsets]
    exact hi
  have hptr : (((offsets fs p.length).map some ++ rest)[i]?).join = (offsets fs p.length)[i]? := by
    rw [List.getElem?_append_left hlen, List.getElem?_map]
    cases (offsets fs p.length)[i]? <;> rfl
  rw [hptr]
  conv_rhs => rw [← map_cstr_offsets hr fs p hnul]
  rw [List.getElem?_map]

namespace ConnBuf

/-- `clientMessage` and `message` at the start of a thread. -/
def init (garbage : List Char) : ConnBuf := ⟨garbage, List.replicate 5 none⟩

def ptr (b : ConnBuf) (i : ℕ) : Option ℕ := (b.message[i]?).join

/-- `message[i]` as a string. -/
def str (b : ConnBuf) (i : ℕ) : Option CStr := (b.ptr i).map (cstr b.clientMessage)

/-- From `recv` to the `delimSepNoCpy` at `|`, which gives `messageLen`. There is no result where the NUL
    would be written behind the buffer, or a pointer behind `message`. -/
def read (b : ConnBuf) (bytes : List Char) : Option (ConnBuf × ℕ) :=
  let readSize := (trim bytes).length
  let buf := (bytes ++ b.clientMessage.drop bytes.length).set readSize nul
  let text := cstr buf 0
  let fields := delimSepNoCpy (some text) '|'
  if 200 ≤ readSize ∨ 5 < fields.length then none
  else
    some (⟨text.map (fun c => if c = '|' then nul else c) ++ buf.drop text.length,
      (offsets fields 0).map some ++ (b.message.set 4 none).drop fields.length⟩, fields.length)

/-- `delimSepMaxDelim(message[3], message + 3, ',', 1)`. -/
def sepUser (b : ConnBuf) : ConnBuf :=
  match b.ptr 3 with
  | none => b
  | some o =>
    let s := cstr b.clientMessage o
    if ',' ∈ s then
      ⟨b.clientMessage.set (o + s.idxOf ',') nul, b.message.set 4 (some (o + s.idxOf ',' + 1))⟩
    else b

/-- The rest of the loop's body, up to the queues; no result where NULL would be dereferenced. -/
def accept (b : ConnBuf) (messageLen : ℕ) : Option (ConnBuf × ClientCmd) :=
  if messageLen ≠ 4 ∧ messageLen ≠ 2 then some (b, .badLength)
  else
    match b.str 0, b.str 1 with
    | some internalCmd, some userID =>
      if internalCmd = "USR".toList then some (b, .usr userID)
      else if internalCmd = "WSC".toList then
        let b := b.sepUser
        match b.str 1, b.str 2 with
        | some transID, some userCmd =>
          match b.str 3 with
          | none => if userCmd = "DUMPLOG".toList then none else some (b, .badUser transID userCmd)
          | some file =>
            if userCmd = "DUMPLOG".toList ∧ (file.head? = some '.' ∨ file.head? = some '/') then
              some (b, .dumplog transID file)
            else if h : validUserID file = true then
              some (b, .command transID userCmd ⟨file, h⟩ (b.str 4))
            else some (b, .badUser transID userCmd)
        | _, _ => none
      else some (b, .ignored)
    | _, _ => none

/-- One message of at most 200 bytes. -/
def receive (b : ConnBuf) (bytes : List Char) : Option (ConnBuf × ClientCmd) :=
  (b.read bytes).bind fun (b, messageLen) => b.accept messageLen

end ConnBuf

example : ((ConnBuf.init []).receive "WSC|7|BUY|aaaaaaaaaa,ABC,10.00\r\n".toList).map
    (fun r => match r.2 with | .command t u _ c => (t, u, c) | _ => ([], [], none)) =
      some ("7".toList, "BUY".toList, some "ABC,10.00".toList) := by decide

end TradeC
