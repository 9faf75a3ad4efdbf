import TradeC.Replies
import TradeC.Workload
import TradeC.Lib.Decimal

/-! A line of a workload file, from the file to the command that `connection_handler` makes of it. -/

namespace TradeC.Workload

/-- A character of a field. -/
def plain (c : Char) : Prop := c ≠ ' ' ∧ c ≠ '|' ∧ c ≠ '\n' ∧ c ≠ '\r' ∧ c ≠ nul

/-- A well-formed line, `[n] CMD,user` or `[n] CMD,user,data`. -/
structure Line where
  tag : CStr
  userCmd : CStr
  userID : CStr
  data : Option CStr
  ending : CStr
  plain_tag : ∀ c ∈ tag, plain c
  plain_userCmd : ∀ c ∈ userCmd, plain c ∧ c ≠ ','
  plain_userID : ∀ c ∈ userID, plain c ∧ c ≠ ','
  plain_data : ∀ d ∈ data, ∀ c ∈ d, plain c
  ends : ending ∈ [[], ['\n'], [' '], [' ', '\n']]
  -- what fgets(op, 100, wl) reads as one line
  short : (tag ++ ' ' :: (userCmd ++ ',' :: (userID ++ data.elim [] (',' :: ·))) ++ ending).length ≤ 99

namespace Line
variable (l : Line)

/-- From the user on. -/
def rest : CStr := l.userID ++ l.data.elim [] (',' :: ·)

def body : CStr := l.userCmd ++ ',' :: l.rest

def text : CStr := l.tag ++ ' ' :: l.body ++ l.ending

/-- What is sent for the line. -/
def bytes (transID : ℤ) : CStr := message transID l.userCmd l.userID l.data

/-- What `connection_handler` makes of it. -/
def clientCmd (transID : CStr) : ClientCmd :=
  if l.userCmd = "DUMPLOG".toList ∧ (l.userID.head? = some '.' ∨ l.userID.head? = some '/') then
    .dumplog transID l.userID
  else if h : validUserID l.userID = true then .command transID l.userCmd ⟨l.userID, h⟩ l.data
  else .badUser transID l.userCmd

theorem plain_rest : ∀ c ∈ l.rest, plain c := by
  intro c hc
  rcases List.mem_append.mp hc with hc | hc
  · exact (l.plain_userID c hc).1
  · cases hd : l.data with
    | none => simp [hd] at hc
    | some d =>
      rw [hd] at hc
      rcases List.mem_cons.mp hc with rfl | hc
      · exact ⟨by decide, by decide, by decide, by decide, by decide⟩
      · exact l.plain_data d hd c hc

theorem plain_body : ∀ c ∈ l.body, plain c := by
  intro c hc
  rcases List.mem_append.mp hc with hc | hc
  · exact (l.plain_userCmd c hc).1
  · rcases List.mem_cons.mp hc with rfl | hc
    · exact ⟨by decide, by decide, by decide, by decide, by decide⟩
    · exact l.plain_rest c hc

end Line

/-! ### Reading a line -/

theorem dropEnd_append (c : Char) (s : List Char) : dropEnd c (s ++ [c]) = s := by
  simp [dropEnd]

/-- Nothing is dropped from a string that ends differently. -/
theorem dropEnd_of_ne {c : Char} {s t : List Char} (ht : t ≠ []) (hc : ∀ d ∈ t, d ≠ c) :
    dropEnd c (s ++ t) = s ++ t := by
  rw [dropEnd, if_neg]
  rw [List.getLast?_append_of_ne_nil _ ht]
  intro hlast
  exact hc c (List.mem_of_getLast? hlast) rfl

theorem delimLoop_none {delim : Char} : ∀ (s cur : CStr) (count : ℕ), (∀ c ∈ s, c ≠ delim) →
    delimLoop delim s cur count = [cur ++ s] := by
  intro s
  induction s with
  | nil =>
    intro cur _ _
    simp [delimLoop]
  | cons c s ih =>
    intro cur count h
    rw [delimLoop, if_neg (h c List.mem_cons_self),
      ih _ count fun c' hc' => h c' (List.mem_cons_of_mem _ hc')]
    simp

theorem delimLoop_append {delim : Char} (rest : CStr) : ∀ (s cur : CStr) (count : ℕ),
    (∀ c ∈ s, c ≠ delim) → delimLoop delim (s ++ delim :: rest) cur count =
      if count = 1 then [cur ++ s, rest] else (cur ++ s) :: delimLoop delim rest [] (count + 1) := by
  intro s
  induction s with
  | nil =>
    intro cur count _
    simp [delimLoop]
  | cons c s ih =>
    intro cur count h
    rw [List.cons_append, delimLoop, if_neg (h c List.mem_cons_self),
      ih _ count fun c' hc' => h c' (List.mem_cons_of_mem _ hc')]
    simp

theorem delimSepNoCpy_eq {s : CStr} (hs : s ≠ []) (delim : Char) :
    delimSepNoCpy s delim = delimLoop delim s [] 0 := by
  cases s with
  | nil => exact absurd rfl hs
  | cons c s => rfl

namespace Line
variable (l : Line)

theorem body_ne_nil : l.body ≠ [] := by simp [body]

theorem trim_text : dropEnd ' ' (dropEnd '\n' l.text) = l.tag ++ ' ' :: l.body := by
  have hspace : dropEnd ' ' (l.tag ++ ' ' :: l.body) = l.tag ++ ' ' :: l.body := by
    have h := dropEnd_of_ne (s := l.tag ++ [' ']) l.body_ne_nil fun d hd => (l.plain_body d hd).1
    simpa using h
  have hline : dropEnd '\n' (l.tag ++ ' ' :: l.body) = l.tag ++ ' ' :: l.body := by
    have h := dropEnd_of_ne (s := l.tag ++ [' ']) l.body_ne_nil fun d hd => (l.plain_body d hd).2.2.1
    simpa using h
  have hlast : dropEnd '\n' (l.tag ++ ' ' :: l.body ++ [' ']) = l.tag ++ ' ' :: l.body ++ [' '] :=
    dropEnd_of_ne (by simp) (by simp)
  have hends := l.ends
  simp only [List.mem_cons, List.not_mem_nil, or_false] at hends
  rw [text]
  rcases hends with h | h | h | h <;> rw [h]
  · rw [List.append_nil, hline, hspace]
  · rw [dropEnd_append, hspace]
  · rw [hlast, dropEnd_append]
  · have hsplit : l.tag ++ ' ' :: l.body ++ [' ', '\n'] = (l.tag ++ ' ' :: l.body ++ [' ']) ++ ['\n'] := by
      simp
    rw [hsplit, dropEnd_append, dropEnd_append]

theorem sep_text : delimSepNoCpy (l.tag ++ ' ' :: l.body) ' ' = [l.tag, l.body] := by
  rw [delimSepNoCpy_eq (by simp), delimLoop_append _ _ _ _ fun c hc => (l.plain_tag c hc).1,
    if_neg (by decide), delimLoop_none _ _ _ fun c hc => (l.plain_body c hc).1]
  rfl

theorem sep_body : delimSepNoCpy l.body ',' = l.userCmd :: l.userID :: l.data.toList := by
  rw [delimSepNoCpy_eq l.body_ne_nil, body,
    delimLoop_append _ _ _ _ fun c hc => (l.plain_userCmd c hc).2, if_neg (by decide), rest]
  cases l.data with
  | none =>
    rw [Option.elim_none, List.append_nil, delimLoop_none _ _ _ fun c hc => (l.plain_userID c hc).2]
    rfl
  | some d =>
    rw [Option.elim_some, delimLoop_append _ _ _ _ fun c hc => (l.plain_userID c hc).2, if_pos rfl]
    rfl

/-- `main` sorts a line by its user. -/
theorem readLine_text (transID : ℤ) :
    readLine l.text transID = some (userSort l.userID, l.bytes transID) := by
  rw [readLine, l.trim_text, l.sep_text]
  simp only
  rw [l.sep_body]
  simp only [bytes, Option.head?_toList]

end Line

/-! ### Receiving it -/

theorem map_bar {f : List Char} (hf : ∀ c ∈ f, c ≠ '|') :
    f.map (fun c => if c = '|' then nul else c) = f := by
  conv_rhs => rw [← List.map_id f]
  exact List.map_congr_left fun c hc => if_neg (hf c hc)

/-- The four fields of a message. -/
structure Fields (a b c d : CStr) : Prop where
  bar : ∀ f ∈ [a, b, c, d], ∀ x ∈ f, x ≠ '|'
  ne_nul : ∀ f ∈ [a, b, c, d], ∀ x ∈ f, x ≠ nul
  ends : ∀ x ∈ d, x ≠ '\n' ∧ x ≠ '\r' ∧ x ≠ ' '
  short : a.length + b.length + c.length + d.length + 3 < 200

section
variable {a b c d : CStr}

def joined (sep : Char) (a b c d : CStr) : List Char := a ++ sep :: (b ++ sep :: (c ++ sep :: d))

theorem trim_joined (h : Fields a b c d) : trim (joined '|' a b c d ++ [nul]) = joined '|' a b c d := by
  have hsplit : joined '|' a b c d = (a ++ '|' :: (b ++ '|' :: c)) ++ '|' :: d := by simp [joined]
  have hends : ∀ x ∈ '|' :: d, x ≠ '\n' ∧ x ≠ '\r' ∧ x ≠ ' ' := by
    intro x hx
    rcases List.mem_cons.mp hx with rfl | hx
    · exact ⟨by decide, by decide, by decide⟩
    · exact h.ends x hx
  rw [trim, dropEnd_append, hsplit, dropEnd_of_ne (by simp) fun x hx => (hends x hx).1,
    dropEnd_of_ne (by simp) fun x hx => (hends x hx).2.1,
    dropEnd_of_ne (by simp) fun x hx => (hends x hx).2.2]

theorem joined_ne_nul (h : Fields a b c d) : ∀ x ∈ joined '|' a b c d, x ≠ nul := by
  intro x hx
  simp only [joined, List.mem_append, List.mem_cons] at hx
  rcases hx with hx | rfl | hx | rfl | hx | rfl | hx
  · exact h.ne_nul a (by simp) x hx
  · decide
  · exact h.ne_nul b (by simp) x hx
  · decide
  · exact h.ne_nul c (by simp) x hx
  · decide
  · exact h.ne_nul d (by simp) x hx

theorem fields_joined (h : Fields a b c d) :
    TradeC.delimSepNoCpy (some (joined '|' a b c d)) '|' = [a, b, c, d] := by
  have hne : joined '|' a b c d ≠ [] := by simp [joined]
  have hloop : TradeC.delimSepNoCpy (some (joined '|' a b c d)) '|' = Web.explode '|' (joined '|' a b c d) := by
    cases hj : joined '|' a b c d with
    | nil => exact absurd hj hne
    | cons x xs => rfl
  rw [hloop, joined, Web.explode_append (h.bar a (by simp)), Web.explode_append (h.bar b (by simp)),
    Web.explode_append (h.bar c (by simp)), Web.explode_none (h.bar d (by simp))]

/-- A buffer that is taken apart, with what else the last pointer points to. -/
def divided (a b c d : CStr) (r : List Char) (q : Option ℕ) : ConnBuf :=
  ⟨joined nul a b c d ++ nul :: r, [some 0, some (a.length + 1), some (a.length + b.length + 2),
    some (a.length + b.length + c.length + 3), q]⟩

theorem divided_str {r : List Char} {q : Option ℕ} (hnul : ∀ f ∈ [a, b, c, d], ∀ x ∈ f, x ≠ nul) :
    (divided a b c d r q).str 0 = some a ∧ (divided a b c d r q).str 1 = some b ∧
      (divided a b c d r q).str 2 = some c ∧ (divided a b c d r q).str 3 = some d := by
  refine ⟨congrArg some ?_, congrArg some ?_, congrArg some ?_, congrArg some ?_⟩
  · exact cstr_eq (p := []) (r := b ++ nul :: (c ++ nul :: (d ++ nul :: r)))
      (by simp [divided, joined]) rfl (hnul a (by simp))
  · exact cstr_eq (p := a ++ [nul]) (r := c ++ nul :: (d ++ nul :: r))
      (by simp [divided, joined]) (by simp) (hnul b (by simp))
  · exact cstr_eq (p := a ++ nul :: (b ++ [nul])) (r := d ++ nul :: r)
      (by simp [divided, joined]) (by simp; omega) (hnul c (by simp))
  · exact cstr_eq (p := a ++ nul :: (b ++ nul :: (c ++ [nul]))) (r := r)
      (by simp [divided, joined]) (by simp; omega) (hnul d (by simp))

/-- The buffer after a message of four fields. -/
theorem read_joined (h : Fields a b c d) {v : ConnBuf} (hv : v.message.length = 5) :
    ∃ r, v.read (joined '|' a b c d ++ [nul]) = some (divided a b c d r none, 4) := by
  have hlen : (joined '|' a b c d).length = a.length + b.length + c.length + d.length + 3 := by
    simp only [joined, List.length_append, List.length_cons]
    omega
  have hset : ((joined '|' a b c d ++ [nul]) ++
      v.clientMessage.drop (joined '|' a b c d ++ [nul]).length).set (joined '|' a b c d).length nul =
        joined '|' a b c d ++ nul :: v.clientMessage.drop (joined '|' a b c d ++ [nul]).length :=
    set_eq (by rw [List.append_assoc, List.singleton_append]) rfl
  have htext : cstr (joined '|' a b c d ++
      nul :: v.clientMessage.drop (joined '|' a b c d ++ [nul]).length) 0 = joined '|' a b c d :=
    cstr_eq (p := []) rfl rfl (joined_ne_nul h)
  have hmap : (joined '|' a b c d).map (fun x => if x = '|' then nul else x) = joined nul a b c d := by
    simp only [joined, List.map_append, List.map_cons, if_true, map_bar (h.bar a (by simp)),
      map_bar (h.bar b (by simp)), map_bar (h.bar c (by simp)), map_bar (h.bar d (by simp))]
  have hptr : (v.message.set 4 none).drop 4 = [none] := by
    obtain ⟨_, m⟩ := v
    match m, hv with
    | [_, _, _, _, _], _ => rfl
  have hshort := h.short
  have hguard : ¬ (200 ≤ (joined '|' a b c d).length ∨ 5 < [a, b, c, d].length) := by
    rw [hlen]
    simp only [List.length_cons, List.length_nil]
    omega
  refine ⟨v.clientMessage.drop (joined '|' a b c d ++ [nul]).length, ?_⟩
  rw [ConnBuf.read, trim_joined h]
  simp only [hset, htext, fields_joined h]
  rw [if_neg hguard]
  simp only [hmap, List.length_cons, List.length_nil, List.drop_left, Nat.zero_add, hptr]
  congr 3
  simp only [offsets, List.map_cons, List.map_nil, List.cons_append, List.nil_append, Nat.zero_add,
    List.cons.injEq, Option.some.injEq, and_true, true_and]
  omega

end

namespace Line
variable (l : Line)

theorem bytes_joined (transID : ℤ) :
    l.bytes transID = joined '|' "WSC".toList (ld transID) l.userCmd l.rest ++ [nul] := by
  have hwsc : "WSC|".toList = "WSC".toList ++ ['|'] := by decide
  delta bytes message
  rw [hwsc]
  -- as a variable, so that the text is not compared character by character
  generalize "WSC".toList = wsc
  simp only [joined, rest, List.append_assoc, List.cons_append, List.nil_append]

theorem fields (x : ℤ) : Fields "WSC".toList (ld (wrap64 x)) l.userCmd l.rest where
  bar f hf y hy := by
    simp only [List.mem_cons, List.not_mem_nil, or_false] at hf
    rcases hf with rfl | rfl | rfl | rfl
    · exact fun h => absurd (h ▸ hy) (by decide)
    · exact ld_ne _ (by decide) (by decide) y hy
    · exact (l.plain_userCmd y hy).1.2.1
    · exact (l.plain_rest y hy).2.1
  ne_nul f hf y hy := by
    simp only [List.mem_cons, List.not_mem_nil, or_false] at hf
    rcases hf with rfl | rfl | rfl | rfl
    · exact fun h => absurd (h ▸ hy) (by decide)
    · exact ld_ne _ (by decide) (by decide) y hy
    · exact (l.plain_userCmd y hy).1.2.2.2.2
    · exact (l.plain_rest y hy).2.2.2.2
  ends y hy := ⟨(l.plain_rest y hy).2.2.1, (l.plain_rest y hy).2.2.2.1, (l.plain_rest y hy).1⟩
  short := by
    have hld := length_ld_wrap64 x
    have hshort := l.short
    have hwsc : "WSC".toList.length = 3 := by decide
    simp only [List.length_append, List.length_cons] at hshort
    rw [rest, List.length_append, hwsc]
    omega

/-- What `accept` makes of a message that is a line, from the strings it looks at. -/
theorem accept_eq {v : ConnBuf} {tid x : CStr} (hwsc : v.str 0 = some "WSC".toList)
    (hx : v.str 1 = some x) (htid : v.sepUser.str 1 = some tid)
    (hcmd : v.sepUser.str 2 = some l.userCmd) (huser : v.sepUser.str 3 = some l.userID)
    (hdata : v.sepUser.str 4 = l.data) : v.accept 4 = some (v.sepUser, l.clientCmd tid) := by
  rw [ConnBuf.accept, if_neg (by decide), hwsc, hx]
  simp only
  rw [if_neg (by decide), if_pos trivial, htid, hcmd, huser, hdata]
  simp only [clientCmd]
  split_ifs <;> rfl

/-- The user and its data are taken apart. -/
theorem sepUser_divided {a b c : CStr} (hnul : ∀ f ∈ [a, b, c, l.rest], ∀ x ∈ f, x ≠ nul)
    (r : List Char) : ∃ r' q, (divided a b c l.rest r none).sepUser = divided a b c l.userID r' q ∧
      (divided a b c l.userID r' q).str 4 = l.data := by
  have hcomma : ',' ∉ l.userID := fun h => (l.plain_userID _ h).2 rfl
  have hptr : (divided a b c l.rest r none).ptr 3 = some (a.length + b.length + c.length + 3) := rfl
  have hstr := Option.some.inj (divided_str (r := r) (q := none) hnul).2.2.2
  cases hd : l.data with
  | none =>
    have hrest : l.rest = l.userID := by rw [rest, hd, Option.elim_none, List.append_nil]
    refine ⟨r, none, ?_, rfl⟩
    rw [ConnBuf.sepUser, hptr]
    simp only
    rw [hstr, hrest, if_neg hcomma]
  | some d =>
    have hrest : l.rest = l.userID ++ ',' :: d := by rw [rest, hd, Option.elim_some]
    have hix : l.rest.idxOf ',' = l.userID.length := by
      rw [hrest, List.idxOf_append_of_notMem hcomma, List.idxOf_cons_self, Nat.add_zero]
    have hset : (divided a b c l.rest r none).clientMessage.set
        (a.length + b.length + c.length + 3 + l.userID.length) nul =
          joined nul a b c l.userID ++ nul :: (d ++ nul :: r) :=
      (set_eq (p := joined nul a b c l.userID) (x := ',') (r := d ++ nul :: r)
        (by simp [divided, joined, hrest]) (by simp [joined]; omega))
    refine ⟨d ++ nul :: r, some (a.length + b.length + c.length + 3 + l.userID.length + 1), ?_, ?_⟩
    · rw [ConnBuf.sepUser, hptr]
      simp only
      rw [hstr, if_pos (by simp [hrest]), hix, hset]
      rfl
    · exact congrArg some (cstr_eq (p := joined nul a b c l.userID ++ [nul]) (r := r)
        (by simp [divided]) (by simp [joined]; omega)
        fun x hx => (l.plain_data d hd x hx).2.2.2.2)

/-- What `connection_handler` has when it has taken a message apart: `v` before the user is, `v'` after. -/
structure Split (transID : CStr) (v v' : ConnBuf) : Prop where
  internalCmd : v.str 0 = some "WSC".toList
  accept : v.accept 4 = some (v', l.clientCmd transID)
  transID : v'.str 1 = some transID
  userCmd : v'.str 2 = some l.userCmd
  userID : v'.str 3 = some l.userID
  data : v'.str 4 = l.data

/-- `connection_handler` takes the message to a line apart again. -/
theorem split_bytes (x : ℤ) {v : ConnBuf} (hv : v.message.length = 5) : ∃ v₁ v₂ : ConnBuf,
    v.read (l.bytes (wrap64 x)) = some (v₁, 4) ∧ l.Split (ld (wrap64 x)) v₁ v₂ ∧
      v₂.message.length = 5 := by
  have hf := l.fields x
  have hnul : ∀ f ∈ ["WSC".toList, ld (wrap64 x), l.userCmd, l.userID], ∀ y ∈ f, y ≠ nul := by
    intro f hmem
    simp only [List.mem_cons, List.not_mem_nil, or_false] at hmem
    rcases hmem with rfl | rfl | rfl | rfl
    · exact hf.ne_nul _ (by simp)
    · exact hf.ne_nul _ (by simp)
    · exact hf.ne_nul _ (by simp)
    · exact fun y hy => (l.plain_userID y hy).1.2.2.2.2
  obtain ⟨r, hread⟩ := read_joined hf hv
  obtain ⟨r', q, hsep, hdata⟩ := l.sepUser_divided hf.ne_nul r
  obtain ⟨h₀, h₁, -, -⟩ := divided_str (r := r) (q := none) hf.ne_nul
  obtain ⟨-, h₁', h₂', h₃'⟩ := divided_str (r := r') (q := q) hnul
  refine ⟨divided "WSC".toList (ld (wrap64 x)) l.userCmd l.rest r none,
    divided "WSC".toList (ld (wrap64 x)) l.userCmd l.userID r' q, ?_, ⟨h₀, ?_, h₁', h₂', h₃', hdata⟩, rfl⟩
  · rw [bytes_joined, hread]
  · rw [← hsep]
    exact l.accept_eq h₀ h₁ (hsep ▸ h₁') (hsep ▸ h₂') (hsep ▸ h₃') (hsep ▸ hdata)

theorem receive_bytes (x : ℤ) {v : ConnBuf} (hv : v.message.length = 5) : ∃ v' : ConnBuf,
    v.receive (l.bytes (wrap64 x)) = some (v', l.clientCmd (ld (wrap64 x))) ∧
      v'.message.length = 5 := by
  obtain ⟨v₁, v₂, hread, hsplit, hlen⟩ := l.split_bytes x hv
  refine ⟨v₂, ?_, hlen⟩
  rw [ConnBuf.receive, hread, Option.bind_some]
  exact hsplit.accept

end Line

end TradeC.Workload
