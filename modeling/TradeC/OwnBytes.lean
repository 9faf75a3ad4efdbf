import TradeC.Lines
import TradeC.Lib.Run

/-! A message of four fields is handled by its own bytes only, and one of two fields that starts with
    WSC is not.

    All messages of a connection share the buffer and the array of pointers, of which `read` resets the
    last only. A message of four fields sets the others; one of two fields leaves `message[2]` and
    `message[3]` to point where an earlier message had its command and its user, or at nothing. -/

namespace TradeC
open Run

namespace ConnBuf

/-- A message of the connection. -/
def turn (b : ConnBuf) (bytes : List Char) : Option ConnBuf := (b.receive bytes).map Prod.fst

/-- The pointers that a message of `messageLen` fields sets, and NULL for the others. -/
def only (b : ConnBuf) (messageLen : ℕ) : ConnBuf :=
  { b with message := b.message.take messageLen ++ List.replicate (5 - messageLen) none }

end ConnBuf

/-- The fields of a message. -/
def fieldsOf (bytes : List Char) : List CStr := delimSepNoCpy (some (cstr (trim bytes) 0)) '|'

/-- A request of the workload generator. -/
def ClientCmd.request (transID userCmd userID : CStr) (comm : Option CStr) : ClientCmd :=
  if userCmd = "DUMPLOG".toList ∧ (userID.head? = some '.' ∨ userID.head? = some '/') then
    .dumplog transID userID
  else if h : validUserID userID = true then .command transID userCmd ⟨userID, h⟩ comm
  else .badUser transID userCmd

/-- What the fields of a message come to, where they are enough. -/
def ClientCmd.ofFields : List CStr → Option ClientCmd
  | [internalCmd, x] =>
    if internalCmd = "USR".toList then some (.usr x)
    else if internalCmd = "WSC".toList then none
    else some .ignored
  | [internalCmd, x, userCmd, rest] =>
    if internalCmd = "USR".toList then some (.usr x)
    else if internalCmd = "WSC".toList then
      some (.request x userCmd (rest.takeWhile (· ≠ ','))
        (if ',' ∈ rest then some (rest.drop (rest.idxOf ',' + 1)) else none))
    else some .ignored
  | _ => some .badLength

/-! ### The fields in the buffer -/

theorem cstr_ne_nul (buf : List Char) (o : ℕ) : ∀ c ∈ cstr buf o, c ≠ nul := by
  intro c hc
  simpa using List.all_eq_true.mp List.all_takeWhile c hc

theorem fieldsOf_ne_nul (bytes : List Char) : ∀ f ∈ fieldsOf bytes, ∀ c ∈ f, c ≠ nul := by
  intro f hf c hc
  unfold fieldsOf at hf
  refine cstr_ne_nul (trim bytes) 0 c ?_
  cases htext : cstr (trim bytes) 0 with
  | nil => simp [htext, delimSepNoCpy] at hf
  | cons x s =>
    rw [htext] at hf
    have hmem : c ∈ [] ++ x :: s := mem_delimLoop hf hc
    exact hmem

theorem intercalate_fieldsOf (bytes : List Char) : [nul].intercalate (fieldsOf bytes) =
    (cstr (trim bytes) 0).map fun c => if c = '|' then nul else c := by
  unfold fieldsOf
  cases cstr (trim bytes) 0 with
  | nil => rfl
  | cons x s => exact intercalate_delimLoop '|' (x :: s) [] fun _ hx => absurd hx List.not_mem_nil

/-! ### Reading -/

theorem dropEnd_isPrefix (c : Char) (s : List Char) : dropEnd c s <+: s := by
  unfold dropEnd
  split_ifs
  · exact List.dropLast_prefix s
  · exact List.prefix_rfl

theorem trim_isPrefix (bytes : List Char) : trim bytes <+: bytes :=
  ((dropEnd_isPrefix ' ' _).trans (dropEnd_isPrefix '\r' _)).trans
    ((dropEnd_isPrefix '\n' _).trans (dropEnd_isPrefix nul _))

/-- Bytes up to their first NUL, and what starts with it. -/
theorem cstr_append_drop {s r : List Char} (hr : ∀ c ∈ r.head?, c = nul) :
    cstr (s ++ r) 0 = cstr s 0 ∧ ∀ c ∈ ((s ++ r).drop (cstr s 0).length).head?, c = nul := by
  induction s with
  | nil =>
    refine ⟨?_, hr⟩
    have h := cstr_end (p := []) (f := []) (fun _ hx => absurd hx List.not_mem_nil) hr
    exact h
  | cons x s ih =>
    unfold cstr at ih ⊢
    rw [List.drop_zero, List.drop_zero] at ih ⊢
    by_cases hx : x = nul
    · rw [List.cons_append, List.takeWhile_cons_of_neg (by simpa using hx),
        List.takeWhile_cons_of_neg (by simpa using hx)]
      refine ⟨rfl, ?_⟩
      intro c hc
      exact (Option.some.inj hc).symm.trans hx
    · rw [List.cons_append, List.takeWhile_cons_of_pos (by simpa using hx),
        List.takeWhile_cons_of_pos (by simpa using hx)]
      exact ⟨congrArg (x :: ·) ih.1, ih.2⟩

/-- A message takes the front of the buffer, with a NUL behind it unless the buffer ends there. -/
theorem ConnBuf.read_eq (b : ConnBuf) (bytes : List Char) : ∃ r, (∀ c ∈ r.head?, c = nul) ∧
    b.read bytes =
      if 200 ≤ (trim bytes).length ∨ 5 < (fieldsOf bytes).length then none
      else some (⟨[nul].intercalate (fieldsOf bytes) ++ r,
        (offsets (fieldsOf bytes) 0).map some ++ (b.message.set 4 none).drop (fieldsOf bytes).length⟩,
          (fieldsOf bytes).length) := by
  obtain ⟨t, ht⟩ := trim_isPrefix bytes
  have hbuf : ∃ r, (∀ c ∈ r.head?, c = nul) ∧
      (bytes ++ b.clientMessage.drop bytes.length).set (trim bytes).length nul = trim bytes ++ r := by
    refine ⟨(t ++ b.clientMessage.drop bytes.length).set 0 nul, ?_, ?_⟩
    · cases t ++ b.clientMessage.drop bytes.length with
      | nil => simp
      | cons x r => simp
    · have hsplit : bytes ++ b.clientMessage.drop bytes.length =
          trim bytes ++ (t ++ b.clientMessage.drop bytes.length) := by
        rw [← List.append_assoc, ht]
      rw [hsplit, List.set_append_right _ _ (Nat.le_refl _), Nat.sub_self]
  obtain ⟨r, hr, hbuf⟩ := hbuf
  obtain ⟨htext, hrest⟩ := cstr_append_drop (s := trim bytes) hr
  refine ⟨_, hrest, ?_⟩
  rw [ConnBuf.read]
  simp only [hbuf, htext]
  rw [show delimSepNoCpy (some (cstr (trim bytes) 0)) '|' = fieldsOf bytes from rfl, intercalate_fieldsOf]

/-! ### The decision -/

/-- A pointer to a field, whatever the later ones point to. -/
theorem ConnBuf.str_field {fs : List CStr} {r : List Char} (hnul : ∀ f ∈ fs, ∀ c ∈ f, c ≠ nul)
    (hr : ∀ c ∈ r.head?, c = nul) (message : List (Option ℕ)) {i : ℕ} (hi : i < fs.length) :
    ConnBuf.str ⟨[nul].intercalate fs ++ r, (offsets fs 0).map some ++ message⟩ i = fs[i]? :=
  cstr_field (p := []) hr hnul message hi

theorem split_at_first (d : Char) : ∀ {s : CStr}, d ∈ s →
    s = s.takeWhile (· ≠ d) ++ d :: s.drop (s.idxOf d + 1) ∧ s.idxOf d = (s.takeWhile (· ≠ d)).length := by
  intro s
  induction s with
  | nil =>
    intro h
    exact absurd h List.not_mem_nil
  | cons c s ih =>
    intro h
    by_cases hc : c = d
    · subst hc
      simp
    · have hs : d ∈ s := (List.mem_cons.mp h).resolve_left fun h => hc h.symm
      obtain ⟨hsplit, hlen⟩ := ih hs
      rw [List.takeWhile_cons_of_pos (by simpa using hc), List.idxOf_cons_ne _ hc, List.length_cons, List.drop_succ_cons,
        List.cons_append, ← hsplit, hlen]
      exact ⟨rfl, rfl⟩

/-- The user and its data are taken apart. -/
theorem ConnBuf.sepUser_fields {a x cmd rest : CStr} {r : List Char}
    (hnul : ∀ f ∈ [a, x, cmd, rest], ∀ c ∈ f, c ≠ nul) (hr : ∀ c ∈ r.head?, c = nul) :
    let b := ConnBuf.sepUser ⟨[nul].intercalate [a, x, cmd, rest] ++ r,
      (offsets [a, x, cmd, rest] 0).map some ++ [none]⟩
    b.str 1 = some x ∧ b.str 2 = some cmd ∧ b.str 3 = some (rest.takeWhile (· ≠ ',')) ∧
      b.str 4 = if ',' ∈ rest then some (rest.drop (rest.idxOf ',' + 1)) else none := by
  have hrest := ConnBuf.str_field hnul hr [none] (i := 3) (by simp)
  have hptr : ConnBuf.ptr ⟨[nul].intercalate [a, x, cmd, rest] ++ r,
      (offsets [a, x, cmd, rest] 0).map some ++ [none]⟩ 3 =
        some (0 + a.length + 1 + x.length + 1 + cmd.length + 1) := rfl
  rw [ConnBuf.str, hptr, Option.map_some] at hrest
  have hstr := Option.some.inj hrest
  intro b
  have hb : b = ConnBuf.sepUser ⟨[nul].intercalate [a, x, cmd, rest] ++ r,
      (offsets [a, x, cmd, rest] 0).map some ++ [none]⟩ := rfl
  rw [ConnBuf.sepUser, hptr] at hb
  simp only at hb
  rw [hstr] at hb
  by_cases hcomma : ',' ∈ rest
  · obtain ⟨hsplit, hix⟩ := split_at_first ',' hcomma
    generalize rest.takeWhile (· ≠ ',') = u at hsplit hix ⊢
    generalize rest.drop (rest.idxOf ',' + 1) = d at hsplit ⊢
    rw [if_pos hcomma, hix] at hb
    rw [if_pos hcomma]
    have hnul' : ∀ f ∈ [a, x, cmd, u, d], ∀ c ∈ f, c ≠ nul := by
      have hrest : ∀ c ∈ u ++ ',' :: d, c ≠ nul := hsplit ▸ hnul rest (by simp)
      intro f hf
      simp only [List.mem_cons, List.not_mem_nil, or_false] at hf
      rcases hf with rfl | rfl | rfl | rfl | rfl
      · exact hnul _ (by simp)
      · exact hnul _ (by simp)
      · exact hnul _ (by simp)
      · exact fun c hc => hrest c (List.mem_append_left _ hc)
      · exact fun c hc => hrest c (List.mem_append_right _ (List.mem_cons_of_mem _ hc))
    have hset : ([nul].intercalate [a, x, cmd, rest] ++ r).set
        (0 + a.length + 1 + x.length + 1 + cmd.length + 1 + u.length) nul =
          [nul].intercalate [a, x, cmd, u, d] ++ r := by
      rw [set_eq (p := a ++ nul :: (x ++ nul :: (cmd ++ nul :: u))) (x := ',') (r := d ++ r)
        (by simp [List.intercalate, hsplit]) (by simp; omega)]
      simp [List.intercalate]
    have hb : b = ⟨[nul].intercalate [a, x, cmd, u, d] ++ r,
        (offsets [a, x, cmd, u, d] 0).map some ++ []⟩ := by
      rw [hb, hset]
      rfl
    rw [hb]
    exact ⟨ConnBuf.str_field hnul' hr [] (i := 1) (by simp), ConnBuf.str_field hnul' hr [] (i := 2) (by simp),
      ConnBuf.str_field hnul' hr [] (i := 3) (by simp), ConnBuf.str_field hnul' hr [] (i := 4) (by simp)⟩
  · have htake : (rest ++ []).takeWhile (· ≠ ',') = rest ++ [].takeWhile (· ≠ ',') := by
      refine List.takeWhile_append_of_pos fun c hc => ?_
      simpa using fun h : c = ',' => hcomma (h ▸ hc)
    rw [List.takeWhile_nil, List.append_nil] at htake
    rw [if_neg hcomma] at hb
    rw [if_neg hcomma, htake, hb]
    exact ⟨ConnBuf.str_field hnul hr [none] (i := 1) (by simp), ConnBuf.str_field hnul hr [none] (i := 2) (by simp),
      ConnBuf.str_field hnul hr [none] (i := 3) (by simp), rfl⟩

/-- The decision is that of the fields, unless `message[2]` is needed and is not one of them. -/
theorem ConnBuf.accept_fields {fs : List CStr} {r : List Char} (message : List (Option ℕ))
    (hnul : ∀ f ∈ fs, ∀ c ∈ f, c ≠ nul) (hr : ∀ c ∈ r.head?, c = nul)
    (hdata : fs.length = 4 → message = [none]) (hshort : ∀ x, fs ≠ ["WSC".toList, x]) :
    (ConnBuf.accept ⟨[nul].intercalate fs ++ r, (offsets fs 0).map some ++ message⟩ fs.length).map Prod.snd =
      ClientCmd.ofFields fs := by
  have hstr := fun i => @ConnBuf.str_field fs r hnul hr message i
  match fs with
  | [] => rfl
  | [_] => rfl
  | [_, _, _] => rfl
  | _ :: _ :: _ :: _ :: _ :: fs =>
    rw [ConnBuf.accept, if_pos]
    · rfl
    · simp only [List.length_cons]
      omega
  | [internalCmd, x] =>
    have h₀ := hstr 0 (by simp)
    have h₁ := hstr 1 (by simp)
    rw [ConnBuf.accept, if_neg (by simp), h₀, h₁]
    simp only [List.getElem?_cons_zero, List.getElem?_cons_succ]
    simp only [ClientCmd.ofFields]
    split_ifs with husr hwsc
    · rfl
    · exact absurd (by rw [hwsc]) (hshort x)
    · rfl
  | [internalCmd, x, userCmd, rest] =>
    obtain rfl := hdata rfl
    have h₀ := hstr 0 (by simp)
    have h₁ := hstr 1 (by simp)
    obtain ⟨htid, hcmd, huser, hcomm⟩ := ConnBuf.sepUser_fields hnul hr
    simp only [ClientCmd.ofFields]
    generalize (if ',' ∈ rest then some (rest.drop (rest.idxOf ',' + 1)) else none) = comm at hcomm ⊢
    generalize rest.takeWhile (· ≠ ',') = user at huser ⊢
    rw [ConnBuf.accept, if_neg (by simp), h₀, h₁]
    simp only [List.getElem?_cons_zero, List.getElem?_cons_succ, htid, hcmd, huser, hcomm]
    split_ifs with husr hwsc hdump hvalid
    · rfl
    · rw [ClientCmd.request, if_pos hdump]
      rfl
    · rw [ClientCmd.request, if_neg hdump, dif_pos hvalid]
      rfl
    · rw [ClientCmd.request, if_neg hdump, dif_neg hvalid]
      rfl
    · rfl

/-! ### Histories -/

theorem ConnBuf.read_length {b b₁ : ConnBuf} {bytes : List Char} {n : ℕ} (hb : b.message.length = 5)
    (h : b.read bytes = some (b₁, n)) : b₁.message.length = 5 := by
  unfold ConnBuf.read at h
  simp only at h
  split_ifs at h with hbound
  rw [Option.some.injEq, Prod.mk.injEq] at h
  rw [← h.1, List.length_append, List.length_map, length_offsets, List.length_drop, List.length_set, hb]
  omega

theorem ConnBuf.accept_length {b : ConnBuf} {n : ℕ} {r : ConnBuf × ClientCmd} (h : b.accept n = some r) :
    r.1.message.length = b.message.length := by
  have hsep : b.sepUser.message.length = b.message.length := by
    unfold ConnBuf.sepUser
    split
    · rfl
    · simp only
      split_ifs
      · exact List.length_set
      · rfl
  unfold ConnBuf.accept at h
  split_ifs at h
  · cases h
    rfl
  · split at h
    · split_ifs at h
      · cases h
        rfl
      · simp only at h
        split at h
        · split at h
          · split_ifs at h
            cases h
            exact hsep
          · split_ifs at h <;> cases h <;> exact hsep
        · exact absurd h (by simp)
      · cases h
        rfl
    · exact absurd h (by simp)

theorem ConnBuf.exec_length {garbage : List Char} {history : List (List Char)} {b : ConnBuf}
    (h : exec ConnBuf.turn (ConnBuf.init garbage) history = some b) : b.message.length = 5 := by
  have hstep : ∀ (b : ConnBuf) bytes b', b.message.length = 5 → ConnBuf.turn b bytes = some b' →
      b'.message.length = 5 := by
    intro b bytes b' hb hturn
    obtain ⟨r, hr, rfl⟩ := Option.map_eq_some_iff.mp hturn
    obtain ⟨⟨b₁, n⟩, hread, haccept⟩ := Option.bind_eq_some_iff.mp hr
    exact (ConnBuf.accept_length haccept).trans (ConnBuf.read_length hb hread)
  exact exec_inv hstep history _ b rfl h

/-- After every history the decision on a message is the same, with what earlier messages have left in
    the array as with NULL instead. -/
def OwnBytes (bytes : List Char) : Prop :=
  ∃ c, ∀ garbage history b, exec ConnBuf.turn (ConnBuf.init garbage) history = some b →
    ∃ b₁ messageLen r r', b.read bytes = some (b₁, messageLen) ∧ b₁.accept messageLen = some r ∧
      (b₁.only messageLen).accept messageLen = some r' ∧ r.2 = c ∧ r'.2 = c

theorem ClientCmd.ofFields_some {fs : List CStr} (hshort : ∀ x, fs ≠ ["WSC".toList, x]) :
    ∃ c, ClientCmd.ofFields fs = some c := by
  unfold ClientCmd.ofFields
  split
  · split_ifs with husr hwsc
    · exact ⟨_, rfl⟩
    · exact absurd (by rw [hwsc]) (hshort _)
    · exact ⟨_, rfl⟩
  · split_ifs <;> exact ⟨_, rfl⟩
  · exact ⟨_, rfl⟩

theorem ConnBuf.only_fields (buf : List Char) (fs : List CStr) (message : List (Option ℕ)) :
    ConnBuf.only ⟨buf, (offsets fs 0).map some ++ message⟩ fs.length =
      ⟨buf, (offsets fs 0).map some ++ List.replicate (5 - fs.length) none⟩ := by
  have hlen : ((offsets fs 0).map some).length = fs.length := by rw [List.length_map, length_offsets]
  rw [ConnBuf.only]
  simp only
  rw [List.take_append_of_le_length hlen.ge, ← hlen, List.take_length]

/-- The last pointer is all that a message of four fields leaves. -/
theorem drop_four {message : List (Option ℕ)} (h : message.length = 5) :
    (message.set 4 none).drop 4 = [none] := by
  obtain ⟨x, hx⟩ := List.length_eq_one_iff.mp (show (message.drop 4).length = 1 by
    rw [List.length_drop, h])
  rw [List.drop_set, if_neg (Nat.lt_irrefl 4), hx]
  rfl

/-- It is for a message that fits into the buffer and the array, and is not one of two fields with WSC
    as the first. -/
theorem ownBytes_iff (bytes : List Char) : OwnBytes bytes ↔
    (trim bytes).length < 200 ∧ (fieldsOf bytes).length ≤ 5 ∧ ∀ x, fieldsOf bytes ≠ ["WSC".toList, x] := by
  constructor
  · rintro ⟨c, hall⟩
    obtain ⟨b₁, n, r, r', hread, -, honly, -, -⟩ := hall [] [] _ rfl
    obtain ⟨r₀, hr₀, hread'⟩ := ConnBuf.read_eq (ConnBuf.init []) bytes
    rw [hread'] at hread
    split_ifs at hread with hbound
    rw [not_or, not_le, not_lt] at hbound
    refine ⟨hbound.1, hbound.2, fun x hx => ?_⟩
    rw [Option.some.injEq, Prod.mk.injEq] at hread
    rw [← hread.1, ← hread.2, ConnBuf.only_fields] at honly
    have hnul := fieldsOf_ne_nul bytes
    rw [hx] at honly hnul
    have h₀ := @ConnBuf.str_field _ r₀ hnul hr₀ (List.replicate 3 none) 0 (by simp)
    have h₁ := @ConnBuf.str_field _ r₀ hnul hr₀ (List.replicate 3 none) 1 (by simp)
    -- `message[2]` is NULL
    rw [List.length_cons, List.length_singleton, ConnBuf.accept, if_neg (by decide), h₀, h₁] at honly
    simp only [List.getElem?_cons_zero, List.getElem?_cons_succ] at honly
    rw [if_neg (by decide), if_pos trivial] at honly
    have h₁' : (ConnBuf.sepUser ⟨[nul].intercalate ["WSC".toList, x] ++ r₀,
        (offsets ["WSC".toList, x] 0).map some ++ List.replicate 3 none⟩).str 1 = some x := h₁
    have h₂' : (ConnBuf.sepUser ⟨[nul].intercalate ["WSC".toList, x] ++ r₀,
        (offsets ["WSC".toList, x] 0).map some ++ List.replicate 3 none⟩).str 2 = none := rfl
    rw [h₁', h₂'] at honly
    exact absurd honly (by simp)
  · rintro ⟨hlen, hfields, hshort⟩
    have hnul := fieldsOf_ne_nul bytes
    obtain ⟨c, hc⟩ := ClientCmd.ofFields_some hshort
    refine ⟨c, fun garbage history b hb => ?_⟩
    obtain ⟨r, hr, hread⟩ := b.read_eq bytes
    rw [if_neg (not_or.mpr ⟨not_le.mpr hlen, not_lt.mpr hfields⟩)] at hread
    have hfive := ConnBuf.exec_length hb
    have hdata : (fieldsOf bytes).length = 4 → (b.message.set 4 none).drop (fieldsOf bytes).length = [none] := by
      intro hfour
      rw [hfour]
      exact drop_four hfive
    have haccept := ConnBuf.accept_fields _ hnul hr hdata hshort
    have honly := ConnBuf.accept_fields (List.replicate (5 - (fieldsOf bytes).length) none) hnul hr
      (fun hfour => by rw [hfour]; rfl) hshort
    rw [hc] at haccept honly
    obtain ⟨r₁, hr₁, hr₁c⟩ := Option.map_eq_some_iff.mp haccept
    obtain ⟨r₂, hr₂, hr₂c⟩ := Option.map_eq_some_iff.mp honly
    exact ⟨_, _, r₁, r₂, hread, hr₁, by rw [ConnBuf.only_fields]; exact hr₂, hr₁c, hr₂c⟩

/-- The history that makes a message of two fields a commit. -/
def afterCommit (userCmd : String) (bytes : List Char) : Option ClientCmd :=
  (exec ConnBuf.turn (ConnBuf.init []) [("WSC|1|" ++ userCmd ++ "|aaaaaaaaaa").toList]).bind fun b =>
    (b.receive bytes).map Prod.snd

deriving instance DecidableEq for ClientCmd

theorem OwnBytes.alike {bytes : List Char} {userCmd userCmd' : String} {c c' : ClientCmd}
    (h : OwnBytes bytes) (hc : afterCommit userCmd bytes = some c)
    (hc' : afterCommit userCmd' bytes = some c') : c = c' := by
  obtain ⟨d, hd⟩ := h
  have hafter : ∀ {userCmd c}, afterCommit userCmd bytes = some c → c = d := by
    intro userCmd c hc
    obtain ⟨b, hb, hdecision⟩ := Option.bind_eq_some_iff.mp hc
    obtain ⟨b₁, n, r, r', hread, haccept, -, hr, -⟩ := hd _ _ b hb
    have hreceive : b.receive bytes = some r := by
      rw [ConnBuf.receive, hread]
      exact haccept
    rw [hreceive, Option.map_some, Option.some.injEq] at hdecision
    exact hdecision.symm.trans hr
  exact (hafter hc).trans (hafter hc').symm

/-- A message of two fields is the last commit again. -/
theorem stale_commit : ¬ ∀ bytes : List Char, 0 < bytes.length → bytes.length ≤ 200 → OwnBytes bytes := by
  intro h
  have hbuy : afterCommit "COMMIT_BUY" "WSC|2".toList =
      some (.command "2".toList "COMMIT_BUY".toList aUser none) := by decide
  have hsell : afterCommit "COMMIT_SELL" "WSC|2".toList =
      some (.command "2".toList "COMMIT_SELL".toList aUser none) := by decide
  have hsame := (h "WSC|2".toList (by decide) (by decide)).alike hbuy hsell
  exact absurd hsame (by decide)

end TradeC
