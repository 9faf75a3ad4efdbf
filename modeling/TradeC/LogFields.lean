import TradeC.LogFile
import TradeC.BadReply
import TradeC.Quotes
import TradeC.Stored

/-! The fields of a log line, from the `sprintf` of a sender to the element of the log server.

    A template puts its fields between commas as they are, and the log server takes the line apart at its
    commas and leaves out what starts with a blank. So a comma in a field moves all fields behind it, and
    a field that only starts with a blank is lost. -/

namespace TradeC.LogFields
open LogServer Run

/-! ### Lines -/

def serverName : CStr := "TRAN1".toList

/-- A line, with what its sender puts into the template. -/
inductive Line where
  | userCmdLog (ts : ℤ) (transID userCmd userID stockID file funds : CStr)
  | accTransLog (ts : ℤ) (transID action userID funds : CStr)
  | quoteLog (ts : ℤ) (transID rep : CStr)

namespace Line

/-- The templates `userCmdLog` and `accTransLog`, and the one in `get_quote_thread`, between their commas. -/
def fields : Line → List CStr
  | .userCmdLog ts transID userCmd userID stockID file funds =>
    ["userCmd".toList, ld ts, serverName, transID, userCmd, userID, stockID, file, funds]
  | .accTransLog ts transID action userID funds =>
    ["accTrans".toList, ld ts, serverName, transID, action, userID, funds]
  | .quoteLog ts transID rep => ["quote".toList, ld ts, "LOAD1".toList, transID, rep]

def text (l : Line) : CStr := [','].intercalate l.fields

def transID : Line → CStr
  | .userCmdLog _ transID .. | .accTransLog _ transID .. | .quoteLog _ transID _ => transID

/-- The function of the log server that makes the element. -/
def maker : Line → List CStr → Option Element
  | .userCmdLog .. => userCommand
  | .accTransLog .. => accountTransaction
  | .quoteLog .. => quoteServer

/-- What the line is for: each field in an element of its own, without those that are a blank. A reply of
    the quote server is for five elements. -/
def entry : Line → Option Element
  | .userCmdLog ts transID userCmd userID stockID file funds =>
    some ⟨"userCommand".toList,
      ((stamp ++ ["command"]).map String.toList).zip [ld ts, serverName, transID, userCmd] ++
      ((optional.map String.toList).zip [userID, stockID, file, funds]).filter fun c => c.2 ≠ spc⟩
  | .accTransLog ts transID action userID funds =>
    some ⟨"accountTransaction".toList, ((stamp ++ ["action", "username", "funds"]).map String.toList).zip
      [ld ts, serverName, transID, action, userID, funds]⟩
  | .quoteLog ts transID rep =>
    match Web.explode ',' rep with
    | [price, sym, user, qts, key] =>
      some ⟨"quoteServer".toList,
        ((stamp ++ ["price", "stockSymbol", "username", "quoteServerTime", "cryptokey"]).map
          String.toList).zip [ld ts, "LOAD1".toList, transID, price, sym, user, qts, key]⟩
    | _ => none

/-- The line adds the element that it is for. -/
def Survives (l : Line) : Prop := ∃ e ∈ l.entry, lineElements l.text = [e]

end Line

/-- A string that starts with a blank is a blank. -/
def Clear (a : CStr) : Prop := a.head? = some ' ' → a = spc

instance (a : CStr) : Decidable (Clear a) := inferInstanceAs (Decidable (_ → _))

/-! ### Taking a line apart -/

theorem explode_join {delim : Char} (rest : CStr) : ∀ s cur : CStr,
    delimLoop delim (s ++ delim :: rest) cur = delimLoop delim s cur ++ delimLoop delim rest [] := by
  intro s
  induction s with
  | nil =>
    intro cur
    have hstep : delimLoop delim (delim :: rest) cur = cur :: delimLoop delim rest [] := if_pos rfl
    rw [List.nil_append, hstep, delimLoop, List.singleton_append]
  | cons c s ih =>
    intro cur
    rw [List.cons_append, delimLoop, delimLoop]
    by_cases hc : c = delim
    · rw [if_pos hc, if_pos hc, ih [], List.cons_append]
    · rw [if_neg hc, if_neg hc, ih (cur ++ [c])]

/-- What is put together at a delimiter is taken apart at it, and each part for itself. -/
theorem explode_intercalate (delim : Char) : ∀ fs : List CStr, fs ≠ [] →
    Web.explode delim ([delim].intercalate fs) = fs.flatMap (Web.explode delim) := by
  intro fs
  induction fs with
  | nil =>
    intro h
    exact absurd rfl h
  | cons f fs ih =>
    intro _
    cases fs with
    | nil =>
      have hone : [delim].intercalate [f] = f := by simp
      rw [hone, List.flatMap_singleton]
    | cons g fs =>
      have hrest := ih (List.cons_ne_nil _ _)
      rw [intercalate_cons delim f (List.cons_ne_nil _ _), List.flatMap_cons, ← hrest]
      exact explode_join _ f []

theorem flatMap_explode {fs : List CStr} (h : ∀ f ∈ fs, ',' ∉ f) : fs.flatMap (Web.explode ',') = fs := by
  induction fs with
  | nil => rfl
  | cons f fs ih =>
    have hf : Web.explode ',' f = [f] :=
      Web.explode_none fun c hc hcomma => h f List.mem_cons_self (hcomma ▸ hc)
    rw [List.flatMap_cons, hf, ih fun g hg => h g (List.mem_cons_of_mem _ hg)]
    rfl

theorem comma_delimSep (str : Option CStr) : ∀ a ∈ delimSepNoCpy str ',', ',' ∉ a := by
  intro a ha
  unfold delimSepNoCpy at ha
  split at ha
  · exact absurd ha List.not_mem_nil
  · exact absurd ha List.not_mem_nil
  · exact not_mem_delimLoop ha List.not_mem_nil

/-- A number has no comma. -/
theorem comma_ld (x : ℤ) : ',' ∉ ld x := fun h => ld_ne x (by decide) (by decide) ',' h rfl

namespace Line

theorem fields_ne_nil (l : Line) : l.fields ≠ [] := by
  cases l <;> simp [fields]

theorem fields_text (l : Line) :
    delimSepNoCpy (some l.text) ',' = l.fields.flatMap (Web.explode ',') := by
  have htext : l.text ≠ [] := by
    intro h
    have hparts := explode_intercalate ',' l.fields l.fields_ne_nil
    rw [show [','].intercalate l.fields = [] from h] at hparts
    cases l <;> simp [fields, Web.explode, delimLoop] at hparts
  rw [Quotes.delimSep_eq htext, text, explode_intercalate ',' _ l.fields_ne_nil]

/-- The first field, which says what kind of line it is. -/
def tag : Line → CStr
  | userCmdLog .. => "userCmd".toList
  | accTransLog .. => "accTrans".toList
  | quoteLog .. => "quote".toList

theorem fields_tag (l : Line) : ∃ args, l.fields.flatMap (Web.explode ',') = l.tag :: args := by
  cases l <;> exact ⟨_, rfl⟩

/-- What the log server adds for the line, with the room that it has for fields. -/
theorem lineElements_text (l : Line) : lineElements l.text =
    if 10 < (l.fields.flatMap (Web.explode ',')).length then []
    else (l.maker (l.fields.flatMap (Web.explode ','))).toList := by
  rw [lineElements, parse, fields_text]
  unfold logLine
  by_cases hlen : 10 < (l.fields.flatMap (Web.explode ',')).length
  · rw [if_pos hlen, if_pos hlen]
  rw [if_neg hlen, if_neg hlen]
  obtain ⟨args, hparts⟩ := l.fields_tag
  rw [hparts]
  cases l with
  | userCmdLog =>
    dsimp only [maker, tag]
    rw [if_pos rfl]
    cases userCommand ("userCmd".toList :: args) <;> rfl
  | accTransLog =>
    dsimp only [maker, tag]
    rw [if_neg (by decide), if_neg (by decide), if_pos rfl]
    cases accountTransaction ("accTrans".toList :: args) <;> rfl
  | quoteLog =>
    dsimp only [maker, tag]
    rw [if_neg (by decide), if_pos rfl]
    cases quoteServer ("quote".toList :: args) <;> rfl

/-- The third child of an element is the transaction number, as the third field of the line is. -/
theorem element_transactionNum {name : String} {always optional : List String} {type ts server a : CStr}
    {rest : List CStr} {e : Element}
    (h : element name (stamp ++ always) optional (type :: ts :: server :: a :: rest) = some e) :
    e.children[2]? = some ("transactionNum".toList, a) := by
  unfold element at h
  simp only at h
  split_ifs at h
  cases h
  rfl

theorem maker_transactionNum {l : Line} {type ts server a : CStr} {rest : List CStr} {e : Element}
    (h : l.maker (type :: ts :: server :: a :: rest) = some e) :
    e.children[2]? = some ("transactionNum".toList, a) := by
  cases l with
  | userCmdLog => exact element_transactionNum h
  | accTransLog => exact element_transactionNum h
  | quoteLog => exact element_transactionNum h

theorem entry_transactionNum {l : Line} {e : Element} (h : l.entry = some e) :
    e.children[2]? = some ("transactionNum".toList, l.transID) := by
  cases l with
  | userCmdLog =>
    cases h
    rfl
  | accTransLog =>
    cases h
    rfl
  | quoteLog ts transID rep =>
    unfold entry at h
    simp only at h
    split at h
    · cases h
      rfl
    · cases h

/-- Three fields without a comma stand before the transaction number. -/
theorem fields_eq (l : Line) : ∃ type server rest ts,
    l.fields = [type, ld ts, server] ++ l.transID :: rest ∧ ∀ f ∈ [type, ld ts, server], ',' ∉ f := by
  have hplain : ∀ ts : ℤ, ∀ type server : CStr, ',' ∉ type → ',' ∉ server →
      ∀ f ∈ [type, ld ts, server], ',' ∉ f := by
    intro ts type server htype hserver f hf
    simp only [List.mem_cons, List.not_mem_nil, or_false] at hf
    rcases hf with rfl | rfl | rfl
    · exact htype
    · exact comma_ld ts
    · exact hserver
  cases l with
  | userCmdLog ts => exact ⟨_, _, _, ts, rfl, hplain ts _ _ (by decide) (by decide)⟩
  | accTransLog ts => exact ⟨_, _, _, ts, rfl, hplain ts _ _ (by decide) (by decide)⟩
  | quoteLog ts => exact ⟨_, _, _, ts, rfl, hplain ts _ _ (by decide) (by decide)⟩

/-- A transaction number with a comma is cut at it. -/
theorem Survives.comma {l : Line} (h : l.Survives) : ',' ∉ l.transID := by
  obtain ⟨e, hentry, hline⟩ := h
  obtain ⟨type, server, rest, ts, hfields, hplain⟩ := l.fields_eq
  obtain ⟨a, more, htrans⟩ := List.exists_cons_of_ne_nil (delimLoop_ne_nil ',' l.transID [])
  have ha : ',' ∉ a := not_mem_delimLoop (htrans ▸ List.mem_cons_self) List.not_mem_nil
  have hparts : l.fields.flatMap (Web.explode ',') =
      type :: ld ts :: server :: a :: (more ++ rest.flatMap (Web.explode ',')) := by
    rw [hfields, List.flatMap_append, flatMap_explode hplain, List.flatMap_cons, Web.explode, htrans]
    rfl
  rw [lineElements_text, hparts] at hline
  split_ifs at hline with hlen
  obtain ⟨e', hmaker⟩ : ∃ e', l.maker (type :: ld ts :: server :: a ::
      (more ++ rest.flatMap (Web.explode ','))) = some e' := by
    cases hm : l.maker _ with
    | none => simp [hm] at hline
    | some e' => exact ⟨e', rfl⟩
  rw [hmaker] at hline
  have he : e' = e := List.singleton_inj.mp hline
  have hthird := (maker_transactionNum hmaker).symm.trans (he ▸ entry_transactionNum hentry)
  rw [Option.some.injEq, Prod.mk.injEq] at hthird
  exact hthird.2 ▸ ha

/-- Where no field has a comma, the line has the fields that were put into it. -/
theorem lineElements_plain {l : Line} (hplain : ∀ f ∈ l.fields, ',' ∉ f) :
    lineElements l.text = (l.maker l.fields).toList := by
  have hlen : l.fields.length ≤ 10 := by
    cases l <;> simp [fields]
  rw [lineElements_text, flatMap_explode hplain, if_neg (by omega)]

theorem survives_accTransLog (ts : ℤ) {transID action userID funds : CStr} (haction : ',' ∉ action)
    (huser : ',' ∉ userID) (hfunds : ',' ∉ funds) :
    (accTransLog ts transID action userID funds).Survives ↔ ',' ∉ transID := by
  refine ⟨Survives.comma, fun htrans => ⟨_, rfl, ?_⟩⟩
  rw [lineElements_plain]
  · rfl
  · simp only [fields, List.forall_mem_cons]
    exact ⟨by decide, comma_ld ts, by decide, htrans, haction, huser, hfunds, by simp⟩

/-- The log server leaves out what starts with a blank: exactly the blanks, where all of it is clear. -/
theorem filter_clear_iff {names values : List CStr} (hlen : values.length ≤ names.length) :
    (names.zip values).filter (fun c => c.2.head? ≠ some ' ') =
      (names.zip values).filter (fun c => c.2 ≠ spc) ↔ ∀ v ∈ values, Clear v := by
  have hspc : ∀ v : CStr, v = spc → v.head? = some ' ' := fun v h => h ▸ rfl
  constructor
  · intro heq v hv hhead
    rw [← List.map_snd_zip hlen, List.mem_map] at hv
    obtain ⟨c, hc, rfl⟩ := hv
    by_contra hne
    have hkept : c ∈ (names.zip values).filter (fun c => c.2 ≠ spc) :=
      List.mem_filter.mpr ⟨hc, by simpa using hne⟩
    rw [← heq, List.mem_filter] at hkept
    simp [hhead] at hkept
  · intro h
    refine List.filter_congr fun c hc => ?_
    have hclear := h c.2 (List.of_mem_zip hc).2
    simp only [ne_eq, decide_eq_decide]
    exact not_congr ⟨hclear, hspc c.2⟩

theorem survives_userCmdLog (ts : ℤ) {transID userCmd userID stockID file funds : CStr}
    (hcmd : ',' ∉ userCmd) (huser : ',' ∉ userID) (hstock : ',' ∉ stockID) (hfile : ',' ∉ file)
    (hfunds : ',' ∉ funds) (huser' : Clear userID) (hstock' : Clear stockID) :
    (userCmdLog ts transID userCmd userID stockID file funds).Survives ↔
      ',' ∉ transID ∧ Clear file ∧ Clear funds := by
  have hplain : ',' ∉ transID → ∀ f ∈ (userCmdLog ts transID userCmd userID stockID file funds).fields,
      ',' ∉ f := by
    intro htrans
    simp only [fields, List.forall_mem_cons]
    exact ⟨by decide, comma_ld ts, by decide, htrans, hcmd, huser, hstock, hfile, hfunds, by simp⟩
  have hclear : (∀ v ∈ [userID, stockID, file, funds], Clear v) ↔ Clear file ∧ Clear funds := by
    simp only [List.forall_mem_cons]
    exact ⟨fun h => ⟨h.2.2.1, h.2.2.2.1⟩, fun h => ⟨huser', hstock', h.1, h.2, by simp⟩⟩
  have hfilter := @filter_clear_iff (optional.map String.toList) [userID, stockID, file, funds]
    (le_refl 4)
  rw [← hclear, ← hfilter]
  constructor
  · intro h
    have htrans : ',' ∉ transID := h.comma
    obtain ⟨e, hentry, hline⟩ := h
    rw [lineElements_plain (hplain htrans)] at hline
    cases hentry
    have hchildren := congrArg Element.children (List.singleton_inj.mp hline)
    exact ⟨htrans, List.append_cancel_left hchildren⟩
  · rintro ⟨htrans, heq⟩
    refine ⟨_, rfl, ?_⟩
    rw [lineElements_plain (hplain htrans), ← heq]
    rfl

theorem survives_quoteLog (ts : ℤ) (transID rep : CStr) :
    (quoteLog ts transID rep).Survives ↔ ',' ∉ transID ∧ rep.count ',' = 4 := by
  have hcount : (Web.explode ',' rep).length = rep.count ',' + 1 := length_delimLoop ',' rep []
  constructor
  · intro h
    have htrans : ',' ∉ transID := h.comma
    obtain ⟨e, hentry, -⟩ := h
    refine ⟨htrans, ?_⟩
    unfold entry at hentry
    simp only at hentry
    split at hentry
    · rename_i heq
      rw [heq] at hcount
      exact (Nat.succ_injective hcount).symm
    · cases hentry
  · rintro ⟨htrans, hfour⟩
    rw [hfour] at hcount
    obtain ⟨price, rest, hrep⟩ := List.exists_cons_of_length_eq_add_one hcount
    rw [hrep, List.length_cons] at hcount
    obtain ⟨sym, user, qts, key, rfl⟩ := List.length_eq_four.mp (Nat.succ_injective hcount)
    have hparts : (quoteLog ts transID rep).fields.flatMap (Web.explode ',') =
        ["quote".toList, ld ts, "LOAD1".toList, transID] ++ [price, sym, user, qts, key] := by
      have hplain : ∀ f ∈ ["quote".toList, ld ts, "LOAD1".toList, transID], ',' ∉ f := by
        simp only [List.forall_mem_cons]
        exact ⟨by decide, comma_ld ts, by decide, htrans, by simp⟩
      rw [show (quoteLog ts transID rep).fields =
        ["quote".toList, ld ts, "LOAD1".toList, transID] ++ [rep] from rfl, List.flatMap_append,
        flatMap_explode hplain, List.flatMap_singleton, hrep]
    have hentry : (quoteLog ts transID rep).entry = some ⟨"quoteServer".toList,
        ((stamp ++ ["price", "stockSymbol", "username", "quoteServerTime", "cryptokey"]).map
          String.toList).zip [ld ts, "LOAD1".toList, transID, price, sym, user, qts, key]⟩ := by
      unfold entry
      simp only [hrep]
    refine ⟨_, hentry, ?_⟩
    rw [lineElements_text, hparts, if_neg (by simp)]
    rfl

end Line

/-! ### The lines of a command -/

/-- The fields of a line of the transaction server; the one that passes a DUMPLOG on is for no element. -/
def line : LogLine → Option Line
  | .userCmd ts transID userCmd userID stockID file funds =>
    some (.userCmdLog ts transID userCmd userID.str stockID file funds)
  | .accTrans ts transID action userID funds => some (.accTransLog ts transID action userID.str funds)
  | .dumplog _ _ => none

/-- What a command puts into its lines. -/
def Emitted (transID : CStr) (comm : List CStr) : LogLine → Prop
  | .userCmd _ transID' userCmd _ stockID file funds =>
    transID' = transID ∧ (∀ f ∈ [userCmd, stockID, file, funds], ',' ∉ f) ∧ Clear stockID ∧
      (Clear file ∧ Clear funds ↔ ∀ a ∈ comm, Clear a)
  | .accTrans _ transID' action _ funds => transID' = transID ∧ ',' ∉ action ∧ ',' ∉ funds
  | .dumplog _ _ => True

/-- The line is one that fields are left out of. -/
def Line.omits : Line → Bool
  | .userCmdLog .. => true
  | .accTransLog .. | .quoteLog .. => false

theorem comma_userID (u : UserID) : ',' ∉ u.str := fun h =>
  ne_of_alnum (by decide) (List.all_eq_true.mp u.all_isAlnum ',' h) rfl

theorem clear_userID (u : UserID) : Clear u.str := by
  intro h
  have hmem := List.all_eq_true.mp u.all_isAlnum ' ' (List.mem_of_mem_head? h)
  exact absurd hmem (by decide)

theorem Emitted.transID {transID : CStr} {comm : List CStr} {l : LogLine} {x : Line}
    (h : Emitted transID comm l) (hx : line l = some x) : x.transID = transID := by
  cases l with
  | userCmd =>
    cases hx
    exact h.1
  | accTrans =>
    cases hx
    exact h.1
  | dumplog => cases hx

theorem Emitted.survives_iff {transID : CStr} {comm : List CStr} {l : LogLine} {x : Line}
    (h : Emitted transID comm l) (hx : line l = some x) :
    x.Survives ↔ ',' ∉ transID ∧ (x.omits → ∀ a ∈ comm, Clear a) := by
  cases l with
  | userCmd ts transID' userCmd userID stockID file funds =>
    cases hx
    obtain ⟨rfl, hplain, hstock, hclear⟩ := h
    simp only [List.forall_mem_cons] at hplain
    obtain ⟨hcmd, hstock', hfile, hfunds, -⟩ := hplain
    rw [Line.survives_userCmdLog ts hcmd (comma_userID userID) hstock' hfile hfunds
      (clear_userID userID) hstock, hclear]
    exact and_congr_right' ⟨fun h _ => h, fun h => h rfl⟩
  | accTrans ts transID' action userID funds =>
    cases hx
    obtain ⟨rfl, haction, hfunds⟩ := h
    rw [Line.survives_accTransLog ts haction (comma_userID userID) hfunds]
    exact ⟨fun h => ⟨h, fun h' => Bool.noConfusion h'⟩, fun h => h.1⟩
  | dumplog userID file => cases hx

/-! ### A run -/

/-- The numbers of the triggers and of their rows are among `T`, and the lines among `L`. -/
structure Sourced (T : CStr → Prop) (L : LogLine → Prop) (s : Server) : Prop where
  objs : ∀ {t tr}, s.mem.obj t = some tr → T tr.transID
  rows : ∀ r ∈ s.db.triggers, T r.transID
  logs : ∀ l ∈ s.logs, L l

section Sourced
variable {T : CStr → Prop} {L : LogLine → Prop} {s s' : Server}

theorem rows_exec {db db' : Db} {st : Stmt} (h : ∀ r ∈ db.triggers, T r.transID)
    (hst : ∀ u tid stockID type funds value, st = .insertTrig u tid stockID type funds value → T tid)
    (hexec : db.exec st = some db') : ∀ r ∈ db'.triggers, T r.transID := by
  cases st with
  | insertAcct u bal =>
    obtain ⟨x, -, rfl⟩ := Option.map_eq_some_iff.mp hexec
    split_ifs <;> exact h
  | updateBal bal u =>
    obtain ⟨x, -, rfl⟩ := Option.map_eq_some_iff.mp hexec
    exact h
  | insertStk u st n =>
    cases hexec
    exact h
  | updateStk n u st =>
    cases hexec
    exact h
  | insertTran u tid st adj ts c =>
    obtain ⟨x, -, rfl⟩ := Option.map_eq_some_iff.mp hexec
    exact h
  | insertTrig u tid st ty funds value =>
    obtain ⟨f, -, hexec⟩ := Option.bind_eq_some_iff.mp hexec
    obtain ⟨v, -, rfl⟩ := Option.map_eq_some_iff.mp hexec
    intro r hr
    rcases List.mem_append.mp hr with hr | hr
    · exact h r hr
    · rw [List.mem_singleton.mp hr]
      exact hst _ _ _ _ _ _ rfl
  | updateTrig value u st ty =>
    obtain ⟨v, -, rfl⟩ := Option.map_eq_some_iff.mp hexec
    intro r hr
    obtain ⟨r', hr', rfl⟩ := List.mem_map.mp hr
    split_ifs
    · exact h r' hr'
    · exact h r' hr'
  | deleteTrig u st ty =>
    cases hexec
    exact fun r hr => h r (List.mem_of_mem_filter hr)

theorem rows_foldlM : ∀ {req : List Stmt} {db db' : Db}, (∀ r ∈ db.triggers, T r.transID) →
    (∀ u tid stockID type funds value, .insertTrig u tid stockID type funds value ∈ req → T tid) →
    req.foldlM Db.exec db = some db' → ∀ r ∈ db'.triggers, T r.transID := by
  intro req
  induction req with
  | nil =>
    intro db db' h _ hrun
    cases hrun
    exact h
  | cons st req ih =>
    intro db db' h hreq hrun
    rw [List.foldlM_cons] at hrun
    obtain ⟨db₁, hexec, hrun⟩ := Option.bind_eq_some_iff.mp hrun
    have h₁ := rows_exec h (fun u tid stockID type funds value hst =>
      hreq u tid stockID type funds value (hst ▸ List.mem_cons_self)) hexec
    exact ih h₁ (fun u tid stockID type funds value hst =>
      hreq u tid stockID type funds value (List.mem_cons_of_mem _ hst)) hrun

theorem Sourced.of_eq (h : Sourced T L s) (hobj : s'.mem.obj = s.mem.obj) (hdb : s'.db = s.db)
    (hlogs : s'.logs = s.logs) : Sourced T L s' :=
  ⟨fun hs => h.objs (hobj ▸ hs), hdb ▸ h.rows, hlogs ▸ h.logs⟩

theorem Sourced.lenq (h : Sourced T L s) {l : LogLine} (hl : L l) : Sourced T L (s.lenq l) where
  objs hs := h.objs hs
  rows := h.rows
  logs l' hl' := by
    rcases List.mem_append.mp hl' with hl' | hl'
    · exact h.logs l' hl'
    · exact List.mem_singleton.mp hl' ▸ hl

/-- Only `insertTrig` makes a row with a number. -/
theorem Sourced.dbenq (h : Sourced T L s) {req : List Stmt}
    (hreq : ∀ u tid stockID type funds value, .insertTrig u tid stockID type funds value ∈ req → T tid) :
    Sourced T L (s.dbenq req) where
  objs hs := h.objs hs
  rows := by
    simp only [Server.dbenq, Db.run]
    cases hrun : req.foldlM Db.exec s.db with
    | none => exact h.rows
    | some db' => exact rows_foldlM h.rows hreq hrun
  logs := h.logs

theorem Sourced.setUser (h : Sourced T L s) (u : UserID) (usr : User) : Sourced T L (s.setUser u usr) :=
  h.of_eq rfl rfl rfl

theorem Sourced.settle (h : Sourced T L s) (u : UserID) (x : Settlement) : Sourced T L (s.settle u x) :=
  h.of_eq rfl rfl rfl

theorem Sourced.setQuote (h : Sourced T L s) (st : StockID) (q : Quote) : Sourced T L (s.setQuote st q) :=
  h.of_eq rfl rfl rfl

theorem Sourced.findStock (h : Sourced T L s) (st : StockID) : Sourced T L (s.findStock st) := by
  unfold Server.findStock
  split_ifs
  · exact h
  · exact h.of_eq rfl rfl rfl

theorem Sourced.freshQuote (h : Sourced T L s) (c : Cmd) (st : StockID) :
    Sourced T L (s.freshQuote c st) := by
  unfold Server.freshQuote
  split_ifs
  · exact h.setQuote st c.quote
  · exact h

theorem Sourced.setMem (h : Sourced T L s) {m : Mem} {t : TrigID} {tr? : Option Trigger}
    (hm : m.obj = Function.update s.mem.obj t tr?) (htr : ∀ tr ∈ tr?, T tr.transID) :
    Sourced T L { s with mem := m } where
  objs {t' tr'} hs := by
    have hs' : Function.update s.mem.obj t tr? t' = some tr' := hm ▸ hs
    by_cases ht : t' = t
    · rw [ht, Function.update_self] at hs'
      exact htr tr' hs'
    · rw [Function.update_of_ne ht] at hs'
      exact h.objs hs'
  rows := h.rows
  logs := h.logs

theorem Sourced.addTrigger (h : Sourced T L s) {tid : CStr} (htid : T tid) (u : UserID) (st : StockID)
    (ty : TType) (amount trig : ℤ) :
    Sourced T L { s with mem := (s.mem.addTrigger u tid st ty amount trig).1 } := by
  rcases obj_addTrigger s.mem u tid st ty amount trig with hsame | ⟨path, hnew⟩
  · exact h.of_eq hsame rfl rfl
  · exact h.setMem hnew fun tr htr => by
      cases htr
      exact htid

theorem Sourced.removeTrigger (h : Sourced T L s) {t : TrigID} {r : Mem × List (Path × Node TrigID)}
    (hr : s.mem.removeTrigger t = some r) : Sourced T L { s with mem := r.1 } :=
  h.setMem (obj_removeTrigger hr) fun _ htr => by cases htr

end Sourced

/-! ### What the branches put into their lines -/

section Emitted
variable {c : Cmd} (hcmd : ',' ∉ c.userCmd)

theorem clear_spc : Clear spc := fun _ => rfl

theorem comma_price2str (x : ℤ) : ',' ∉ price2str x := by
  unfold price2str
  dsimp only
  have hdollars := comma_ld (x.tdiv 100)
  have hcents := comma_ld (x - x.tdiv 100 * 100)
  split_ifs
  · simp only [List.mem_append, not_or]
    exact ⟨⟨hdollars, by decide⟩, hcents⟩
  · simp only [List.mem_append, not_or]
    exact ⟨⟨hdollars, by decide⟩, hcents⟩

theorem toStockID_eq_some {str : CStr} {st : StockID} (h : toStockID str = some st) : st.str = str := by
  unfold toStockID at h
  split_ifs at h
  cases h
  rfl

/-- A stock's name has no comma and does not start with a blank. -/
theorem plain_stock {str : CStr} {st : StockID} (h : toStockID str = some st) :
    ',' ∉ str ∧ Clear str := by
  have hupper := List.all_eq_true.mp st.all_isUpper
  rw [toStockID_eq_some h] at hupper
  refine ⟨fun hmem => ne_of_upper (by decide) (hupper ',' hmem) rfl, fun hhead => ?_⟩
  exact absurd (hupper ' ' (List.mem_of_mem_head? hhead)) (by decide)

include hcmd

theorem emitted_logLine {comm : List CStr} {stockID file funds : CStr} (hstock : ',' ∉ stockID)
    (hfile : ',' ∉ file) (hfunds : ',' ∉ funds) (hclear : Clear stockID)
    (hcomm : Clear file ∧ Clear funds ↔ ∀ a ∈ comm, Clear a) :
    Emitted c.transID comm (c.logLine stockID file funds) := by
  refine ⟨rfl, ?_, hclear, hcomm⟩
  simp only [List.forall_mem_cons]
  exact ⟨hcmd, hstock, hfile, hfunds, by simp⟩

theorem emitted_none : Emitted c.transID [] (c.logLine spc spc spc) :=
  emitted_logLine hcmd (by decide) (by decide) (by decide) clear_spc (by simp [clear_spc])

theorem emitted_stock {stk : CStr} {st : StockID} (hst : toStockID stk = some st) :
    Emitted c.transID [stk] (c.logLine stk spc spc) :=
  emitted_logLine hcmd (plain_stock hst).1 (by decide) (by decide) (plain_stock hst).2
    (by simp [clear_spc, (plain_stock hst).2])

theorem emitted_file {file : CStr} (hfile : ',' ∉ file) :
    Emitted c.transID [file] (c.logLine spc file spc) :=
  emitted_logLine hcmd (by decide) hfile (by decide) clear_spc (by simp [clear_spc])

theorem emitted_funds {amt : CStr} (hamt : ',' ∉ amt) : Emitted c.transID [amt] (c.logLine spc spc amt) :=
  emitted_logLine hcmd (by decide) (by decide) hamt clear_spc (by simp [clear_spc])

theorem emitted_order {stk amt : CStr} {st : StockID} (hst : toStockID stk = some st) (hamt : ',' ∉ amt) :
    Emitted c.transID [stk, amt] (c.logLine stk spc amt) :=
  emitted_logLine hcmd (plain_stock hst).1 (by decide) hamt (plain_stock hst).2
    (by simp [clear_spc, (plain_stock hst).2])

omit hcmd in
theorem emitted_accTrans (c : Cmd) (comm : List CStr) {action : String} {funds : CStr}
    (haction : ',' ∉ action.toList) (hfunds : ',' ∉ funds) :
    Emitted c.transID comm (c.accTrans action funds) := ⟨rfl, haction, hfunds⟩

end Emitted

/-! ### Commands -/

section Commands
variable {T : CStr → Prop} {L : LogLine → Prop} {w : ℤ → ℤ} {s : Server} {c : Cmd} {cUser : User}
  (h : Sourced T L s) (hcmd : ',' ∉ c.userCmd)
include h hcmd

theorem sourced_add {amt : CStr} (hamt : ',' ∉ amt) (hl : ∀ l, Emitted c.transID [amt] l → L l) :
    Sourced T L (Command.add w s c cUser amt).1 := by
  unfold Command.add
  dsimp only
  split_ifs
  · exact h
  · have hlog := h.lenq (hl _ (emitted_funds hcmd hamt))
    refine .dbenq (.settle (.lenq (hlog.setUser _ _) (hl _ ?_)) _ _) (by simp [Cmd.insertTran])
    exact emitted_accTrans c _ (by decide) hamt

theorem sourced_quote {stk : CStr} (hl : ∀ l, Emitted c.transID [stk] l → L l) :
    Sourced T L (Command.quote s c stk).1 := by
  unfold Command.quote
  split
  · exact h
  rename_i st hst
  have hfind := (h.lenq (hl _ (emitted_stock hcmd hst))).findStock st
  dsimp only
  split_ifs
  · exact hfind.setQuote st c.quote
  · exact hfind

theorem sourced_buy {stk amt : CStr} (hamt : ',' ∉ amt)
    (hl : ∀ l, Emitted c.transID [stk, amt] l → L l) :
    Sourced T L (Command.buy w s c cUser stk amt).1 := by
  unfold Command.buy
  split
  · exact h
  rename_i st hst
  dsimp only
  have hlog := h.lenq (hl _ (emitted_order hcmd hst hamt))
  have hquote := (hlog.findStock st).freshQuote c st
  split_ifs
  · exact h
  · exact hlog
  · exact hlog
  · exact hquote
  · exact hquote
  · exact hquote.setUser _ _

theorem sourced_commitBuy (hl : ∀ l, Emitted c.transID [] l → L l) {r : Server × Reply}
    (hr : Command.commitBuy w s c cUser = some r) : Sourced T L r.1 := by
  unfold Command.commitBuy at hr
  dsimp only at hr
  have hlog := h.lenq (hl _ (emitted_none hcmd))
  split_ifs at hr
  · cases hr
    exact hlog
  · cases hr
    exact hlog.setUser _ _
  · split at hr
    · cases hr
    · cases hr
      refine .setUser (.dbenq (.settle (.lenq hlog (hl _ ?_)) _ _) ?_) _ _
      · exact emitted_accTrans c _ (by decide) (comma_price2str _)
      · unfold takeStock
        split <;> simp [Cmd.insertTran]

theorem sourced_cancelOrder (side : ℤ) (hl : ∀ l, Emitted c.transID [] l → L l) :
    Sourced T L (Command.cancelOrder s c cUser side).1 := by
  unfold Command.cancelOrder
  dsimp only
  have hlog := h.lenq (hl _ (emitted_none hcmd))
  split_ifs
  · exact hlog
  · exact hlog.setUser _ _

theorem sourced_sell {stk amt : CStr} (hamt : ',' ∉ amt)
    (hl : ∀ l, Emitted c.transID [stk, amt] l → L l) :
    Sourced T L (Command.sell w s c cUser stk amt).1 := by
  unfold Command.sell
  split
  · exact h
  rename_i st hst
  dsimp only
  have hlog := (h.lenq (hl _ (emitted_order hcmd hst hamt))).findStock st
  have hquote := hlog.freshQuote c st
  by_cases hprc : str2price w amt = -1
  · rw [if_pos hprc]
    exact h
  rw [if_neg hprc]
  split
  · exact hlog
  · split_ifs
    · exact hlog
    · exact hlog
    · exact hquote
    all_goals exact hquote.setUser _ _

theorem sourced_commitSell (hl : ∀ l, Emitted c.transID [] l → L l) {r : Server × Reply}
    (hr : Command.commitSell w s c cUser = some r) : Sourced T L r.1 := by
  unfold Command.commitSell at hr
  dsimp only at hr
  have hlog := h.lenq (hl _ (emitted_none hcmd))
  split_ifs at hr
  · cases hr
    exact hlog
  · cases hr
    exact hlog.setUser _ _
  · split at hr
    · cases hr
    · split at hr
      · cases hr
        exact hlog
      · cases hr
        refine .setUser (.dbenq (.settle (.lenq hlog (hl _ ?_)) _ _) (by simp [Cmd.insertTran])) _ _
        exact emitted_accTrans c _ (by decide) (comma_price2str _)

theorem sourced_setBuyAmount (ht : T c.transID) {stk amt : CStr} (hamt : ',' ∉ amt)
    (hl : ∀ l, Emitted c.transID [stk, amt] l → L l) :
    Sourced T L (Command.setBuyAmount w s c cUser stk amt).1 := by
  unfold Command.setBuyAmount
  split
  · exact h
  rename_i st hst
  dsimp only
  have hlog := h.lenq (hl _ (emitted_order hcmd hst hamt))
  have hfind := hlog.findStock st
  split_ifs
  · exact h
  · exact hlog
  · exact hlog
  · split
    · exact hfind
    · refine .dbenq (.addTrigger (.lenq (hfind.setUser _ _) (hl _ ?_)) ht _ _ _ _ _) ?_
      · exact emitted_accTrans c _ (by decide) hamt
      · intro u tid stockID type funds value hmem
        simp only [List.mem_cons, List.not_mem_nil, or_false, reduceCtorEq, false_or,
          Stmt.insertTrig.injEq] at hmem
        exact hmem.2.1 ▸ ht

theorem sourced_cancelSetBuy {stk : CStr} (hl : ∀ l, Emitted c.transID [stk] l → L l)
    {r : Server × Reply} (hr : Command.cancelSetBuy w s c cUser stk = some r) : Sourced T L r.1 := by
  unfold Command.cancelSetBuy at hr
  split at hr
  · cases hr
    exact h
  rename_i st hst
  dsimp only at hr
  have hfind := (h.lenq (hl _ (emitted_stock hcmd hst))).findStock st
  split at hr
  · cases hr
    exact hfind
  · obtain ⟨tr, -, hr⟩ := Option.bind_eq_some_iff.mp hr
    obtain ⟨rm, hrem, rfl⟩ := Option.map_eq_some_iff.mp hr
    refine .dbenq (.lenq (.removeTrigger (hfind.setUser _ _) hrem) (hl _ ?_)) (by simp)
    exact emitted_accTrans c _ (by decide) (comma_price2str _)

theorem sourced_setTrigger {type : TType} {stk amt : CStr} (hamt : ',' ∉ amt)
    (hl : ∀ l, Emitted c.transID [stk, amt] l → L l) :
    Sourced T L (Command.setTrigger w s c type stk amt).1 := by
  unfold Command.setTrigger
  split
  · exact h
  rename_i st hst
  dsimp only
  have hfind := (h.lenq (hl _ (emitted_order hcmd hst hamt))).findStock st
  split_ifs
  · exact h
  · split
    · exact hfind
    · refine .dbenq (.setMem hfind rfl fun tr' htr' => ?_) (by simp)
      obtain ⟨tr, htr, rfl⟩ := Option.map_eq_some_iff.mp (Option.mem_def.mp htr')
      have htid := hfind.objs htr
      exact htid

theorem sourced_setSellAmount (ht : T c.transID) {stk amt : CStr} (hamt : ',' ∉ amt)
    (hl : ∀ l, Emitted c.transID [stk, amt] l → L l) :
    Sourced T L (Command.setSellAmount w s c cUser stk amt).1 := by
  unfold Command.setSellAmount
  split
  · exact h
  rename_i st hst
  dsimp only
  have hlog := h.lenq (hl _ (emitted_order hcmd hst hamt))
  have hfind := hlog.findStock st
  split_ifs
  · exact h
  · exact hlog
  · exact hfind
  · exact hfind
  · refine .dbenq (.addTrigger hfind ht _ _ _ _ _) ?_
    intro u tid stockID type funds value hmem
    simp only [List.mem_singleton, Stmt.insertTrig.injEq] at hmem
    exact hmem.2.1 ▸ ht

theorem sourced_cancelSetSell {stk : CStr} (hl : ∀ l, Emitted c.transID [stk] l → L l)
    {r : Server × Reply} (hr : Command.cancelSetSell s c stk = some r) : Sourced T L r.1 := by
  unfold Command.cancelSetSell at hr
  split at hr
  · cases hr
    exact h
  rename_i st hst
  dsimp only at hr
  have hfind := (h.lenq (hl _ (emitted_stock hcmd hst))).findStock st
  split at hr
  · cases hr
    exact hfind
  · obtain ⟨rm, hrem, rfl⟩ := Option.map_eq_some_iff.mp hr
    exact .dbenq (.removeTrigger hfind hrem) (by simp)

theorem sourced_dumplog {file : CStr} (hfile : ',' ∉ file)
    (hl : ∀ l, Emitted c.transID [file] l → L l) : Sourced T L (Command.dumplog s c file).1 := by
  unfold Command.dumplog
  split_ifs
  · exact h
  · exact .lenq (h.lenq (hl _ (emitted_file hcmd hfile))) (hl _ trivial)

omit hcmd in
theorem sourced_displaySummary (hcmd : ',' ∉ c.userCmd) (hl : ∀ l, Emitted c.transID [] l → L l) :
    Sourced T L (Command.displaySummary s c cUser).1 := h.lenq (hl _ (emitted_none hcmd))

omit hcmd in
theorem sourced_dispatch (ht : T c.transID) {comm : List CStr} (hcomm : ∀ a ∈ comm, ',' ∉ a)
    (hl : ∀ l, Emitted c.transID comm l → L l) {r : Server × Reply}
    (hr : Command.dispatch w s c cUser comm = some r) : Sourced T L r.1 := by
  have hname : ∀ {name : CStr}, c.userCmd = name → ',' ∉ name → ',' ∉ c.userCmd := fun heq hno => heq ▸ hno
  cases Command.dispatched hr with
  | commitBuy hcmd hr => exact sourced_commitBuy h (hname hcmd (by decide)) hl hr
  | cancelBuy hcmd => exact sourced_cancelOrder h (hname hcmd (by decide)) 1 hl
  | commitSell hcmd hr => exact sourced_commitSell h (hname hcmd (by decide)) hl hr
  | cancelSell hcmd => exact sourced_cancelOrder h (hname hcmd (by decide)) (-1) hl
  | displaySummary hcmd => exact sourced_displaySummary h (hname hcmd (by decide)) hl
  | add hcmd => exact sourced_add h (hname hcmd (by decide)) (hcomm _ (by simp)) hl
  | quote hcmd => exact sourced_quote h (hname hcmd (by decide)) hl
  | cancelSetBuy hcmd hr => exact sourced_cancelSetBuy h (hname hcmd (by decide)) hl hr
  | cancelSetSell hcmd hr => exact sourced_cancelSetSell h (hname hcmd (by decide)) hl hr
  | dumplog hcmd => exact sourced_dumplog h (hname hcmd (by decide)) (hcomm _ (by simp)) hl
  | buy hcmd => exact sourced_buy h (hname hcmd (by decide)) (hcomm _ (by simp)) hl
  | sell hcmd => exact sourced_sell h (hname hcmd (by decide)) (hcomm _ (by simp)) hl
  | setBuyAmount hcmd => exact sourced_setBuyAmount h (hname hcmd (by decide)) ht (hcomm _ (by simp)) hl
  | setBuyTrigger hcmd => exact sourced_setTrigger h (hname hcmd (by decide)) (hcomm _ (by simp)) hl
  | setSellAmount hcmd => exact sourced_setSellAmount h (hname hcmd (by decide)) ht (hcomm _ (by simp)) hl
  | setSellTrigger hcmd => exact sourced_setTrigger h (hname hcmd (by decide)) (hcomm _ (by simp)) hl
  | badcmd _ => exact h

end Commands

/-! ### Other steps -/

section Steps
variable {T : CStr → Prop} {L : LogLine → Prop} {w : ℤ → ℤ} {s s' : Server}

theorem sourced_consume (h : Sourced T L s) {t : TrigID} {tr : Trigger} {req : List Stmt}
    (hreq : ∀ u tid stockID type funds value, .insertTrig u tid stockID type funds value ∉ req)
    (hr : s.consume t tr req = some s') : Sourced T L s' := by
  obtain ⟨r, hrem, rfl⟩ := Option.map_eq_some_iff.mp hr
  refine .dbenq (h.removeTrigger hrem) fun u tid stockID type funds value hmem => ?_
  rcases List.mem_append.mp hmem with hmem | hmem
  · exact absurd hmem (hreq _ _ _ _ _ _)
  · simp at hmem

/-- A firing writes a line with the number of its trigger. -/
theorem sourced_examine (h : Sourced T L s) {t : TrigID} {p now : ℤ}
    (hl : ∀ tid, T tid → ∀ l, (∀ comm, Emitted tid comm l) → L l)
    (hr : Sweep.examine w s t p now = some s') : Sourced T L s' := by
  obtain ⟨tr, htr, hr⟩ := Option.bind_eq_some_iff.mp hr
  obtain ⟨cUser, -, hr⟩ := Option.bind_eq_some_iff.mp hr
  have htid : T tr.transID := h.objs htr
  have hacc : ∀ action : String, ∀ x : ℤ, ',' ∉ action.toList →
      L (.accTrans now tr.transID action.toList tr.userObj (price2str x)) := fun action x haction =>
    hl tr.transID htid _ fun comm => ⟨rfl, haction, comma_price2str x⟩
  dsimp only at hr
  split at hr
  · split_ifs at hr
    · unfold Sweep.fireBuy at hr
      dsimp only at hr
      split_ifs at hr
      · cases hr
        exact h
      · refine sourced_consume (.setUser (.settle (h.lenq (hacc "remove" _ (by decide))) _ _) _ _) ?_ hr
        intro u tid stockID type funds value
        unfold takeStock
        split <;> simp
    · cases hr
      exact h
  · split_ifs at hr
    · unfold Sweep.fireSell at hr
      dsimp only at hr
      split at hr
      · cases hr
        exact h
      · split_ifs at hr
        · cases hr
          exact h
        all_goals
          exact sourced_consume (.setUser (.settle (h.lenq (hacc "add" _ (by decide))) _ _) _ _)
            (by simp) hr
    · cases hr
      exact h

theorem sourced_loadTriggers : ∀ {rows : List (CStr × StockID × TType × ℤ × ℤ)} {s : Server},
    Sourced T L s → (∀ r ∈ rows, T r.1) → ∀ u : UserID,
      Sourced T L (rows.foldl (fun s (tID, stockID, buysell, amountPrc, trigPrc) =>
        let s := s.findStock stockID
        { s with mem := (s.mem.addTrigger u tID stockID buysell amountPrc trigPrc).1 }) s)
  | [], _, h, _, _ => h
  | (tID, stockID, buysell, amountPrc, trigPrc) :: rows, s, h, hrows, u => by
    have hadd := (h.findStock stockID).addTrigger (hrows _ List.mem_cons_self) u stockID buysell amountPrc
      trigPrc
    exact sourced_loadTriggers hadd (fun r hr => hrows r (List.mem_cons_of_mem _ hr)) u

theorem sourced_loadStocks : ∀ {stocks : List (StockID × ℤ)} {s : Server}, Sourced T L s →
    Sourced T L (stocks.foldl (fun s (stockID, _) => s.findStock stockID) s) := by
  intro stocks
  induction stocks with
  | nil =>
    intro s h
    exact h
  | cons stock stocks ih =>
    intro s h
    have hfind := h.findStock stock.1
    exact ih hfind

theorem sourced_addUser (h : Sourced T L s) (u : UserID) : Sourced T L (addUser w s u) := by
  unfold addUser
  dsimp only
  have hrows : ∀ r ∈ s.db.loadTriggers w u, T r.1 := by
    intro r hr
    obtain ⟨row, hrow, rfl⟩ := List.mem_map.mp hr
    exact h.rows row (List.mem_of_mem_filter hrow)
  have htriggers := sourced_loadTriggers h hrows u
  exact .dbenq (.setUser (sourced_loadStocks htriggers) _ _) (by simp)

end Steps

/-- A line of the run is one of a command of the run, as its number says. -/
def From (es : List TradeC.Event) (l : LogLine) : Prop :=
  ∃ c commStr, .command c commStr ∈ es ∧ Emitted c.transID (delimSepNoCpy commStr ',') l

/-- A trigger is one that a command of the run has set. -/
def Numbered (es : List TradeC.Event) (tid : CStr) : Prop :=
  ∃ c commStr, .command c commStr ∈ es ∧ tid = c.transID

theorem step_sourced (w : ℤ → ℤ) {es : List TradeC.Event} {s s' : Server} {e : TradeC.Event} (he : e ∈ es)
    (h : Sourced (Numbered es) (From es) s) (hstep : TradeC.step w s e = some s') :
    Sourced (Numbered es) (From es) s' := by
  cases e with
  | connect u =>
    rw [TradeC.step] at hstep
    split_ifs at hstep
    cases hstep
    exact sourced_addUser h u
  | command c commStr =>
    obtain ⟨r, hr, rfl⟩ := Option.map_eq_some_iff.mp hstep
    obtain ⟨cUser, -, hr⟩ := Option.bind_eq_some_iff.mp hr
    exact sourced_dispatch h ⟨c, commStr, he, rfl⟩ (comma_delimSep _) (fun l hl => ⟨c, commStr, he, hl⟩) hr
  | quote st q =>
    cases hstep
    exact h.setQuote st q
  | examine t p now =>
    rw [TradeC.step] at hstep
    split_ifs at hstep
    refine sourced_examine h ?_ hstep
    rintro tid ⟨c, commStr, hc, rfl⟩ l hl
    exact ⟨c, commStr, hc, hl _⟩

theorem run_sourced (w : ℤ → ℤ) {es : List TradeC.Event} {s : Server}
    (hrun : exec (TradeC.step w) Server.init es = some s) : Sourced (Numbered es) (From es) s := by
  have hinit : Sourced (Numbered es) (From es) Server.init := by
    refine ⟨fun h => ?_, fun r hr => ?_, fun l hl => ?_⟩
    · cases h
    · exact absurd hr List.not_mem_nil
    · exact absurd hl List.not_mem_nil
  exact exec_inv_along (fun s e s' h (he : e ∈ es) hstep => step_sourced w he h hstep) es Server.init s hinit
    (along_forall es Server.init fun e he _ => he) hrun

/-! ### Messages -/

section Messages
variable {b b' v : ConnBuf} {bytes : List Char} {transID : CStr}

theorem mem_takeWhile_set {x : Char} : ∀ {l : List Char} {i : ℕ},
    x ∈ (l.set i nul).takeWhile (· ≠ nul) → x ∈ l.takeWhile (· ≠ nul)
  | [], _, h => h
  | c :: l, 0, h => by
    rw [List.set_cons_zero, List.takeWhile_cons_of_neg (by simp)] at h
    exact absurd h List.not_mem_nil
  | c :: l, i + 1, h => by
    rw [List.set_cons_succ] at h
    by_cases hc : c = nul
    · rw [List.takeWhile_cons_of_neg (by simpa using hc)] at h
      exact absurd h List.not_mem_nil
    · rw [List.takeWhile_cons_of_pos (by simpa using hc)] at h ⊢
      rcases List.mem_cons.mp h with rfl | h
      · exact List.mem_cons_self
      · exact List.mem_cons_of_mem _ (mem_takeWhile_set h)

/-- A NUL that is written into the buffer only cuts strings. -/
theorem mem_cstr_set {buf : List Char} {o i : ℕ} {x : Char} (hx : x ∈ cstr (buf.set i nul) o) :
    x ∈ cstr buf o := by
  rw [cstr, List.drop_set] at hx
  split_ifs at hx
  · exact hx
  · exact mem_takeWhile_set hx

theorem mem_sepUser {i : ℕ} {str : CStr} (hi : i ≠ 4) (h : v.sepUser.str i = some str) :
    ∃ str', v.str i = some str' ∧ ∀ x ∈ str, x ∈ str' := by
  rw [ConnBuf.str, Bounds.sepUser_ptr v hi] at h
  obtain ⟨o, ho, rfl⟩ := Option.map_eq_some_iff.mp h
  refine ⟨cstr v.clientMessage o, by rw [ConnBuf.str, ho]; rfl, fun x hx => ?_⟩
  unfold ConnBuf.sepUser at hx
  split at hx
  · exact hx
  · dsimp only at hx
    split_ifs at hx
    · exact mem_cstr_set hx
    · exact hx

/-- The path of a DUMPLOG ends at the first comma. -/
theorem comma_sepUser {file : CStr} (h : v.sepUser.str 3 = some file) : ',' ∉ file := by
  rw [ConnBuf.str, Bounds.sepUser_ptr v (by decide)] at h
  obtain ⟨o, ho, rfl⟩ := Option.map_eq_some_iff.mp h
  rw [ConnBuf.sepUser, ho]
  dsimp only
  split_ifs with hcomma
  · obtain ⟨hsplit, hix⟩ := split_at_first ',' hcomma
    rw [hix, (Bounds.cstr_set hsplit).1]
    intro hmem
    have hne := List.all_eq_true.mp List.all_takeWhile ',' hmem
    exact absurd hne (by decide)
  · exact hcomma

/-- The second field of a message is read where the message is. -/
theorem read_transID {messageLen : ℕ} (hread : b.read bytes = some (v, messageLen)) (hlen : 1 < messageLen)
    (h : v.str 1 = some transID) : ∀ x ∈ transID, x ≠ '|' := by
  obtain ⟨r, hr, hread'⟩ := b.read_eq bytes
  rw [hread] at hread'
  split_ifs at hread'
  rw [Option.some.injEq, Prod.mk.injEq] at hread'
  obtain ⟨rfl, rfl⟩ := hread'
  have hfield := cstr_field (p := []) hr (fieldsOf_ne_nul bytes)
    ((b.message.set 4 none).drop (fieldsOf bytes).length) hlen
  have hmem : transID ∈ fieldsOf bytes := List.mem_of_getElem? (hfield.symm.trans h)
  rintro x hx rfl
  unfold fieldsOf delimSepNoCpy at hmem
  split at hmem
  · exact absurd hmem List.not_mem_nil
  · exact absurd hmem List.not_mem_nil
  · exact not_mem_delimLoop hmem List.not_mem_nil hx

/-- What is known of a message that goes to the queue of a user, and of a DUMPLOG with a path. -/
theorem accept_inv {messageLen : ℕ} {r : ConnBuf × ClientCmd} (h : v.accept messageLen = some r) :
    (∀ transID userCmd userID comm, r.2 = .command transID userCmd userID comm →
      1 < messageLen ∧ v.sepUser.str 1 = some transID) ∧
    ∀ transID file, r.2 = .dumplog transID file →
      v.sepUser.str 3 = some file ∧ (file.head? = some '.' ∨ file.head? = some '/') := by
  unfold ConnBuf.accept at h
  by_cases hlen : messageLen ≠ 4 ∧ messageLen ≠ 2
  · rw [if_pos hlen] at h
    cases h
    exact ⟨fun _ _ _ _ h => (by cases h), fun _ _ h => (by cases h)⟩
  rw [if_neg hlen] at h
  split at h
  · dsimp only at h
    split_ifs at h
    · cases h
      exact ⟨fun _ _ _ _ h => (by cases h), fun _ _ h => (by cases h)⟩
    · split at h
      · rename_i htrans _
        split at h
        · split_ifs at h
          cases h
          exact ⟨fun _ _ _ _ h => (by cases h), fun _ _ h => (by cases h)⟩
        · rename_i hfile
          split_ifs at h with hpath hvalid
          · cases h
            refine ⟨fun _ _ _ _ h => (by cases h), fun _ _ h => ?_⟩
            cases h
            exact ⟨hfile, hpath.2⟩
          · cases h
            refine ⟨fun _ _ _ _ h => ?_, fun _ _ h => (by cases h)⟩
            cases h
            exact ⟨by omega, htrans⟩
          · cases h
            exact ⟨fun _ _ _ _ h => (by cases h), fun _ _ h => (by cases h)⟩
      · cases h
    · cases h
      exact ⟨fun _ _ _ _ h => (by cases h), fun _ _ h => (by cases h)⟩
  · cases h

theorem receive_transID {userCmd : CStr} {userID : UserID} {comm : Option CStr}
    (h : b.receive bytes = some (b', .command transID userCmd userID comm)) :
    ∀ x ∈ transID, x ≠ '|' ∧ x ≠ nul := by
  obtain ⟨⟨v, messageLen⟩, hread, haccept⟩ := Option.bind_eq_some_iff.mp h
  obtain ⟨hlen, hstr⟩ := (accept_inv haccept).1 _ _ _ _ rfl
  obtain ⟨str, hstr', hsub⟩ := mem_sepUser (by decide) hstr
  obtain ⟨o, -, rfl⟩ := Option.map_eq_some_iff.mp hstr
  exact fun x hx => ⟨read_transID hread hlen hstr' x (hsub x hx), cstr_ne_nul _ o x hx⟩

theorem receive_file {file : CStr} (h : b.receive bytes = some (b', .dumplog transID file)) :
    ',' ∉ file ∧ Clear file := by
  obtain ⟨⟨v, messageLen⟩, -, haccept⟩ := Option.bind_eq_some_iff.mp h
  obtain ⟨hstr, hpath⟩ := (accept_inv haccept).2 _ _ rfl
  refine ⟨comma_sepUser hstr, fun hblank => ?_⟩
  rcases hpath with hpath | hpath
  · exact absurd (hpath.symm.trans hblank) (by decide)
  · exact absurd (hpath.symm.trans hblank) (by decide)

end Messages

/-! ### Requests for quotes -/

open Quotes in
/-- The load balancer logs a quote under the number that the transaction server has put into its request. -/
theorem request_transID {transID userCmd : CStr} (htrans : ∀ x ∈ transID, x ≠ '|' ∧ x ≠ nul)
    {stockID : StockID} {userID : UserID} {request : List Char}
    (hreq : sprintf (quoteRequest transID userCmd stockID userID) = some request) {new : Bool} {conn : Conn}
    {m : Message} (hm : (conn.receive (sent new request)).bind Conn.message = some m) :
    m.transID = transID := by
  obtain ⟨hlen, rfl⟩ := sprintf_eq_some.mp hreq
  have hsent := sent_request new transID userCmd stockID userID
  have htag : ∀ x ∈ if new then "QNR".toList else "QCR".toList, x ≠ '|' ∧ x ≠ nul := by
    cases new <;> simp [nul]
  have htaglen : (if new then "QNR".toList else "QCR".toList).length = 3 := by cases new <;> rfl
  generalize (if new then "QNR".toList else "QCR".toList) = tag at hsent htag htaglen
  have hlength := length_request transID userCmd stockID userID
  rw [hsent] at hm
  obtain ⟨rest, hrest⟩ : ∃ rest, userCmd ++ '|' :: requestLine stockID userID = rest := ⟨_, rfl⟩
  have hroom : (tag ++ '|' :: (transID ++ '|' :: rest)).length < 200 := by
    rw [← hrest]
    simp only [requestLine, List.length_append, List.length_cons, List.length_nil, stockID.length_eq,
      userID.length_eq, htaglen]
    omega
  rw [hrest] at hm
  obtain ⟨r, hr⟩ := recv_text conn.clientMessage hroom
  -- the user's command may end the string, but only behind the number
  have htext : cstr (tag ++ '|' :: (transID ++ '|' :: rest) ++ nul :: r) 0 =
      tag ++ '|' :: (transID ++ '|' :: (rest ++ nul :: r).takeWhile (· ≠ nul)) := by
    have hne : ∀ {s : CStr}, (∀ x ∈ s, x ≠ '|' ∧ x ≠ nul) → ∀ x ∈ s, decide (x ≠ nul) = true :=
      fun hs x hx => decide_eq_true (hs x hx).2
    rw [cstr, List.drop_zero, List.append_assoc, List.takeWhile_append_of_pos (hne htag), List.cons_append,
      List.takeWhile_cons_of_pos (by decide), List.append_assoc, List.takeWhile_append_of_pos (hne htrans),
      List.cons_append, List.takeWhile_cons_of_pos (by decide)]
  obtain ⟨conn', hconn, hmsg⟩ := Option.bind_eq_some_iff.mp hm
  rw [Conn.receive, hr, htext, delimSep_eq (by simp), Web.explode_append fun x hx => (htag x hx).1,
    Web.explode_append fun x hx => (htrans x hx).1] at hconn
  split_ifs at hconn
  cases hconn
  unfold Conn.message at hmsg
  split at hmsg
  · rename_i heq
    cases hmsg
    rw [List.map_cons, List.map_cons, List.cons_append, List.cons_append, List.cons.injEq,
      List.cons.injEq] at heq
    exact (Option.some.inj heq.2.1).symm
  · cases hmsg

/-! ### All lines -/

/-- The line of `connection_handler` for a DUMPLOG with a path. -/
def dumplogLine (now : ℤ) (transID file : CStr) : Line :=
  .userCmdLog now transID "DUMPLOG".toList spc spc file spc

open Quotes in
/-- The lines that are read back as they were meant are those of a transaction number without a comma, where
    no field that may be left out starts with a blank without being one, and the reply of the quote server
    has its five fields. -/
theorem lines_survive_iff (w : ℤ → ℤ) :
    (∀ es s, exec (TradeC.step w) Server.init es = some s → ∀ l ∈ s.logs, ∀ x ∈ line l,
      ∃ c commStr, TradeC.Event.command c commStr ∈ es ∧ x.transID = c.transID ∧
        (x.Survives ↔ ',' ∉ c.transID ∧ (x.omits → ∀ a ∈ delimSepNoCpy commStr ',', Clear a))) ∧
    (∀ b b' bytes transID file, ConnBuf.receive b bytes = some (b', .dumplog transID file) → ∀ now,
      (dumplogLine now transID file).Survives ↔ ',' ∉ transID) ∧
    ∀ b b' bytes transID userCmd userID comm,
      ConnBuf.receive b bytes = some (b', .command transID userCmd userID comm) →
        ∀ userCmd' stockID userID' request,
          sprintf (quoteRequest transID userCmd' stockID userID') = some request →
            ∀ new conn m, ((conn : Conn).receive (sent new request)).bind Conn.message = some m →
              ∀ now rep, (Line.quoteLog now m.transID rep).Survives ↔ ',' ∉ transID ∧ rep.count ',' = 4 := by
  refine ⟨?_, ?_, ?_⟩
  · intro es s hrun l hl x hx
    obtain ⟨c, commStr, hc, hemit⟩ := (run_sourced w hrun).logs l hl
    exact ⟨c, commStr, hc, hemit.transID hx, hemit.survives_iff hx⟩
  · intro b b' bytes transID file h now
    obtain ⟨hfile, hclear⟩ := receive_file h
    rw [dumplogLine, Line.survives_userCmdLog now (by decide) (by decide) (by decide) hfile (by decide)
      clear_spc clear_spc]
    exact ⟨fun h => h.1, fun h => ⟨h, hclear, clear_spc⟩⟩
  · intro b b' bytes transID userCmd userID comm h userCmd' stockID userID' request hreq new conn m hm now rep
    rw [Line.survives_quoteLog, request_transID (receive_transID h) hreq hm]

/-! ### Runs -/

/-- A user who is loaded, and an ADD. -/
def anAdd (transID : String) : List TradeC.Event :=
  [.connect aUser, .command ⟨transID.toList, "ADD".toList, aUser, 5, ⟨0, 0⟩⟩ (some "1.00".toList)]

def addLine (transID : String) : LogLine :=
  .userCmd 5 transID.toList "ADD".toList aUser spc spc "1.00".toList

theorem exec_anAdd (transID : String) : ∃ s, exec (TradeC.step wrap64) Server.init (anAdd transID) = some s ∧
    addLine transID ∈ s.logs := by
  refine ⟨_, rfl, ?_⟩
  exact List.Mem.head _

theorem survives_seven :
    (∃ s, exec (TradeC.step wrap64) Server.init (anAdd "7") = some s ∧
      ∃ l ∈ s.logs, ∃ x ∈ line l, x.Survives) ∧
    (dumplogLine 9 "7".toList "./a".toList).Survives ∧
    (Line.quoteLog 9 "7".toList "1.00,ABC,aaaaaaaaaa,8,k".toList).Survives := by
  obtain ⟨hlogs, hdump, hquote⟩ := lines_survive_iff wrap64
  obtain ⟨b₁, hrecv₁⟩ : ∃ b', (ConnBuf.init []).receive "WSC|7|DUMPLOG|./a".toList =
      some (b', .dumplog "7".toList "./a".toList) := ⟨_, rfl⟩
  obtain ⟨b₂, hrecv₂⟩ : ∃ b', (ConnBuf.init []).receive "WSC|7|QUOTE|aaaaaaaaaa,ABC".toList =
      some (b', .command "7".toList "QUOTE".toList aUser (some "ABC".toList)) := ⟨_, rfl⟩
  have hrequest : ((⟨[], []⟩ : Quotes.Conn).receive (Quotes.sent true
      (Quotes.quoteRequest "7".toList "QUOTE".toList stockABC aUser ++ [nul]))).bind Quotes.Conn.message =
      some (Quotes.message true "7".toList "QUOTE".toList stockABC aUser) := rfl
  refine ⟨?_, (hdump _ _ _ _ _ hrecv₁ 9).mpr (by decide),
    (hquote _ _ _ _ _ _ _ hrecv₂ "QUOTE".toList stockABC aUser _ rfl true _ _ hrequest 9 _).mpr (by decide)⟩
  obtain ⟨s, hrun, hl⟩ := exec_anAdd "7"
  obtain ⟨c, commStr, hc, -, hiff⟩ := hlogs _ s hrun _ hl _ rfl
  simp only [anAdd, List.mem_cons, List.not_mem_nil, or_false, reduceCtorEq, false_or,
    Event.command.injEq] at hc
  obtain ⟨rfl, rfl⟩ := hc
  exact ⟨s, hrun, _, hl, _, rfl, hiff.mpr (by decide)⟩

/-- A transaction number with a comma. -/
theorem twoNumbers : (∃ b' comm, (ConnBuf.init []).receive "WSC|1,2|ADD|aaaaaaaaaa,1.00".toList =
      some (b', .command "1,2".toList "ADD".toList aUser comm) ∧ comm = some "1.00".toList) ∧
    ∃ s, exec (TradeC.step wrap64) Server.init (anAdd "1,2") = some s ∧
      ∃ l ∈ s.logs, ∃ x ∈ line l, ¬ x.Survives := by
  refine ⟨⟨_, _, rfl, rfl⟩, ?_⟩
  obtain ⟨s, hrun, hl⟩ := exec_anAdd "1,2"
  exact ⟨s, hrun, _, hl, _, rfl, fun h => h.comma (by decide)⟩

end TradeC.LogFields
