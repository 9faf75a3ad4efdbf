import TradeC.LogFile

/-! What a user's DUMPLOG writes.

    The handler looks for the user in the tree it has in memory, which every flush empties. So the file has all
    elements of the user exactly if none of them has been flushed. -/

namespace TradeC.LogServer
open Run

/-! ### The search -/

def username : CStr := "username".toList

/-- `mxmlFindElement`: the next element named username in document order, from a child of `logRoot` on. Of the
    element, its parent and its text; and the siblings behind its parent. -/
def findUsername : List Element → Option (Element × CStr × List Element)
  | [] => none
  | e :: es =>
    match e.children.find? fun c => c.1 = username with
    | some c => some (e, c.2, es)
    | none => findUsername es

theorem findUsername_length : ∀ {tree es : List Element} {e : Element} {userID : CStr},
    findUsername tree = some (e, userID, es) → es.length < tree.length := by
  intro tree
  induction tree with
  | nil =>
    intro _ _ _ h
    simp [findUsername] at h
  | cons e tree ih =>
    intro es e' userID h
    rw [findUsername] at h
    split at h
    · cases h
      exact Nat.lt_succ_self _
    · exact Nat.lt_succ_of_lt (ih h)

/-- The elements that the loop saves, in their order; `tree` starts at `searchResult`. -/
def search (tree : List Element) (userID : CStr) : List Element :=
  match h : findUsername tree with
  | none => []
  | some (e, found, next) =>
    have := findUsername_length h
    if userID = found then e :: search next userID else search next userID
termination_by tree.length

/-- What a user's DUMPLOG writes, where the saved elements fit. -/
def dumped (env : Env) (s : State) (userID : CStr) : Option CStr :=
  if UserFits env s.tree userID then
    some (logStart ++ (search s.tree userID).flatMap env.saved ++ logEnd)
  else none

/-- The user's elements of all that has been logged, in their order. -/
def DumpComplete (env : Env) (s : State) (userID : CStr) (logged : List Element) : Prop :=
  search s.tree userID = userElements logged userID ∧
    dumped env s userID = some (logStart ++ (userElements logged userID).flatMap env.saved ++ logEnd)

/-! ### Elements with one username -/

/-- The children of an element have different names. -/
def Named (e : Element) : Prop := (e.children.map Prod.fst).Nodup

theorem fst_zip_sublist : ∀ names values : List CStr,
    ((names.zip values).map Prod.fst).Sublist names := by
  intro names
  induction names with
  | nil =>
    intro _
    simp
  | cons name names ih =>
    intro values
    cases values with
    | nil => simp
    | cons value values =>
      rw [List.zip_cons_cons, List.map_cons]
      exact (ih values).cons_cons name

theorem element_named {name : String} {always optional : List String} {logSep : List CStr} {e : Element}
    (h : element name always optional logSep = some e)
    (hnodup : ((always ++ optional).map String.toList).Nodup) : Named e := by
  simp only [element] at h
  split_ifs at h
  cases h
  rw [List.map_append] at hnodup
  unfold Named
  rw [List.map_append]
  have hfilter := (List.filter_sublist (p := fun c : CStr × CStr => c.2.head? ≠ some ' ')
    (l := (optional.map String.toList).zip ((logSep.drop 1).drop always.length))).map Prod.fst
  exact hnodup.sublist ((fst_zip_sublist _ _).append (hfilter.trans (fst_zip_sublist _ _)))

/-- The element of a line. -/
def LogLine.element? : LogLine → Option Element
  | .userCmd e => some e
  | .event e => some e
  | _ => none

theorem named_of_map {name : String} {always optional : List String} {logSep : List CStr} {l : LogLine}
    {line : Element → LogLine} (h : (element name always optional logSep).map line = some l)
    (hline : ∀ e, (line e).element? = some e)
    (hnodup : ((always ++ optional).map String.toList).Nodup) : ∀ e ∈ l.element?, Named e := by
  obtain ⟨e', he', rfl⟩ := Option.map_eq_some_iff.mp h
  intro e he
  rw [hline e'] at he
  cases he
  exact element_named he' hnodup

/-- Every line gives an element of one of the six kinds, or none. -/
theorem logLine_named {logSep : List CStr} {l : LogLine} (h : logLine logSep = some l) :
    ∀ e ∈ l.element?, Named e := by
  unfold logLine at h
  by_cases hlen : 10 < logSep.length
  · rw [if_pos hlen] at h
    exact absurd h (by simp)
  rw [if_neg hlen] at h
  cases logSep with
  | nil =>
    cases h
    exact fun e he => absurd he (by simp [LogLine.element?])
  | cons type args =>
    simp only at h
    by_cases h₁ : type = "userCmd".toList
    · rw [if_pos h₁] at h
      exact named_of_map h (fun _ => rfl) (by decide)
    rw [if_neg h₁] at h
    by_cases h₂ : type = "quote".toList
    · rw [if_pos h₂] at h
      exact named_of_map h (fun _ => rfl) (by decide)
    rw [if_neg h₂] at h
    by_cases h₃ : type = "accTrans".toList
    · rw [if_pos h₃] at h
      exact named_of_map h (fun _ => rfl) (by decide)
    rw [if_neg h₃] at h
    by_cases h₄ : type = "system".toList
    · rw [if_pos h₄] at h
      exact named_of_map h (fun _ => rfl) (by decide)
    rw [if_neg h₄] at h
    by_cases h₅ : type = "error".toList
    · rw [if_pos h₅] at h
      exact named_of_map h (fun _ => rfl) (by decide)
    rw [if_neg h₅] at h
    by_cases h₆ : type = "debug".toList
    · rw [if_pos h₆] at h
      exact named_of_map h (fun _ => rfl) (by decide)
    rw [if_neg h₆] at h
    have hnone : l.element? = none := by
      split at h
      · split at h
        · exact absurd h (by simp)
        · split at h
          · cases h
            rfl
          · obtain ⟨_, -, rfl⟩ := Option.map_eq_some_iff.mp h
            rfl
      · cases h
        rfl
    rw [hnone]
    exact fun e he => absurd he (by simp)

theorem lineElements_named {str : CStr} : ∀ e ∈ lineElements str, Named e := by
  intro e he
  unfold lineElements at he
  cases hparse : parse str with
  | none => simp [hparse] at he
  | some l =>
    rw [hparse] at he
    refine logLine_named hparse e ?_
    cases l with
    | userCmd e' => rw [List.mem_singleton.mp he]; rfl
    | event e' => rw [List.mem_singleton.mp he]; rfl
    | empty => exact absurd he List.not_mem_nil
    | dump => exact absurd he List.not_mem_nil
    | userDump => exact absurd he List.not_mem_nil
    | unknown => exact absurd he List.not_mem_nil

/-! ### The elements found -/

/-- Of names that differ, the first username is the only one. -/
theorem find_username (userID : CStr) {text : CStr} : ∀ {children : List (CStr × CStr)},
    (children.map Prod.fst).Nodup → (∃ c, children.find? (fun c => c.1 = username) = some c ∧ c.2 = text) →
      ((username, userID) ∈ children ↔ userID = text)
  | [], _, ⟨c, hc, _⟩ => by simp at hc
  | (name, value) :: children, hnodup, ⟨c, hc, htext⟩ => by
    rw [List.map_cons, List.nodup_cons] at hnodup
    by_cases hname : name = username
    · rw [List.find?_cons_of_pos (by simpa using hname)] at hc
      cases hc
      have hrest : (username, userID) ∉ children := fun h =>
        hnodup.1 (List.mem_map.mpr ⟨_, h, hname.symm⟩)
      rw [List.mem_cons, Prod.mk.injEq, ← htext]
      simp [hname, hrest]
    · rw [List.find?_cons_of_neg (by simpa using hname)] at hc
      have ih := find_username userID hnodup.2 ⟨c, hc, htext⟩
      rw [List.mem_cons, Prod.mk.injEq, ih]
      simp [Ne.symm hname]

/-- The search, by where it finds the next username. -/
theorem search_of_find {tree : List Element} (userID : CStr) :
    search tree userID = match findUsername tree with
      | none => []
      | some (e, found, next) =>
        if userID = found then e :: search next userID else search next userID := by
  rw [search]
  split <;> rename_i h <;> simp only [h]

theorem search_cons (e : Element) (es : List Element) (userID : CStr) :
    search (e :: es) userID = match e.children.find? (fun c => c.1 = username) with
      | none => search es userID
      | some c => if userID = c.2 then e :: search es userID else search es userID := by
  rw [search_of_find, findUsername]
  cases e.children.find? (fun c => c.1 = username) with
  | none => exact (search_of_find userID).symm
  | some c => rfl

theorem userElements_cons (e : Element) (es : List Element) (userID : CStr) :
    userElements (e :: es) userID =
      if (username, userID) ∈ e.children then e :: userElements es userID else userElements es userID := by
  rw [userElements, List.filter_cons]
  simp only [decide_eq_true_eq]
  rfl

/-- Going on behind the parent of each username finds the elements that have the user's. -/
theorem search_eq (userID : CStr) : ∀ {tree : List Element}, (∀ e ∈ tree, Named e) →
    search tree userID = userElements tree userID := by
  intro tree
  induction tree with
  | nil =>
    intro _
    rw [search_of_find]
    rfl
  | cons e es ih =>
    intro h
    have ih := ih fun e' he' => h e' (List.mem_cons_of_mem e he')
    have hnamed := h e List.mem_cons_self
    rw [search_cons, ih, userElements_cons]
    cases hfind : e.children.find? (fun c => c.1 = username) with
    | none =>
      have hnone : (username, userID) ∉ e.children := fun hmem =>
        List.find?_eq_none.mp hfind _ hmem (decide_eq_true rfl)
      rw [if_neg hnone]
    | some c =>
      have hiff := find_username userID hnamed ⟨c, hfind, rfl⟩
      simp only
      by_cases huser : userID = c.2
      · rw [if_pos huser, if_pos (hiff.mpr huser)]
      · rw [if_neg huser, if_neg (mt hiff.mp huser)]

/-! ### The dump -/

theorem userElements_append (tree tree' : List Element) (userID : CStr) :
    userElements (tree ++ tree') userID = userElements tree userID ++ userElements tree' userID :=
  List.filter_append ..

/-- The dump that the handler makes in a run is complete exactly if no element of the user has been flushed,
    and what is left fits. -/
theorem dumpComplete_iff (env : Env) (now : ℤ) (es : List Event) {s : State}
    (hrun : exec (step env) (initial now) es = some s) (userID : CStr) : ∃ logged,
      s.arrived.flatMap lineElements = logged ++ s.queue.flatMap lineElements ∧
      (DumpComplete env s userID logged ↔
        userElements s.flushed.flatten userID = [] ∧ UserFits env s.tree userID) := by
  have harrived : Arrived s :=
    exec_inv (fun _ e _ h hstep => step_arrived e h hstep) es _ s
      (show Arrived (initial now) from rfl) hrun
  refine ⟨s.flushed.flatten ++ s.tree, harrived.symm, ?_⟩
  have hnamed : ∀ e ∈ s.tree, Named e := by
    intro e he
    have hmem : e ∈ s.arrived.flatMap lineElements := by
      rw [← harrived]
      exact List.mem_append_left _ (List.mem_append_right _ he)
    obtain ⟨str, -, hstr⟩ := List.mem_flatMap.mp hmem
    exact lineElements_named e hstr
  rw [DumpComplete, dumped, search_eq userID hnamed, userElements_append]
  constructor
  · rintro ⟨hsame, hfits⟩
    split_ifs at hfits with h
    exact ⟨List.self_eq_append_left.mp hsame, h⟩
  · rintro ⟨hnone, hfits⟩
    rw [hnone, List.nil_append, if_pos hfits]
    exact ⟨rfl, rfl⟩

/-- A command of a user, and the user's DUMPLOG. -/
def aCommand : Event := .lenq "userCmd,9,TRANS1,7,ADD,aaaaaaaaaa, , ,1.00".toList
def aDump : Event := .lenq "DUMPLOG,aaaaaaaaaa,f".toList

/-- Two commands of the user with one of another user in between, all in the tree, and the DUMPLOG. -/
def between : List Event :=
  [aCommand, .lenq "userCmd,9,TRANS1,8,ADD,bbbbbbbbbb, , ,2.00".toList,
    .lenq "userCmd,9,TRANS1,9,QUOTE,aaaaaaaaaa,ABC, , ".toList] ++ turn 10 ++ turn 10 ++ turn 10 ++ [aDump]

theorem dumpComplete_aDump : ∃ s logged, exec (step plainEnv) (initial 0) between = some s ∧ s.tree.length = 3 ∧
    (userElements s.tree "aaaaaaaaaa".toList).length = 2 ∧
    s.arrived.flatMap lineElements = logged ++ s.queue.flatMap lineElements ∧
    DumpComplete plainEnv s "aaaaaaaaaa".toList logged := by
  obtain ⟨s, hs⟩ := Option.isSome_iff_exists.mp
    (show (exec (step plainEnv) (initial 0) between).isSome by decide +kernel)
  obtain ⟨logged, harrived, hiff⟩ := dumpComplete_iff plainEnv 0 _ hs "aaaaaaaaaa".toList
  have hstate : (exec (step plainEnv) (initial 0) between).all (fun s => s.tree.length = 3 ∧
      (userElements s.tree "aaaaaaaaaa".toList).length = 2 ∧ s.flushed = [] ∧
      UserFits plainEnv s.tree "aaaaaaaaaa".toList) = true := by decide +kernel
  rw [hs, Option.all_some, decide_eq_true_eq] at hstate
  obtain ⟨hlen, huser, hflushed, hfits⟩ := hstate
  exact ⟨s, logged, hs, hlen, huser, harrived, hiff.mpr ⟨by rw [hflushed]; rfl, hfits⟩⟩

/-- After a full DUMPLOG the user's file has nothing of what was logged before. -/
theorem dump_afterFlush : ∃ s queue file, exec (step plainEnv) (initial 0)
      ([aCommand] ++ dumplog ++ turn 10 ++ turn 10 ++ turn 3010 ++ [aDump]) = some s ∧
    s.queue = "DUMPLOG,aaaaaaaaaa,f".toList :: queue ∧
    parse "DUMPLOG,aaaaaaaaaa,f".toList = some (.userDump "aaaaaaaaaa".toList file) ∧
    ∀ logged, s.arrived.flatMap lineElements = logged ++ s.queue.flatMap lineElements →
      ¬ DumpComplete plainEnv s "aaaaaaaaaa".toList logged := by
  obtain ⟨s, hs⟩ := Option.isSome_iff_exists.mp (show (exec (step plainEnv) (initial 0)
    ([aCommand] ++ dumplog ++ turn 10 ++ turn 10 ++ turn 3010 ++ [aDump])).isSome by decide +kernel)
  have hstate : (exec (step plainEnv) (initial 0)
      ([aCommand] ++ dumplog ++ turn 10 ++ turn 10 ++ turn 3010 ++ [aDump])).all (fun s =>
        s.queue = ["DUMPLOG,aaaaaaaaaa,f".toList] ∧ s.tree = [] ∧ s.queue.flatMap lineElements = [] ∧
          userElements (s.arrived.flatMap lineElements) "aaaaaaaaaa".toList ≠ []) = true := by
    decide +kernel
  rw [hs, Option.all_some, decide_eq_true_eq] at hstate
  obtain ⟨hqueue, htree, hnone, hlogs⟩ := hstate
  refine ⟨s, [], "f".toList, hs, hqueue, rfl, fun logged hlogged hcomplete => ?_⟩
  have hsame := hcomplete.1
  rw [hnone, List.append_nil] at hlogged
  rw [htree, ← hlogged, search_of_find] at hsame
  exact hlogs hsame.symm

end TradeC.LogServer
