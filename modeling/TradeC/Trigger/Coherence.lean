import TradeC.Trigger.Basic
import TradeC.Lib.Run

/-! The tree and the rings hold the same triggers, as long as `removeTrigger` clears its own slots.

    The loop of `removeTrigger` takes the slot of a node from the letter before the right one. For
    the stock ABC it clears, under AB, the slot of ABB; when ABB is the stock itself and AB is left
    without children, it clears, under A, the slot of AA instead of AB. `clearsOwn` says that nothing
    in use hangs there. -/

namespace TradeC.Mem
open Run

inductive Call where
  | add (userObj : UserID) (transID : CStr) (stockObj : StockID) (type : TType)
      (amount trigPrc : ℤ)
  | remove (trigObj : TrigID)

def step (m : Mem) : Call → Option Mem
  | .add userObj transID stockObj type amount trigPrc =>
    some (m.addTrigger userObj transID stockObj type amount trigPrc).1
  | .remove trigObj => (m.removeTrigger trigObj).map Prod.fst

/-- Of the slots that removing `t` clears, with `a₂`, `a₁`, `a₀` the slots of its own letters: under
    `a₁`, slot `a₁` is its own or holds no trigger; and if it is its own and the only one there, then
    under `a₀`, slot `a₀` is its own or holds a node without children. -/
def clearsOwn (m : Mem) (t : TrigID) : Bool :=
  match m.obj t with
  | none => true
  | some tr =>
    let tree := m.tTree tr.userObj
    match tr.parent with
    | [a₂, a₁, a₀] =>
      (a₁ = a₂ || (tree.objAt [a₁, a₁, a₀]).isNone) &&
        (a₁ ≠ a₂ || a₀ = a₁ || !(tree [a₀, a₀]).any Node.child ||
          (List.range (2 * STOCK_CHARS)).any fun j => j ≠ a₂ && (tree [j, a₁, a₀]).isSome)
    | _ => true

def RemoveOk (m : Mem) : Call → Bool
  | .add .. => true
  | .remove t => m.clearsOwn t

/-- A trigger object is linked in its stock's ring exactly when `getTrigger` returns it for its own
    user, stock and type, and only trigger objects of the stock are linked there. -/
structure Coherent (m : Mem) : Prop where
  linked_iff : ∀ {t tr}, m.obj t = some tr →
    (t ∈ m.linked tr.stockObj ↔ m.getTrigger tr.userObj tr.stockObj tr.type = some t)
  object : ∀ {st t}, t ∈ m.linked st → ∃ tr, m.obj t = some tr ∧ tr.stockObj = st

/-- `removeTrigger(t)` has a result; it makes `getTrigger` of `t`'s key NULL, leaves the other keys
    of its user alone, and frees only tree nodes with no trigger and no child. -/
def Removes (m : Mem) (t : TrigID) : Prop :=
  ∃ tr m' freed, m.obj t = some tr ∧ m.removeTrigger t = some (m', freed) ∧
    m'.getTrigger tr.userObj tr.stockObj tr.type = none ∧
    (∀ st ty, (st, ty) ≠ (tr.stockObj, tr.type) →
      m'.getTrigger tr.userObj st ty = m.getTrigger tr.userObj st ty) ∧
    ∀ x ∈ freed, x.2.Bare

/-- What coherence adds to the well-formed memory: every live trigger is in the tree, and no tree
    goes below the third letter. -/
structure Indexed (m : Mem) : Prop extends WF m where
  entered : ∀ {t tr}, m.obj t = some tr → (m.tTree tr.userObj).objAt tr.parent = some t
  depth : ∀ {u p}, (m.tTree u p).isSome → p.length ≤ 3

theorem indexed_init : Indexed init where
  toWF := wf_init
  entered h := by simp [init] at h
  depth {u p} h := by
    by_cases hp : p = []
    · simp [hp]
    · simp [init, Trie.empty, hp] at h

variable {m : Mem}

theorem Indexed.coherent (hi : Indexed m) : Coherent m where
  linked_iff {t tr} htr := by
    rw [hi.mem_linked, hi.getTrigger_eq, ← hi.key htr]
    exact ⟨fun _ => hi.entered htr, fun _ => ⟨tr, htr, rfl⟩⟩
  object hmem := hi.mem_linked.mp hmem

/-- Both functions give a letter the same slot. -/
theorem slot_eq_addrType {c : Char} (hc : isUpper c) (type : TType) :
    slot type c = some (ord c - addrType type).toNat := by
  have hb : 64 < ord c ∧ ord c < 91 := by simpa [isUpper] using hc
  cases type <;> simp only [slot, addrType, STOCK_CHARS, hb, and_self, if_true, Option.some.injEq]
  omega

/-- The slots cleared are those of the first letters of the key. -/
theorem clearedSlots_eq {t : TrigID} {tr : Trigger} (hw : WF m) (htr : m.obj t = some tr) :
    clearedSlots tr = tr.parent.tail := by
  rw [hw.key htr]
  obtain ⟨c₀, c₁, c₂, hst⟩ := List.length_eq_three.mp tr.stockObj.length_eq
  have hup := tr.stockObj.all_isUpper
  simp only [hst, List.all_cons, List.all_nil, Bool.and_true, Bool.and_eq_true] at hup
  obtain ⟨h₀, h₁, h₂⟩ := hup
  unfold clearedSlots keyOf
  rw [hst]
  simp [slot_eq_addrType, h₀, h₁, h₂]

/-- A node above the third letter holds no trigger. -/
theorem WF.objAt_short (hw : WF m) (u : UserID) {p : Path} (hp : p.length ≠ 3) :
    (m.tTree u).objAt p = none := by
  by_contra hne
  obtain ⟨t, ht⟩ := Option.ne_none_iff_exists'.mp hne
  obtain ⟨tr, htr, _, rfl⟩ := hw.held ht
  rw [hw.key htr] at hp
  exact hp (length_keyOf _ _)

/-- At the third letter no node has a child. -/
theorem Indexed.child_leaf (hi : Indexed m) {u : UserID} {p : Path} {nd : Node TrigID}
    (hp : p.length = 3) (hnd : m.tTree u p = some nd) : nd.child = false := by
  by_contra hc
  obtain ⟨a, ha⟩ := (hi.tree u).child hnd (by simpa using hc)
  have := hi.depth ha
  simp only [List.length_cons] at this
  omega

theorem Indexed.freed_bare (hi : Indexed m) {t : TrigID} {tr : Trigger} (htr : m.obj t = some tr)
    (hok : m.clearsOwn t) :
    ∀ x ∈ (Trie.climb (2 * STOCK_CHARS) (clearedSlots tr) tr.parent
      ((m.tTree tr.userObj).setObj tr.parent none)).2, x.2.Bare := by
  obtain ⟨a₂, a₁, a₀, hp⟩ := List.length_eq_three.mp
    ((hi.key htr).symm ▸ length_keyOf tr.stockObj tr.type)
  have hcl := clearedSlots_eq hi.toWF htr
  have hent := hi.entered htr
  simp only [clearsOwn, htr, hp, Bool.and_eq_true, Bool.or_eq_true, decide_eq_true_eq,
    Option.isNone_iff_eq_none, List.any_eq_true] at hok
  rw [hp] at hcl hent ⊢
  rw [hcl, List.tail_cons]
  set tree := m.tTree tr.userObj with htree
  set tree' := tree.setObj [a₂, a₁, a₀] none with htree'
  have hw' : Trie.WF (2 * STOCK_CHARS) tree' := Trie.wf_setObj (hi.tree tr.userObj) _ _
  have hnode : (tree [a₂, a₁, a₀]).isSome := Trie.isSome_of_objAt hent
  have hobj' : ∀ q, tree'.objAt q = if q = [a₂, a₁, a₀] then none else tree.objAt q :=
    Trie.objAt_setObj none hnode
  -- the first slot cleared: the node's own, or a stock without a trigger
  have hbare₁ : ∀ nd, tree' [a₁, a₁, a₀] = some nd → nd.Bare := by
    intro nd hnd
    obtain ⟨nd', hnd', hc⟩ := Trie.child_setObj hnd
    refine ⟨?_, hc ▸ hi.child_leaf rfl hnd'⟩
    have hnone : tree'.objAt [a₁, a₁, a₀] = none := by
      rw [hobj']
      split_ifs with heq
      · rfl
      · have hne : a₁ ≠ a₂ := fun e => heq (by rw [e])
        simpa [hne] using hok.1
    simpa [Trie.objAt, hnd] using hnone
  rw [Trie.climb_cons]
  split_ifs with hstop hany
  · simp
  · simpa using hbare₁
  · have hfree : ∀ j, j ≠ a₁ →
        tree'.free [a₁, a₁, a₀] [j, a₁, a₀] = tree' [j, a₁, a₀] := fun j hj =>
      Trie.free_apply_of_not_suffix fun hs => hj (by
        have := hs.eq_of_length rfl
        simpa using this.symm)
    have hnoother : ∀ j, j ≠ a₁ → (tree [j, a₁, a₀]).isSome → False := by
      intro j hj hs
      have hs' : (tree' [j, a₁, a₀]).isSome := by rw [htree', Trie.isSome_setObj]; exact hs
      refine hany (List.any_eq_true.mpr ⟨j, List.mem_range.mpr (hw'.parent hs').1, ?_⟩)
      rw [hfree j hj]
      exact hs'
    have ha : a₁ = a₂ := by
      by_contra hne
      exact hnoother a₂ (Ne.symm hne) hnode
    -- the second slot cleared: the node's own, or a node without children
    have hbare₂ : ∀ nd, (tree'.free [a₁, a₁, a₀]).freeChild [a₁, a₀] [a₀, a₀] = some nd →
        nd.Bare := by
      intro nd hnd
      have hsame : tree'.free [a₁, a₁, a₀] [a₀, a₀] = tree [a₀, a₀] := by
        rw [Trie.free_apply_of_not_suffix fun hs => by simpa using hs.length_le]
        simp [htree', Trie.setObj]
      have hobj : nd.obj = none := by
        have hshort := hi.toWF.objAt_short tr.userObj (p := [a₀, a₀]) (by simp)
        have hcontent : ((tree'.free [a₁, a₁, a₀]).freeChild [a₁, a₀]).objAt [a₀, a₀] = none := by
          rw [Trie.objAt_freeChild, Trie.objAt, hsame]
          exact hshort
        simpa [Trie.objAt, hnd] using hcontent
      refine ⟨hobj, ?_⟩
      by_cases h01 : a₀ = a₁
      · rw [h01, Trie.freeChild, Function.update_self, Option.map_eq_some_iff] at hnd
        obtain ⟨_, _, rfl⟩ := hnd
        rfl
      · rw [Trie.freeChild, Function.update_of_ne (by simp [h01]), hsame] at hnd
        rcases hok.2 with h | ⟨j, _, hj⟩
        · simpa [ha, ha ▸ h01, hnd] using h
        · exact (hnoother j (ha ▸ hj.1) hj.2).elim
    intro x hx
    rcases List.mem_append.mp hx with hx | hx
    · obtain ⟨nd, hnd, rfl⟩ := List.mem_map.mp hx
      exact hbare₁ nd (by simpa using hnd)
    · rw [Trie.climb_cons] at hx
      split_ifs at hx
      · simp at hx
      · obtain ⟨nd, hnd, rfl⟩ := List.mem_map.mp hx
        exact hbare₂ nd (by simpa using hnd)
      · rw [Trie.climb_nil, List.append_nil] at hx
        obtain ⟨nd, hnd, rfl⟩ := List.mem_map.mp hx
        exact hbare₂ nd (by simpa using hnd)

/-- Removing where the slots are its own takes exactly `t` out of its tree. -/
theorem Indexed.removes (hi : Indexed m) {t : TrigID} {tr : Trigger} (htr : m.obj t = some tr)
    (hok : m.clearsOwn t) : ∃ m' freed, m.removeTrigger t = some (m', freed) ∧
      (∀ x ∈ freed, x.2.Bare) ∧ ∀ p, (m'.tTree tr.userObj).objAt p =
        if p = tr.parent then none else (m.tTree tr.userObj).objAt p := by
  have hent := hi.entered htr
  obtain ⟨⟨m', freed⟩, hrem⟩ : ∃ r, m.removeTrigger t = some r := by
    simp [removeTrigger, htr, hent]
  obtain ⟨tr', htr', _, _, _, _, _, _, htree⟩ := hi.toWF.removeTrigger_spec hrem
  obtain rfl := Option.some.inj (htr.symm.trans htr')
  obtain ⟨htree, hfreed⟩ := Prod.mk.inj htree
  have hbare := hi.freed_bare htr hok
  have hnode := Trie.isSome_of_objAt hent
  refine ⟨m', freed, hrem, hfreed ▸ hbare, fun p => ?_⟩
  rw [htree, Trie.objAt_climb (Trie.wf_setObj (hi.tree tr.userObj) _ _) hbare,
    Trie.objAt_setObj none hnode]

theorem indexed_add (hi : Indexed m) (u : UserID) (tid : CStr) (st : StockID) (ty : TType)
    (amount trigPrc : ℤ) : Indexed (m.addTrigger u tid st ty amount trigPrc).1 := by
  have hdepth : ∀ {u' p}, ((m.addTrigger u tid st ty amount trigPrc).1.tTree u' p).isSome →
      p.length ≤ 3 := by
    intro u' p hp
    rcases addTrigger_nodes hi.toWF hp with hold | hsuf
    · exact hi.depth hold
    · have := hsuf.length_le
      rwa [length_keyOf] at this
  cases hget : m.getTrigger u st ty with
  | some t =>
    obtain ⟨m', hadd, hwf, hobj, _, hcontent⟩ := hi.toWF.addTrigger_old hget tid amount trigPrc
    rw [hadd] at hdepth ⊢
    refine ⟨hwf, fun {t tr} htr => ?_, hdepth⟩
    rw [hcontent]
    exact hi.entered (hobj ▸ htr)
  | none =>
    obtain ⟨m', hadd, hwf, _, hobj, _, hgets⟩ := hi.toWF.addTrigger_new hget tid amount trigPrc
    rw [hadd] at hdepth ⊢
    refine ⟨hwf, fun {t tr} htr => ?_, hdepth⟩
    rw [hwf.key htr, ← hwf.getTrigger_eq, hgets]
    by_cases ht : t = m.fresh
    · subst ht
      obtain rfl : _ = tr := by simpa [hobj] using htr
      simp
    · have hold : m.obj t = some tr := by simpa [hobj, ht] using htr
      have hent := hi.entered hold
      rw [hi.key hold, ← hi.getTrigger_eq] at hent
      rw [if_neg, hent]
      rintro ⟨rfl, rfl, rfl⟩
      simp [hget] at hent

theorem indexed_remove (hi : Indexed m) {t : TrigID} {m' : Mem} (hok : m.clearsOwn t)
    (h : step m (.remove t) = some m') : Indexed m' := by
  obtain ⟨⟨m'', freed⟩, hrem, rfl⟩ := Option.map_eq_some_iff.mp h
  obtain ⟨tr, htr, _, hwf, _, hobj, _, hother, htree⟩ := hi.toWF.removeTrigger_spec hrem
  obtain ⟨m₁, freed₁, hrem₁, _, hcontent⟩ := hi.removes htr hok
  obtain ⟨rfl, rfl⟩ := Prod.mk.inj (Option.some.inj (hrem.symm.trans hrem₁))
  refine ⟨hwf, ?_, ?_⟩
  · intro t' tr' h'
    have hne : t' ≠ t := by
      rintro rfl
      simp [hobj] at h'
    have hold : m.obj t' = some tr' := by simpa [hobj, hne] using h'
    have hent := hi.entered hold
    by_cases hu : tr'.userObj = tr.userObj
    · rw [hu, hcontent, if_neg, ← hu]
      · exact hent
      · intro hp
        rw [hp, hu, hi.entered htr] at hent
        exact hne (Option.some.inj hent).symm
    · rw [hother _ hu]
      exact hent
  · intro u p hp
    by_cases hu : u = tr.userObj
    · subst hu
      rw [(Prod.mk.inj htree).1] at hp
      have hback := Trie.isSome_of_climb hp
      rw [Trie.isSome_setObj] at hback
      exact hi.depth hback
    · rw [hother _ hu] at hp
      exact hi.depth hp

theorem indexed_step {m' : Mem} (hi : Indexed m) (c : Call) (hok : RemoveOk m c)
    (h : step m c = some m') : Indexed m' := by
  cases c with
  | add u tid st ty amount trigPrc =>
    cases h
    exact indexed_add hi u tid st ty amount trigPrc
  | remove t => exact indexed_remove hi hok h

theorem Indexed.removes_key (hi : Indexed m) {t : TrigID} (ht : (m.obj t).isSome)
    (hok : m.clearsOwn t) : Removes m t := by
  obtain ⟨tr, htr⟩ := Option.isSome_iff_exists.mp ht
  obtain ⟨m', freed, hrem, hbare, hcontent⟩ := hi.removes htr hok
  obtain ⟨_, _, _, hwf, _⟩ := hi.toWF.removeTrigger_spec hrem
  refine ⟨tr, m', freed, htr, hrem, ?_, fun st ty hne => ?_, hbare⟩
  · rw [hwf.getTrigger_eq, hcontent, if_pos (hi.key htr).symm]
  · rw [hwf.getTrigger_eq, hcontent, if_neg, hi.getTrigger_eq]
    intro hp
    obtain ⟨rfl, rfl⟩ := keyOf_inj (hp.trans (hi.key htr))
    exact hne rfl

/-- In every run of `addTrigger` and `removeTrigger` whose removals clear their own slots, tree and
    rings hold the same triggers, and removing one more takes that one out of both and nothing else. -/
theorem trigger_index {calls : List Call} {m : Mem}
    (hok : Along step (fun m c => RemoveOk m c) init calls) (h : exec step init calls = some m) :
    Coherent m ∧ ∀ t, (m.obj t).isSome → m.clearsOwn t → Removes m t := by
  have hi : Indexed m := exec_inv_along (fun _ c _ hi hok hs => indexed_step hi c hok hs) calls init m
    indexed_init hok h
  exact ⟨hi.coherent, fun t ht hcl => hi.removes_key ht hcl⟩

def abcThenAcc : List Call :=
  [.add aUser [] stockABC .b 1000 0, .add aUser [] stockACC .b 500 0, .remove 0]

/-- With triggers on ABC and ACC, removing the one on ABC is in order, and so is removing the other
    one after it. -/
theorem trigger_index_abc_acc :
    ∃ m, exec step init abcThenAcc = some m ∧ Coherent m ∧ Removes m 1 := by
  have hok : Along step (fun m c => RemoveOk m c) init abcThenAcc := by decide
  obtain ⟨m, hm⟩ : ∃ m, exec step init abcThenAcc = some m := ⟨_, rfl⟩
  have hget : (exec step init abcThenAcc).any fun m => (m.obj 1).isSome && m.clearsOwn 1 := by decide
  rw [hm, Option.any_some, Bool.and_eq_true] at hget
  exact ⟨m, hm, (trigger_index hok hm).1, (trigger_index hok hm).2 1 hget.1 hget.2⟩

def abcThenAbb : List Call :=
  [.add aUser [] stockABC .b 1000 0, .add aUser [] stockABB .b 500 0, .remove 0]

/-- With triggers on ABC and ABB, removing the one on ABC frees the tree node of the other, which
    stays in its ring. -/
theorem removeTrigger_loses_sibling :
    ¬ ∀ calls m, exec step init calls = some m → Coherent m := by
  intro h
  obtain ⟨m, hm⟩ : ∃ m, exec step init abcThenAbb = some m := ⟨_, rfl⟩
  have hrun : (exec step init abcThenAbb).any fun m =>
      m.obj 1 = some ⟨.b, 0, 500, [], [1, 1, 0], aUser, stockABB⟩ ∧ 1 ∈ m.linked stockABB ∧
        m.getTrigger aUser stockABB .b = none := by decide
  rw [hm, Option.any_some, decide_eq_true_eq] at hrun
  obtain ⟨hobj, hlinked, hget⟩ := hrun
  have hfound := ((h _ m hm).linked_iff hobj).mp hlinked
  simp [hget] at hfound

end TradeC.Mem
