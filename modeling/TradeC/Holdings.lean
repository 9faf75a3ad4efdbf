import TradeC.Server
import TradeC.Lib.Run

/-! The holdings of one user, as `addUserStock`, `getUserStock` and `removeUserStock` keep them.

    `Server` keeps a holding as a value in the user's tree. Here it is an object with an identity, which
    the tree points to and which has the address of its tree node in `parent`. `WF` is what every run
    keeps: objects and tree entries are the same, under the key of their stock, and each node but the
    root has a holding at it or below it. -/

namespace TradeC

abbrev UserStockID := ℕ

structure UserStockObj where
  stockObj : StockID
  num : ℤ
  parent : Path
  deriving DecidableEq

structure UsMem where
  /-- The objects allocated and not freed. -/
  obj : UserStockID → Option UserStockObj
  fresh : UserStockID
  usTree : Trie UserStockID

namespace UsMem
open Run

def init : UsMem := ⟨fun _ => none, 0, Trie.empty⟩

def getUserStock (m : UsMem) (stockObj : StockID) : Option UserStockID :=
  Trie.find usSlot stockObj.str [] m.usTree

def addUserStock (m : UsMem) (stockObj : StockID) (numStock : ℤ) : UsMem × Option UserStockID :=
  let (tree, temp) := Trie.insertPath usSlot stockObj.str [] m.usTree
  match temp with
  | none => ({ m with usTree := tree }, none)
  | some temp =>
    match tree.objAt temp with
    | some userStockObj => ({ m with usTree := tree }, some userStockObj)
    | none =>
      let nUserStock := m.fresh
      ({ obj := Function.update m.obj nUserStock (some ⟨stockObj, numStock, temp⟩)
         fresh := nUserStock + 1
         usTree := tree.setObj temp (some nUserStock) }, some nUserStock)

/-- The slots that the loop of `removeUserStock` clears, from the node of the holding up. -/
def clearedSlots (stockObj : StockID) : List ℕ := stockObj.str.reverse.map fun c => (ord c - 65).toNat

/-- `removeUserStock`, and the tree nodes it frees. What it frees with `free(temp->userStockObj)` is the
    object of the tree node. -/
def removeUserStock (m : UsMem) (userStockObj : UserStockID) :
    Option (UsMem × List (Path × Node UserStockID)) :=
  (m.obj userStockObj).map fun us =>
    let r := Trie.climb STOCK_CHARS (clearedSlots us.stockObj) us.parent (m.usTree.setObj us.parent none)
    ({ obj := fun t => if m.usTree.objAt us.parent = some t then none else m.obj t
       fresh := m.fresh
       usTree := r.1 }, r.2)

/-! ### The shape of the tree -/

structure WF (m : UsMem) : Prop where
  tree : Trie.WF STOCK_CHARS m.usTree
  entry : ∀ {t us}, m.obj t = some us →
    us.parent = usKey us.stockObj ∧ m.usTree.objAt us.parent = some t
  held : ∀ {p t}, m.usTree.objAt p = some t → ∃ us, m.obj t = some us ∧ us.parent = p
  fresh : ∀ {t us}, m.obj t = some us → t < m.fresh
  live : ∀ p, p ≠ [] → (m.usTree p).isSome → m.usTree.Live p

theorem wf_init : WF init where
  tree := Trie.wf_empty
  entry h := by simp [init] at h
  held h := by simp [init] at h
  fresh h := by simp [init] at h
  live p hp h := by simp [init, Trie.empty, hp] at h

variable {m m' : UsMem}

theorem WF.getUserStock_eq (hw : WF m) (st : StockID) :
    m.getUserStock st = m.usTree.objAt (usKey st) :=
  Trie.find_eq hw.tree (keyPath_usKey st) hw.tree.root

theorem WF.getUserStock_some (hw : WF m) {st : StockID} {t : UserStockID}
    (h : m.getUserStock st = some t) : ∃ us, m.obj t = some us ∧ us.stockObj = st := by
  rw [hw.getUserStock_eq] at h
  obtain ⟨us, hus, hp⟩ := hw.held h
  exact ⟨us, hus, usKey_inj ((hw.entry hus).1.symm.trans hp)⟩

theorem WF.getUserStock_obj (hw : WF m) {t : UserStockID} {us : UserStockObj}
    (h : m.obj t = some us) : m.getUserStock us.stockObj = some t := by
  rw [hw.getUserStock_eq, ← (hw.entry h).1]
  exact (hw.entry h).2

/-- The slots cleared are those of the key. -/
theorem clearedSlots_eq (st : StockID) : clearedSlots st = usKey st := by
  have hslot : ∀ cs : CStr, cs.all isUpper → cs.map (fun c => (ord c - 65).toNat) = cs.filterMap usSlot := by
    intro cs
    induction cs with
    | nil => exact fun _ => rfl
    | cons c cs ih =>
      intro h
      rw [List.all_cons, Bool.and_eq_true] at h
      have hc : usSlot c = some (ord c - 65).toNat := by
        have hb : 64 < ord c ∧ ord c < 91 := by simpa [isUpper] using h.1
        rw [usSlot, if_pos hb]
      rw [List.map_cons, List.filterMap_cons_some hc, ih h.2]
  rw [clearedSlots, usKey, List.map_reverse, hslot _ st.all_isUpper]

/-! ### `addUserStock` -/

theorem WF.addUserStock_new (hw : WF m) {st : StockID} (hnone : m.getUserStock st = none) (num : ℤ) :
    ∃ m', m.addUserStock st num = (m', some m.fresh) ∧ WF m' ∧
      m'.obj = Function.update m.obj m.fresh (some ⟨st, num, usKey st⟩) ∧
      ∀ st', m'.getUserStock st' = if st' = st then some m.fresh else m.getUserStock st' := by
  obtain ⟨hpath, htree, hnode, hobj⟩ :=
    Trie.insertPath_spec usSlot_lt hw.tree hw.tree.root (keyPath_usKey st)
  have hnodes := fun r => Trie.isSome_of_insertPath (r := r) hw.tree.root (keyPath_usKey st)
  set ip := Trie.insertPath usSlot st.str [] m.usTree with hip
  have hempty : ip.1.objAt (usKey st) = none := by
    rw [hobj, ← hw.getUserStock_eq]
    exact hnone
  set m' : UsMem := ⟨Function.update m.obj m.fresh (some ⟨st, num, usKey st⟩), m.fresh + 1,
    ip.1.setObj (usKey st) (some m.fresh)⟩ with hm'
  have hadd : m.addUserStock st num = (m', some m.fresh) := by
    have hpair : ip = (ip.1, some (usKey st)) := Prod.ext rfl hpath
    unfold addUserStock
    rw [← hip, hpair]
    simp only [hempty]
    rfl
  have hobj' : ∀ p, m'.usTree.objAt p = if p = usKey st then some m.fresh else m.usTree.objAt p := by
    intro p
    rw [hm', Trie.objAt_setObj _ hnode, hobj]
  have hfresh : ∀ {t us}, m.obj t = some us → t ≠ m.fresh := fun h e =>
    absurd (hw.fresh h) (by rw [e]; exact lt_irrefl _)
  have hold : ∀ {t us}, m.obj t = some us → m'.obj t = some us := fun h =>
    (Function.update_of_ne (hfresh h) _ m.obj).trans h
  have hwf : WF m' := by
    refine ⟨Trie.wf_setObj htree _ _, ?_, ?_, ?_, ?_⟩
    · intro t us h
      by_cases ht : t = m.fresh
      · subst ht
        obtain rfl : _ = us := by simpa [hm'] using h
        exact ⟨rfl, by rw [hobj', if_pos rfl]⟩
      · have hus : m.obj t = some us := by simpa [hm', ht] using h
        obtain ⟨hkey, hent⟩ := hw.entry hus
        refine ⟨hkey, ?_⟩
        rw [hobj', if_neg, hent]
        intro hp
        rw [hp, ← hw.getUserStock_eq, hnone] at hent
        cases hent
    · intro p t h
      rw [hobj'] at h
      split_ifs at h with hp
      · cases h
        exact ⟨_, by simp [hm']; rfl, hp.symm⟩
      · obtain ⟨us, hus, hpar⟩ := hw.held h
        exact ⟨us, hold hus, hpar⟩
    · intro t us h
      by_cases ht : t = m.fresh
      · subst ht
        exact Nat.lt_succ_self _
      · exact Nat.lt_succ_of_lt (hw.fresh (by simpa [hm', ht] using h))
    · intro p hp h
      have hlive : ∀ {q}, m.usTree.Live q → m'.usTree.Live q := by
        rintro q ⟨r, hr, hs⟩
        refine ⟨r, hr, ?_⟩
        rw [hobj']
        split_ifs
        · rfl
        · exact hs
      rw [hm', Trie.isSome_setObj] at h
      rcases hnodes p h with h | h
      · exact hlive (hw.live p hp h)
      · exact ⟨usKey st, h, by rw [hobj', if_pos rfl]; rfl⟩
  refine ⟨m', hadd, hwf, rfl, fun st' => ?_⟩
  have hiff : usKey st' = usKey st ↔ st' = st := ⟨usKey_inj, fun h => by rw [h]⟩
  rw [hwf.getUserStock_eq, hobj', hw.getUserStock_eq]
  simp only [hiff]

/-- With a holding of the stock there, `addUserStock` returns it and changes no object. -/
theorem WF.addUserStock_old (hw : WF m) {st : StockID} {t : UserStockID}
    (hsome : m.getUserStock st = some t) (num : ℤ) :
    ∃ m', m.addUserStock st num = (m', some t) ∧ WF m' ∧ m'.obj = m.obj ∧
      ∀ st', m'.getUserStock st' = m.getUserStock st' := by
  obtain ⟨hpath, htree, hnode, hobj⟩ :=
    Trie.insertPath_spec usSlot_lt hw.tree hw.tree.root (keyPath_usKey st)
  have hnodes := fun r => Trie.isSome_of_insertPath (r := r) hw.tree.root (keyPath_usKey st)
  set ip := Trie.insertPath usSlot st.str [] m.usTree with hip
  have hheld : ip.1.objAt (usKey st) = some t := by
    rw [hobj, ← hw.getUserStock_eq]
    exact hsome
  have hadd : m.addUserStock st num = ({ m with usTree := ip.1 }, some t) := by
    have hpair : ip = (ip.1, some (usKey st)) := Prod.ext rfl hpath
    unfold addUserStock
    rw [← hip, hpair]
    simp only [hheld]
  have hwf : WF { m with usTree := ip.1 } := by
    refine ⟨htree, ?_, ?_, hw.fresh, ?_⟩
    · intro t us h
      rw [hobj]
      exact hw.entry h
    · intro p t h
      rw [hobj] at h
      exact hw.held h
    · intro p hp h
      rcases hnodes p h with h | h
      · exact (Trie.live_congr hobj p).mpr (hw.live p hp h)
      · exact ⟨usKey st, h, by rw [hheld]; rfl⟩
  refine ⟨_, hadd, hwf, rfl, fun st' => ?_⟩
  rw [hwf.getUserStock_eq, hobj, ← hw.getUserStock_eq]

/-! ### `removeUserStock` -/

/-- The nodes freed are those of the old tree that neither hold anything nor have anything below them
    that does; each is bare when it is freed, and only once, and no other node but the root is bare. -/
structure FreesUnused (t t' : Trie UserStockID) (freed : List (Path × Node UserStockID)) : Prop where
  bare : ∀ x ∈ freed, x.2.Bare
  once : (freed.map Prod.fst).Nodup
  exact : ∀ p, p ∈ freed.map Prod.fst ↔ p ≠ [] ∧ (t p).isSome ∧ ∀ q, p <:+ q → t'.objAt q = none
  kept : ∀ p, (t' p).isSome ↔ (t p).isSome ∧ p ∉ freed.map Prod.fst
  used : ∀ p nd, p ≠ [] → t' p = some nd → ¬ nd.Bare

/-- `removeUserStock` of a holding: the object goes, the others stay, and so does the tree but for the
    nodes that nothing needs. -/
structure Removes (m : UsMem) (t : UserStockID) (us : UserStockObj) (m' : UsMem)
    (freed : List (Path × Node UserStockID)) : Prop where
  obj : m'.obj = Function.update m.obj t none
  get : ∀ st, m'.getUserStock st = if st = us.stockObj then none else m.getUserStock st
  nodes : FreesUnused m.usTree m'.usTree freed

theorem freesUnused_of_prunes {t₀ t t' : Trie UserStockID} {p : Path}
    {freed : List (Path × Node UserStockID)} (h : Trie.Prunes t t' p freed)
    (hw : Trie.WF STOCK_CHARS t') (ht : ∀ q, (t q).isSome = (t₀ q).isSome) :
    FreesUnused t₀ t' freed where
  bare := h.bare
  once := h.once
  exact q := by
    constructor
    · intro hq
      refine ⟨(h.path q hq).1, by rw [← ht]; exact h.freed q hq, fun r hr => ?_⟩
      by_contra hne
      have hlive : t'.Live q := ⟨r, hr, Option.isSome_iff_ne_none.mpr hne⟩
      exact ((h.nodes q).mp (hw.isSome_of_live hlive)).2 hq
    · rintro ⟨hne, hq, hnone⟩
      by_contra hnot
      obtain ⟨r, hr, hobj⟩ := h.live q hne ((h.nodes q).mpr ⟨by rw [ht]; exact hq, hnot⟩)
      rw [hnone r hr] at hobj
      exact Bool.noConfusion hobj
  kept q := by rw [h.nodes, ht]
  used q nd hne hnd := by
    rintro ⟨hobj, hchild⟩
    obtain ⟨r, hr, hlive⟩ := h.live q hne (by simp [hnd])
    by_cases hrq : r = q
    · rw [hrq, Trie.objAt, hnd, Option.bind_some, hobj] at hlive
      exact Bool.noConfusion hlive
    · obtain ⟨j, hj⟩ := Trie.suffix_cons_of_suffix hr hrq
      obtain ⟨o, ho⟩ := Option.isSome_iff_exists.mp hlive
      have hnode := hw.isSome_of_suffix hj (Trie.isSome_of_objAt ho)
      rw [hw.child_none j (by simp [hnd, hchild])] at hnode
      exact Bool.noConfusion hnode

theorem WF.removeUserStock_spec (hw : WF m) {t : UserStockID} {us : UserStockObj}
    (h : m.obj t = some us) :
    ∃ m' freed, m.removeUserStock t = some (m', freed) ∧ WF m' ∧ Removes m t us m' freed := by
  obtain ⟨hkey, hent⟩ := hw.entry h
  have hnode := Trie.isSome_of_objAt hent
  set tree := m.usTree.setObj us.parent none with htree
  have hw' : Trie.WF STOCK_CHARS tree := Trie.wf_setObj hw.tree us.parent none
  have hobj : ∀ q, tree.objAt q = if q = us.parent then none else m.usTree.objAt q :=
    Trie.objAt_setObj none hnode
  have hsome : ∀ q, (tree q).isSome = (m.usTree q).isSome := Trie.isSome_setObj _ _ _
  have hslots : clearedSlots us.stockObj = us.parent := by rw [clearedSlots_eq, hkey]
  -- only nodes on the way up from the holding may have lost what they were there for
  have hlive : ∀ q, q ≠ [] → (tree q).isSome → tree.Live q ∨ q <:+ us.parent := by
    intro q hq hs
    obtain ⟨r, hr, hlive⟩ := hw.live q hq (hsome q ▸ hs)
    by_cases hrp : r = us.parent
    · exact .inr (hrp ▸ hr)
    · refine .inl ⟨r, hr, ?_⟩
      rw [hobj, if_neg hrp]
      exact hlive
  have hprune := Trie.climb_own hw' (hsome us.parent ▸ hnode) hlive
  have hcontent := Trie.objAt_climb hw' hprune.bare
  have hwc : Trie.WF STOCK_CHARS (Trie.climb STOCK_CHARS us.parent us.parent tree).1 := Trie.wf_climb hw'
  set r := Trie.climb STOCK_CHARS us.parent us.parent tree with hr
  have hfree : (fun a => if m.usTree.objAt us.parent = some a then none else m.obj a) =
      Function.update m.obj t none := by
    funext a
    by_cases ha : a = t
    · subst ha
      rw [if_pos hent, Function.update_self]
    · rw [Function.update_of_ne ha, if_neg]
      intro he
      exact ha (Option.some.inj (he.symm.trans hent))
  have hrm : m.removeUserStock t = some (⟨Function.update m.obj t none, m.fresh, r.1⟩, r.2) := by
    rw [removeUserStock, h, Option.map_some, hslots, hfree]
  have hother : ∀ {a us'}, Function.update m.obj t none a = some us' → a ≠ t ∧ m.obj a = some us' := by
    intro a us' ha
    by_cases hat : a = t
    · subst hat
      rw [Function.update_self] at ha
      cases ha
    · exact ⟨hat, by rwa [Function.update_of_ne hat] at ha⟩
  have hwf : WF ⟨Function.update m.obj t none, m.fresh, r.1⟩ := by
    refine ⟨hwc, ?_, ?_, fun ha => hw.fresh (hother ha).2, hprune.live⟩
    · intro a us' ha
      obtain ⟨hat, ha⟩ := hother ha
      obtain ⟨hkey', hent'⟩ := hw.entry ha
      refine ⟨hkey', ?_⟩
      rw [hcontent, hobj, if_neg]
      · exact hent'
      · intro hp
        rw [hp, hent] at hent'
        exact hat (Option.some.inj hent').symm
    · intro p a ha
      rw [hcontent, hobj] at ha
      split_ifs at ha with hp
      obtain ⟨us', hus', hpar⟩ := hw.held ha
      refine ⟨us', ?_, hpar⟩
      have hat : a ≠ t := by
        rintro rfl
        obtain rfl := Option.some.inj (hus'.symm.trans h)
        exact hp hpar.symm
      exact (Function.update_of_ne hat _ m.obj).trans hus'
  refine ⟨_, r.2, hrm, hwf, rfl, fun st => ?_, freesUnused_of_prunes hprune hwc hsome⟩
  rw [hwf.getUserStock_eq, hcontent, hobj, hkey, hw.getUserStock_eq]
  have hiff : usKey st = usKey us.stockObj ↔ st = us.stockObj := ⟨usKey_inj, fun h => by rw [h]⟩
  simp only [hiff]

/-! ### Runs -/

inductive Call where
  | add (stockObj : StockID) (numStock : ℤ)
  | remove (userStockObj : UserStockID)

/-- The memory, and for each stock the object added for it and not since removed, with its count. -/
structure Kept where
  m : UsMem
  added : StockID → Option (UserStockID × ℤ)

/-- A holding is added for a stock that has none; it is what the call returns. -/
def step (s : Kept) : Call → Option Kept
  | .add st num =>
    let (m', ret) := s.m.addUserStock st num
    some ⟨m', if (s.added st).isSome then s.added
      else Function.update s.added st (ret.map fun t => (t, num))⟩
  | .remove t =>
    (s.m.removeUserStock t).map fun r =>
      ⟨r.1, fun st => if (s.added st).map Prod.fst = some t then none else s.added st⟩

/-- `getUserStock` finds what was added, as it was added. -/
structure Exact (s : Kept) : Prop where
  get : ∀ st, s.m.getUserStock st = (s.added st).map Prod.fst
  obj : ∀ {st t num}, s.added st = some (t, num) → ∃ us, s.m.obj t = some us ∧
    us.stockObj = st ∧ us.num = num

theorem step_exact {s s' : Kept} {c : Call} (hs : s.m.WF ∧ Exact s) (h : step s c = some s') :
    s'.m.WF ∧ Exact s' := by
  obtain ⟨hw, hget, hobj⟩ := hs
  cases c with
  | add st num =>
    cases hst : s.added st with
    | some r =>
      obtain ⟨m', hadd, hw', hobj', hget'⟩ :=
        hw.addUserStock_old (t := r.1) (by rw [hget, hst, Option.map_some]) num
      simp only [step, hadd, hst, Option.isSome_some, if_true, Option.some.injEq] at h
      subst h
      refine ⟨hw', fun st' => (hget' st').trans (hget st'), fun {st' t n} ha => ?_⟩
      rw [hobj']
      exact hobj ha
    | none =>
      obtain ⟨m', hadd, hw', hobj', hget'⟩ :=
        hw.addUserStock_new (by rw [hget, hst, Option.map_none]) num
      simp only [step, hadd, hst, Option.isSome_none, Option.map_some, Option.some.injEq] at h
      subst h
      refine ⟨hw', fun st' => ?_, fun {st' t n} ha => ?_⟩
      · rw [hget', hget]
        by_cases he : st' = st <;> simp [he]
      · by_cases he : st' = st
        · subst he
          obtain ⟨rfl, rfl⟩ : s.m.fresh = t ∧ num = n := by simpa using ha
          exact ⟨_, by rw [hobj', Function.update_self], rfl, rfl⟩
        · have hold : s.added st' = some (t, n) := by simpa [he] using ha
          obtain ⟨us, hus, hrest⟩ := hobj hold
          have hne : t ≠ s.m.fresh := fun e => absurd (hw.fresh hus) (by rw [e]; exact lt_irrefl _)
          exact ⟨us, by rw [hobj', Function.update_of_ne hne]; exact hus, hrest⟩
  | remove t =>
    obtain ⟨⟨m', freed⟩, hrm, rfl⟩ := Option.map_eq_some_iff.mp h
    obtain ⟨us, hus⟩ : ∃ us, s.m.obj t = some us := by
      obtain ⟨us, hus, _⟩ := Option.map_eq_some_iff.mp hrm
      exact ⟨us, hus⟩
    obtain ⟨m₁, freed₁, hrm₁, hw', hrem⟩ := hw.removeUserStock_spec hus
    obtain ⟨rfl, rfl⟩ := Prod.mk.inj (Option.some.inj (hrm.symm.trans hrm₁))
    have hiff : ∀ st, (s.added st).map Prod.fst = some t ↔ st = us.stockObj := by
      intro st
      rw [← hget]
      constructor
      · intro ht
        obtain ⟨us', hus', rfl⟩ := hw.getUserStock_some ht
        rw [Option.some.inj (hus'.symm.trans hus)]
      · rintro rfl
        exact hw.getUserStock_obj hus
    refine ⟨hw', fun st => ?_, fun {st a n} ha => ?_⟩
    · rw [hrem.get, hget]
      simp only [hiff]
      split_ifs <;> rfl
    · dsimp only at ha
      split_ifs at ha with hst
      obtain ⟨us', hus', hrest⟩ := hobj ha
      have hat : a ≠ t := by
        rintro rfl
        exact hst (by rw [ha, Option.map_some])
      exact ⟨us', by rw [hrem.obj, Function.update_of_ne hat]; exact hus', hrest⟩

/-- In every run of `addUserStock` and `removeUserStock`, `getUserStock` finds for each stock what was
    added and not removed; adding a stock that is there gives its object and changes nothing, and
    removing takes that object out and nothing else, and frees just the nodes that nothing needs. -/
theorem holdings_exact (calls : List Call) (s : Kept)
    (h : exec step ⟨init, fun _ => none⟩ calls = some s) :
    Exact s ∧
      (∀ st num t, s.m.getUserStock st = some t → ∃ m', s.m.addUserStock st num = (m', some t) ∧
        m'.obj = s.m.obj ∧ ∀ st', m'.getUserStock st' = s.m.getUserStock st') ∧
      ∀ t us, s.m.obj t = some us →
        ∃ m' freed, s.m.removeUserStock t = some (m', freed) ∧ Removes s.m t us m' freed := by
  have hinit : (init).WF ∧ Exact ⟨init, fun _ => none⟩ := by
    refine ⟨wf_init, fun st => ?_, fun {st t n} ha => by cases ha⟩
    rw [wf_init.getUserStock_eq]
    exact Trie.objAt_empty _
  obtain ⟨hw, hexact⟩ := @exec_inv _ _ step (fun s => s.m.WF ∧ Exact s)
    (fun _ _ _ => step_exact) calls _ s hinit h
  refine ⟨hexact, fun st num t ht => ?_, fun t us hus => ?_⟩
  · obtain ⟨m', hadd, _, hobj, hget⟩ := hw.addUserStock_old ht num
    exact ⟨m', hadd, hobj, hget⟩
  · obtain ⟨m', freed, hrm, _, hrem⟩ := hw.removeUserStock_spec hus
    exact ⟨m', freed, hrm, hrem⟩

def abcThenAbb : List Call := [.add stockABC 5, .add stockABB 7]

/-- With holdings of ABC and ABB, removing the first leaves the second. -/
theorem holdings_exact_abc_abb :
    ∃ s, exec step ⟨init, fun _ => none⟩ abcThenAbb = some s ∧ Exact s ∧
      ∃ us m' freed, s.m.obj 0 = some us ∧ s.m.removeUserStock 0 = some (m', freed) ∧
        Removes s.m 0 us m' freed ∧ freed.map Prod.fst = [[2, 1, 0]] := by
  obtain ⟨s, hs⟩ : ∃ s, exec step ⟨init, fun _ => none⟩ abcThenAbb = some s := ⟨_, rfl⟩
  obtain ⟨hexact, _, hremove⟩ := holdings_exact abcThenAbb s hs
  have hget : (exec step ⟨init, fun _ => none⟩ abcThenAbb).any fun s =>
      (s.m.obj 0).isSome && (s.m.removeUserStock 0).any fun r => r.2.map Prod.fst = [[2, 1, 0]] := by
    decide
  rw [hs, Option.any_some, Bool.and_eq_true] at hget
  obtain ⟨us, hus⟩ := Option.isSome_iff_exists.mp hget.1
  obtain ⟨m', freed, hrm, hrem⟩ := hremove 0 us hus
  have hfreed := hget.2
  rw [hrm, Option.any_some, decide_eq_true_eq] at hfreed
  exact ⟨s, hs, hexact, us, m', freed, hus, hrm, hrem, hfreed⟩

/-! ### Holdings as values

    The tree of `Server` has in place of an object its stock and its count. -/

def value (us : UserStockObj) : UserStock := ⟨us.num, us.stockObj⟩

def values (m : UsMem) : Trie UserStock := fun p =>
  (m.usTree p).map fun nd => ⟨nd.obj.bind fun t => (m.obj t).map value, nd.child⟩

theorem isSome_values (m : UsMem) (p : Path) : (m.values p).isSome = (m.usTree p).isSome :=
  Option.isSome_map

theorem objAt_values (m : UsMem) (p : Path) :
    m.values.objAt p = (m.usTree.objAt p).bind fun t => (m.obj t).map value := by
  unfold Trie.objAt values
  cases m.usTree p <;> rfl

theorem WF.values (hw : WF m) : Trie.WF STOCK_CHARS m.values where
  root := by
    rw [isSome_values]
    exact hw.tree.root
  parent {a p} h := by
    rw [isSome_values] at h
    obtain ⟨ha, nd, hnd, hc⟩ := hw.tree.parent h
    exact ⟨ha, _, by rw [UsMem.values, hnd, Option.map_some], hc⟩
  child {p nd} h hc := by
    obtain ⟨nd', hnd', rfl⟩ := Option.map_eq_some_iff.mp h
    obtain ⟨a, ha⟩ := hw.tree.child hnd' hc
    exact ⟨a, by rw [isSome_values]; exact ha⟩

/-- Both trees give the same holding of a stock. -/
theorem WF.getUserStock_values (hw : WF m) (st : StockID) : TradeC.getUserStock m.values st =
    (m.getUserStock st).bind fun t => (m.obj t).map value := by
  rw [TradeC.getUserStock_eq hw.values, objAt_values, hw.getUserStock_eq]

/-- A new holding is the same one in both. -/
theorem WF.addUserStock_values (hw : WF m) {st : StockID} (hnone : m.getUserStock st = none)
    (num : ℤ) (st' : StockID) :
    TradeC.getUserStock (m.addUserStock st num).1.values st' =
      TradeC.getUserStock (TradeC.addUserStock m.values st num).1 st' := by
  obtain ⟨m', hadd, hw', hobj, hget⟩ := hw.addUserStock_new hnone num
  have hnone' : TradeC.getUserStock m.values st = none := by
    rw [hw.getUserStock_values, hnone, Option.bind_none]
  rw [hadd, hw'.getUserStock_values, hget,
    (TradeC.getUserStock_addUserStock hw.values hnone' num).2.2 st']
  by_cases hst : st' = st
  · rw [if_pos hst, if_pos hst, Option.bind_some, hobj, Function.update_self]
    rfl
  · rw [if_neg hst, if_neg hst, hw.getUserStock_values]
    cases ht : m.getUserStock st' with
    | none => rfl
    | some t =>
      obtain ⟨us, hus, _⟩ := hw.getUserStock_some ht
      have hne : t ≠ m.fresh := fun e => absurd (hw.fresh hus) (by rw [e]; exact lt_irrefl _)
      rw [Option.bind_some, Option.bind_some, hobj, Function.update_of_ne hne]

end UsMem
end TradeC
