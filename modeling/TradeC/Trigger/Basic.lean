import TradeC.Str
import TradeC.Lib.Ring
import TradeC.Lib.Trie
import Mathlib.Data.List.Perm.Subperm

/-! Triggers, as `addTrigger`, `getTrigger` and `removeTrigger` keep them.

    A trigger object is in two structures: the trigger tree of its user, under the letters of its
    stock (slots 0 to 25 for type 'b', 26 to 51 for 's'), and the ring of its stock. `Mem` is both,
    with the objects. `removeTrigger` has no result where the source would write to a tree node that
    has been freed. `Mem.WF` is what every run keeps; it says that each tree entry is a live trigger
    stored under its own key, and that the rings link exactly the live triggers. -/

namespace TradeC

def STOCK_CHARS : ℕ := 26

inductive TType where | b | s
  deriving DecidableEq

abbrev TrigID := ℕ

structure Trigger where
  type : TType
  trig : ℤ
  amount : ℤ
  transID : CStr
  parent : Path
  userObj : UserID
  stockObj : StockID
  deriving DecidableEq

structure Mem where
  /-- The objects allocated and not freed. -/
  obj : TrigID → Option Trigger
  fresh : TrigID
  ring : StockID → Ring TrigID
  tTree : UserID → Trie TrigID

/-- The child slot of a letter in `getTrigger` and `addTrigger`. -/
def slot (type : TType) (c : Char) : Option ℕ :=
  if 64 < ord c ∧ ord c < 91 then
    match type with
    | .b => some (ord c - 65).toNat
    | .s => some (STOCK_CHARS + ord c - 65).toNat
  else none

/-- What `removeTrigger` subtracts from a letter to get its slot. -/
def addrType : TType → ℤ
  | .b => 65
  | .s => 65 - STOCK_CHARS

namespace Mem

def init : Mem := ⟨fun _ => none, 0, fun _ => ⟨none, id, id⟩, fun _ => Trie.empty⟩

def getTrigger (m : Mem) (userObj : UserID) (stockObj : StockID) (type : TType) : Option TrigID :=
  Trie.find (slot type) stockObj.str [] (m.tTree userObj)

def addTrigger (m : Mem) (userObj : UserID) (transID : CStr) (stockObj : StockID) (type : TType)
    (amount trigPrc : ℤ) : Mem × Option TrigID :=
  let (tree, temp) := Trie.insertPath (slot type) stockObj.str [] (m.tTree userObj)
  match temp with
  | none => ({ m with tTree := Function.update m.tTree userObj tree }, none)
  | some temp =>
    match tree.objAt temp with
    | some t => ({ m with tTree := Function.update m.tTree userObj tree }, some t)
    | none =>
      let nTrigger := m.fresh
      ({ obj := Function.update m.obj nTrigger
            (some ⟨type, trigPrc, amount, transID, temp, userObj, stockObj⟩)
         fresh := nTrigger + 1
         ring := Function.update m.ring stockObj ((m.ring stockObj).insert nTrigger)
         tTree := Function.update m.tTree userObj (tree.setObj temp (some nTrigger)) },
        some nTrigger)

/-- The slots that the loop of `removeTrigger` clears, from the node of the trigger up. The loop
    starts from `stockLen = strlen(stockID) - 1`, so that the first slot comes from the second letter. -/
def clearedSlots (tr : Trigger) : List ℕ :=
  let stockLen := tr.stockObj.str.length - 1
  (tr.stockObj.str.take stockLen).reverse.map fun c => (ord c - addrType tr.type).toNat

/-- `removeTrigger`, and the tree nodes it frees. -/
def removeTrigger (m : Mem) (trigObj : TrigID) : Option (Mem × List (Path × Node TrigID)) :=
  (m.obj trigObj).bind fun tr =>
    let tree := m.tTree tr.userObj
    if tree.objAt tr.parent = some trigObj then
      let r := Trie.climb (2 * STOCK_CHARS) (clearedSlots tr) tr.parent (tree.setObj tr.parent none)
      some ({ obj := Function.update m.obj trigObj none
              fresh := m.fresh
              ring := Function.update m.ring tr.stockObj ((m.ring tr.stockObj).unlink trigObj)
              tTree := Function.update m.tTree tr.userObj r.1 }, r.2)
    else none

/-- The triggers met on following a stock's ring from its cursor. -/
def linked (m : Mem) (stockObj : StockID) : List TrigID := (m.ring stockObj).toList m.fresh

/-- The tree address of a key. -/
def keyOf (stockObj : StockID) (type : TType) : Path := (stockObj.str.filterMap (slot type)).reverse

structure WF (m : Mem) : Prop where
  tree : ∀ u, Trie.WF (2 * STOCK_CHARS) (m.tTree u)
  held : ∀ {u p t}, (m.tTree u).objAt p = some t →
    ∃ tr, m.obj t = some tr ∧ tr.userObj = u ∧ tr.parent = p
  key : ∀ {t tr}, m.obj t = some tr → tr.parent = keyOf tr.stockObj tr.type
  live : ∀ {t tr}, m.obj t = some tr → t < m.fresh
  ring : ∀ st, ∃ l, (m.ring st).Shows l ∧
    ∀ t, t ∈ l ↔ ∃ tr, m.obj t = some tr ∧ tr.stockObj = st

/-! ### Keys and their addresses -/

theorem slot_upper {c : Char} (hc : isUpper c) (type : TType) :
    ∃ a, slot type c = some a ∧ a < 2 * STOCK_CHARS := by
  have hb : 64 < ord c ∧ ord c < 91 := by simpa [isUpper] using hc
  cases type <;> simp only [slot, hb, and_self, if_true, STOCK_CHARS] <;>
    exact ⟨_, rfl, by omega⟩

theorem slot_lt (type : TType) (c : Char) (a : ℕ) (h : slot type c = some a) :
    a < 2 * STOCK_CHARS := by
  unfold slot at h
  split_ifs at h with hb
  cases type <;> simp only [Option.some.injEq, STOCK_CHARS] at h ⊢ <;> omega

theorem slot_inj {ty ty' : TType} {c c' : Char} {a : ℕ} (h : slot ty c = some a)
    (h' : slot ty' c' = some a) : ty = ty' ∧ ord c = ord c' := by
  unfold slot at h h'
  split_ifs at h h' with hb hb'
  cases ty <;> cases ty' <;> simp only [Option.some.injEq, STOCK_CHARS] at h h' <;>
    first | exact ⟨rfl, by omega⟩ | (exfalso; omega)

theorem keyPath_filterMap (type : TType) : ∀ {cs : CStr}, cs.all isUpper → ∀ p : Path,
    Trie.keyPath (slot type) cs p = some ((cs.filterMap (slot type)).reverse ++ p) := by
  intro cs
  induction cs with
  | nil =>
    intro _ p
    simp [Trie.keyPath]
  | cons c cs ih =>
    intro h p
    rw [List.all_cons, Bool.and_eq_true] at h
    obtain ⟨a, ha, _⟩ := slot_upper h.1 type
    rw [Trie.keyPath, ha, Option.bind_some, ih h.2 (a :: p),
      List.filterMap_cons_some ha]
    simp

theorem keyPath_keyOf (st : StockID) (type : TType) :
    Trie.keyPath (slot type) st.str [] = some (keyOf st type) := by
  rw [keyPath_filterMap type st.all_isUpper, List.append_nil]
  rfl

theorem slots_inj {ty ty' : TType} : ∀ {cs cs' : CStr}, cs.all isUpper → cs'.all isUpper →
    cs.filterMap (slot ty) = cs'.filterMap (slot ty') → cs = cs' ∧ (cs ≠ [] → ty = ty') := by
  intro cs
  induction cs with
  | nil =>
    intro cs' _ h' h
    cases cs' with
    | nil => exact ⟨rfl, fun h => absurd rfl h⟩
    | cons c cs' =>
      rw [List.all_cons, Bool.and_eq_true] at h'
      obtain ⟨a, ha, _⟩ := slot_upper h'.1 ty'
      simp [List.filterMap_cons_some ha] at h
  | cons c cs ih =>
    intro cs' h h' heq
    rw [List.all_cons, Bool.and_eq_true] at h
    obtain ⟨a, ha, _⟩ := slot_upper h.1 ty
    cases cs' with
    | nil => simp [List.filterMap_cons_some ha] at heq
    | cons c' cs' =>
      rw [List.all_cons, Bool.and_eq_true] at h'
      obtain ⟨a', ha', _⟩ := slot_upper h'.1 ty'
      rw [List.filterMap_cons_some ha, List.filterMap_cons_some ha', List.cons_eq_cons] at heq
      obtain ⟨rfl, heq⟩ := heq
      obtain ⟨hty, hord⟩ := slot_inj ha ha'
      rw [ord_inj hord, (ih h.2 h'.2 heq).1]
      exact ⟨rfl, fun _ => hty⟩

/-- Different keys have different addresses. -/
theorem keyOf_inj {st st' : StockID} {ty ty' : TType} (h : keyOf st ty = keyOf st' ty') :
    st = st' ∧ ty = ty' := by
  obtain ⟨hst, hty⟩ := slots_inj st.all_isUpper st'.all_isUpper (List.reverse_inj.mp h)
  have hne : st.str ≠ [] := by
    intro he
    have := st.length_eq
    simp [he] at this
  cases st
  cases st'
  cases hst
  exact ⟨rfl, hty hne⟩

theorem length_keyOf (st : StockID) (type : TType) : (keyOf st type).length = 3 := by
  have hlen : ∀ {cs : CStr}, cs.all isUpper → (cs.filterMap (slot type)).length = cs.length := by
    intro cs
    induction cs with
    | nil => exact fun _ => rfl
    | cons c cs ih =>
      intro h
      rw [List.all_cons, Bool.and_eq_true] at h
      obtain ⟨a, ha, _⟩ := slot_upper h.1 type
      simp [List.filterMap_cons_some ha, ih h.2]
  rw [keyOf, List.length_reverse, hlen st.all_isUpper, st.length_eq]

/-! ### The well-formed memory -/

theorem wf_init : WF init where
  tree _ := Trie.wf_empty
  held {u p t} h := by simp [init] at h
  key h := by simp [init] at h
  live h := by simp [init] at h
  ring st := ⟨[], rfl, by simp [init]⟩

variable {m : Mem}

/-- The list a ring shows, read off by following it. -/
theorem WF.shows (hw : WF m) (st : StockID) : (m.ring st).Shows (m.linked st) := by
  obtain ⟨l, hl, hmem⟩ := hw.ring st
  have hsub : l ⊆ List.range m.fresh := by
    intro t ht
    obtain ⟨tr, htr, _⟩ := (hmem t).mp ht
    exact List.mem_range.mpr (hw.live htr)
  have hlen : l.length ≤ m.fresh := by
    have := (hl.nodup.subperm hsub).length_le
    simpa using this
  rw [linked, Ring.toList_of_shows hl hlen]
  exact hl

theorem WF.mem_linked (hw : WF m) {st : StockID} {t : TrigID} :
    t ∈ m.linked st ↔ ∃ tr, m.obj t = some tr ∧ tr.stockObj = st := by
  obtain ⟨l, hl, hmem⟩ := hw.ring st
  have heq : m.linked st = l := by
    have hs := hw.shows st
    exact Ring.Shows.unique hs hl
  rw [heq, hmem]

theorem WF.getTrigger_eq (hw : WF m) (u : UserID) (st : StockID) (ty : TType) :
    m.getTrigger u st ty = (m.tTree u).objAt (keyOf st ty) :=
  Trie.find_eq (hw.tree u) (keyPath_keyOf st ty) (hw.tree u).root

/-- `getTrigger` returns a live trigger with the key it was asked for. -/
theorem WF.getTrigger_some (hw : WF m) {u : UserID} {st : StockID} {ty : TType} {t : TrigID}
    (h : m.getTrigger u st ty = some t) :
    ∃ tr, m.obj t = some tr ∧ tr.userObj = u ∧ tr.stockObj = st ∧ tr.type = ty := by
  rw [hw.getTrigger_eq] at h
  obtain ⟨tr, htr, hu, hp⟩ := hw.held h
  obtain ⟨hst, hty⟩ := keyOf_inj ((hw.key htr).symm.trans hp)
  exact ⟨tr, htr, hu, hst, hty⟩

/-! ### What adding does -/

/-- With no trigger of the key there, `addTrigger` allocates one, links it last in the ring of its
    stock and enters it in the tree; everything else stays. -/
theorem WF.addTrigger_new (hw : WF m) {u : UserID} {st : StockID} {ty : TType}
    (hnone : m.getTrigger u st ty = none) (tid : CStr) (amount trigPrc : ℤ) :
    ∃ m', m.addTrigger u tid st ty amount trigPrc = (m', some m.fresh) ∧ WF m' ∧
      m'.fresh = m.fresh + 1 ∧
      m'.obj = Function.update m.obj m.fresh
        (some ⟨ty, trigPrc, amount, tid, keyOf st ty, u, st⟩) ∧
      (∀ st', m'.linked st' = if st' = st then m.linked st ++ [m.fresh] else m.linked st') ∧
      ∀ u' st' ty', m'.getTrigger u' st' ty' =
        if u' = u ∧ st' = st ∧ ty' = ty then some m.fresh else m.getTrigger u' st' ty' := by
  obtain ⟨hpath, htree, hnode, hobj⟩ := Trie.insertPath_spec (t := m.tTree u) (slot_lt ty)
    (hw.tree u) (hw.tree u).root (keyPath_keyOf st ty)
  set ip := Trie.insertPath (slot ty) st.str [] (m.tTree u) with hip
  have hempty : ip.1.objAt (keyOf st ty) = none := by
    rw [hobj, ← hw.getTrigger_eq]
    exact hnone
  set tr : Trigger := ⟨ty, trigPrc, amount, tid, keyOf st ty, u, st⟩ with htr
  set m' : Mem :=
    { obj := Function.update m.obj m.fresh (some tr)
      fresh := m.fresh + 1
      ring := Function.update m.ring st ((m.ring st).insert m.fresh)
      tTree := Function.update m.tTree u (ip.1.setObj (keyOf st ty) (some m.fresh)) } with hm'
  have hadd : m.addTrigger u tid st ty amount trigPrc = (m', some m.fresh) := by
    have hpair : ip = (ip.1, some (keyOf st ty)) := Prod.ext rfl hpath
    unfold addTrigger
    rw [← hip, hpair]
    simp only [hempty]
    rfl
  have hfresh : m.obj m.fresh = none := by
    by_contra hne
    obtain ⟨tr', htr'⟩ := Option.ne_none_iff_exists'.mp hne
    exact absurd (hw.live htr') (lt_irrefl _)
  have hlive : ∀ {t tr'}, m'.obj t = some tr' → t = m.fresh ∧ tr' = tr ∨ m.obj t = some tr' := by
    intro t tr' h
    by_cases ht : t = m.fresh
    · subst ht
      exact .inl ⟨rfl, by simpa [hm'] using h.symm⟩
    · exact .inr (by simpa [hm', ht] using h)
  have hold : ∀ {t tr'}, m.obj t = some tr' → m'.obj t = some tr' := by
    intro t tr' h
    have ht : t ≠ m.fresh := by
      rintro rfl
      simp [hfresh] at h
    simpa [hm', ht] using h
  have hnotin : ∀ st', m.fresh ∉ m.linked st' := by
    intro st' hmem
    obtain ⟨tr', htr', _⟩ := hw.mem_linked.mp hmem
    simp [hfresh] at htr'
  have hobj' : ∀ u' p, (m'.tTree u').objAt p =
      if u' = u ∧ p = keyOf st ty then some m.fresh else (m.tTree u').objAt p := by
    intro u' p
    by_cases hu : u' = u
    · subst hu
      have hset := Trie.objAt_setObj (some m.fresh) hnode p
      simp only [hm', Function.update_self, hset, true_and, hobj]
    · simp [hm', hu]
  have hshows : ∀ st', (m'.ring st').Shows
      (if st' = st then m.linked st ++ [m.fresh] else m.linked st') := by
    intro st'
    by_cases hst : st' = st
    · subst hst
      simpa [hm'] using Ring.shows_insert (hw.shows st') (hnotin st')
    · simpa [hm', hst] using hw.shows st'
  have hwf : WF m' := by
    refine ⟨fun u' => ?_, ?_, ?_, ?_, fun st' => ⟨_, hshows st', fun t => ?_⟩⟩
    · by_cases hu : u' = u
      · subst hu
        simpa [hm'] using Trie.wf_setObj htree (keyOf st ty) (some m.fresh)
      · simpa [hm', hu] using hw.tree u'
    · intro u' p t h
      rw [hobj'] at h
      split_ifs at h with hk
      · obtain ⟨rfl, rfl⟩ := hk
        cases h
        exact ⟨tr, by simp [hm'], rfl, rfl⟩
      · obtain ⟨tr', htr', h₁, h₂⟩ := hw.held h
        exact ⟨tr', hold htr', h₁, h₂⟩
    · intro t tr' h
      rcases hlive h with ⟨_, rfl⟩ | h
      · rfl
      · exact hw.key h
    · intro t tr' h
      rcases hlive h with ⟨rfl, _⟩ | h
      · exact Nat.lt_succ_self _
      · exact Nat.lt_succ_of_lt (hw.live h)
    · have hin : t ∈ (if st' = st then m.linked st ++ [m.fresh] else m.linked st') ↔
          t ∈ m.linked st' ∨ st' = st ∧ t = m.fresh := by
        by_cases hst : st' = st
        · subst hst
          simp
        · simp [hst]
      rw [hin, hw.mem_linked]
      constructor
      · rintro (⟨tr', htr', hst'⟩ | ⟨rfl, rfl⟩)
        · exact ⟨tr', hold htr', hst'⟩
        · exact ⟨tr, by simp [hm'], rfl⟩
      · rintro ⟨tr', htr', rfl⟩
        rcases hlive htr' with ⟨rfl, rfl⟩ | h
        · exact .inr ⟨rfl, rfl⟩
        · exact .inl ⟨tr', h, rfl⟩
  refine ⟨m', hadd, hwf, rfl, rfl, fun st' => ?_, fun u' st' ty' => ?_⟩
  · exact (hwf.shows st').unique (hshows st')
  · rw [hwf.getTrigger_eq, hobj', hw.getTrigger_eq]
    have hiff : keyOf st' ty' = keyOf st ty ↔ st' = st ∧ ty' = ty :=
      ⟨keyOf_inj, fun h => by rw [h.1, h.2]⟩
    simp only [hiff]

/-- With a trigger of the key there, `addTrigger` returns it and at most builds its path. -/
theorem WF.addTrigger_old (hw : WF m) {u : UserID} {st : StockID} {ty : TType} {t : TrigID}
    (hsome : m.getTrigger u st ty = some t) (tid : CStr) (amount trigPrc : ℤ) :
    ∃ m', m.addTrigger u tid st ty amount trigPrc = (m', some t) ∧ WF m' ∧ m'.obj = m.obj ∧
      (∀ st', m'.linked st' = m.linked st') ∧
      ∀ u' p, (m'.tTree u').objAt p = (m.tTree u').objAt p := by
  obtain ⟨hpath, htree, _, hobj⟩ := Trie.insertPath_spec (t := m.tTree u) (slot_lt ty)
    (hw.tree u) (hw.tree u).root (keyPath_keyOf st ty)
  set ip := Trie.insertPath (slot ty) st.str [] (m.tTree u) with hip
  have hheld : ip.1.objAt (keyOf st ty) = some t := by
    rw [hobj, ← hw.getTrigger_eq]
    exact hsome
  have hcontent : ∀ u' p, (Function.update m.tTree u ip.1 u').objAt p = (m.tTree u').objAt p := by
    intro u' p
    by_cases hu : u' = u
    · subst hu
      simpa using hobj p
    · simp [hu]
  refine ⟨{ m with tTree := Function.update m.tTree u ip.1 }, ?_, ⟨fun u' => ?_, ?_, hw.key,
    hw.live, hw.ring⟩, rfl, fun _ => rfl, hcontent⟩
  · have hpair : ip = (ip.1, some (keyOf st ty)) := Prod.ext rfl hpath
    unfold addTrigger
    rw [← hip, hpair]
    simp only [hheld]
  · by_cases hu : u' = u
    · subst hu
      simpa using htree
    · simpa [hu] using hw.tree u'
  · intro u' p t' h
    exact hw.held (hcontent u' p ▸ h)

/-- `addTrigger` adds tree nodes only along the path of its key. -/
theorem addTrigger_nodes (hw : WF m) {u : UserID} {tid : CStr} {st : StockID} {ty : TType}
    {amount trigPrc : ℤ} {u' : UserID} {p : Path}
    (hp : ((m.addTrigger u tid st ty amount trigPrc).1.tTree u' p).isSome) :
    (m.tTree u' p).isSome ∨ p <:+ keyOf st ty := by
  by_cases hu : u' = u
  · subst hu
    refine Trie.isSome_of_insertPath (hw.tree u').root (keyPath_keyOf st ty) ?_
    unfold addTrigger at hp
    set ip := Trie.insertPath (slot ty) st.str [] (m.tTree u') with hip
    obtain ⟨tree, temp⟩ := ip
    cases temp with
    | none => simpa using hp
    | some temp =>
      cases hobj : tree.objAt temp with
      | some t => simpa [hobj] using hp
      | none => simpa [hobj, Trie.isSome_setObj] using hp
  · left
    unfold addTrigger at hp
    set ip := Trie.insertPath (slot ty) st.str [] (m.tTree u) with hip
    obtain ⟨tree, temp⟩ := ip
    cases temp with
    | none => simpa [hu] using hp
    | some temp =>
      cases hobj : tree.objAt temp with
      | some t => simpa [hobj, hu] using hp
      | none => simpa [hobj, hu] using hp

/-! ### What removing does -/

/-- A trigger that the tree holds can be removed. -/
theorem WF.removeTrigger_isSome (hw : WF m) {u : UserID} {st : StockID} {ty : TType} {t : TrigID}
    (h : m.getTrigger u st ty = some t) : ∃ r, m.removeTrigger t = some r := by
  rw [hw.getTrigger_eq] at h
  obtain ⟨tr, htr, rfl, hp⟩ := hw.held h
  simp [removeTrigger, htr, hp, h]

/-- `removeTrigger` frees the object, unlinks it from the ring of its stock and takes it out of the
    tree, which gains nothing; whether the tree loses more is another matter. -/
theorem WF.removeTrigger_spec (hw : WF m) {m' : Mem} {t : TrigID} {freed : List (Path × Node TrigID)}
    (h : m.removeTrigger t = some (m', freed)) :
    ∃ tr, m.obj t = some tr ∧ (m.tTree tr.userObj).objAt tr.parent = some t ∧ WF m' ∧
      m'.fresh = m.fresh ∧ m'.obj = Function.update m.obj t none ∧
      (∀ st', m'.linked st' =
        if st' = tr.stockObj then (m.linked st').erase t else m.linked st') ∧
      (∀ u, u ≠ tr.userObj → m'.tTree u = m.tTree u) ∧
      (m'.tTree tr.userObj, freed) = Trie.climb (2 * STOCK_CHARS) (clearedSlots tr) tr.parent
        ((m.tTree tr.userObj).setObj tr.parent none) := by
  obtain ⟨tr, htr, h⟩ := Option.bind_eq_some_iff.mp h
  simp only at h
  split_ifs at h with hheld
  obtain ⟨hm', hfreed⟩ := Prod.mk.inj (Option.some.inj h)
  have hobjs : m'.obj = Function.update m.obj t none := by rw [← hm']
  have hring : m'.ring = Function.update m.ring tr.stockObj ((m.ring tr.stockObj).unlink t) := by
    rw [← hm']
  have htree : m'.tTree = Function.update m.tTree tr.userObj
      (Trie.climb (2 * STOCK_CHARS) (clearedSlots tr) tr.parent
        ((m.tTree tr.userObj).setObj tr.parent none)).1 := by rw [← hm']
  have hfresh : m'.fresh = m.fresh := by rw [← hm']
  have hnode := Trie.isSome_of_objAt hheld
  have htmem : t ∈ m.linked tr.stockObj := hw.mem_linked.mpr ⟨tr, htr, rfl⟩
  have hshows : ∀ st', (m'.ring st').Shows
      (if st' = tr.stockObj then (m.linked st').erase t else m.linked st') := by
    intro st'
    by_cases hst : st' = tr.stockObj
    · subst hst
      simpa [hring] using Ring.shows_unlink (hw.shows tr.stockObj) htmem
    · simpa [hring, hst] using hw.shows st'
  have hlive : ∀ {t' tr'}, m'.obj t' = some tr' ↔ t' ≠ t ∧ m.obj t' = some tr' := by
    intro t' tr'
    by_cases ht : t' = t
    · subst ht
      simp [hobjs]
    · simp [hobjs, ht]
  have hobj : ∀ {u p t'}, (m'.tTree u).objAt p = some t' →
      (m.tTree u).objAt p = some t' ∧ ¬ (u = tr.userObj ∧ p = tr.parent) := by
    intro u p t' h
    by_cases hu : u = tr.userObj
    · subst hu
      have hback := Trie.objAt_of_climb (by simpa [htree] using h)
      rw [Trie.objAt_setObj none hnode] at hback
      split_ifs at hback with hp
      exact ⟨hback, fun hk => hp hk.2⟩
    · exact ⟨by simpa [htree, hu] using h, fun hk => hu hk.1⟩
  have hwf : WF m' := by
    refine ⟨fun u => ?_, ?_, ?_, ?_, fun st' => ⟨_, hshows st', fun t' => ?_⟩⟩
    · by_cases hu : u = tr.userObj
      · subst hu
        simpa [htree] using Trie.wf_climb (Trie.wf_setObj (hw.tree tr.userObj) tr.parent none)
      · simpa [htree, hu] using hw.tree u
    · intro u p t' h
      obtain ⟨hold, hne⟩ := hobj h
      obtain ⟨tr', htr', hu, hp⟩ := hw.held hold
      refine ⟨tr', hlive.mpr ⟨?_, htr'⟩, hu, hp⟩
      rintro rfl
      obtain rfl := Option.some.inj (htr'.symm.trans htr)
      exact hne ⟨hu.symm, hp.symm⟩
    · intro t' tr' h
      exact hw.key (hlive.mp h).2
    · intro t' tr' h
      rw [hfresh]
      exact hw.live (hlive.mp h).2
    · have hin : t' ∈ (if st' = tr.stockObj then (m.linked st').erase t else m.linked st') ↔
          t' ≠ t ∧ t' ∈ m.linked st' := by
        by_cases hst : st' = tr.stockObj
        · rw [if_pos hst, (hw.shows st').nodup.mem_erase_iff]
        · rw [if_neg hst]
          refine ⟨fun hmem => ⟨?_, hmem⟩, fun hmem => hmem.2⟩
          rintro rfl
          obtain ⟨tr', htr', rfl⟩ := hw.mem_linked.mp hmem
          exact hst (by rw [Option.some.inj (htr'.symm.trans htr)])
      rw [hin, hw.mem_linked]
      constructor
      · rintro ⟨hne, tr', htr', hst'⟩
        exact ⟨tr', hlive.mpr ⟨hne, htr'⟩, hst'⟩
      · rintro ⟨tr', htr', hst'⟩
        exact ⟨(hlive.mp htr').1, tr', (hlive.mp htr').2, hst'⟩
  exact ⟨tr, htr, hheld, hwf, hfresh, hobjs, fun st' => (hwf.shows st').unique (hshows st'),
    fun u hu => by simp [htree, hu], by simp [htree, ← hfreed]⟩

end Mem
end TradeC
