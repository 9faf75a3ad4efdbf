import TradeC.Server
import TradeC.Lib.Ring
import Mathlib.Data.List.Range

/-! The registries of users and stocks: `getUser` and `addUser`, `getStock` and `addStock`.

    A registry is a tree, whose slots are the characters of an ID, with a circular list of the same objects.
    Looking up and adding hold the mutex of the tree from the root to the object, so that each is one step;
    what `addUser` goes on to do with the new user's rows of the database are further steps. -/

namespace TradeC

def USER_CHARS : ℕ := 62

/-- The slot of a character in the tree of users. -/
def userSlot (c : Char) : Option ℕ :=
  if 47 < ord c ∧ ord c < 58 then some (ord c - 48).toNat
  else if 96 < ord c ∧ ord c < 123 then some (ord c - 87).toNat
  else if 64 < ord c ∧ ord c < 91 then some (ord c - 29).toNat
  else none

/-- The objects are numbered as they are allocated. -/
structure Registry where
  tree : Trie ℕ
  list : Ring ℕ
  num : ℕ
  -- the ID of each object
  objs : List CStr

namespace Registry

def empty : Registry := ⟨Trie.empty, ⟨none, fun _ => 0, fun _ => 0⟩, 0, []⟩

section
variable (slot : Char → Option ℕ) (counted : ℕ)

def get (r : Registry) (id : CStr) : Option ℕ := Trie.find slot id [] r.tree

/-- The object that is there, or a new one, which goes into the list and the tree; `counted` is what is then
    added to `num`. -/
def add (r : Registry) (id : CStr) : Registry × Option ℕ :=
  let (tree, temp) := Trie.insertPath slot id [] r.tree
  match temp with
  | none => ({ r with tree }, none)
  | some temp =>
    match tree.objAt temp with
    | some obj => ({ r with tree }, some obj)
    | none =>
      let obj := r.objs.length
      (⟨tree.setObj temp (some obj), r.list.insert obj, r.num + counted, r.objs ++ [id]⟩, some obj)

end
end Registry

/-- `uTree` with `uList`, and `sTree` with `sList`, which has no `num`. -/
structure Registries where
  users : Registry
  stocks : Registry

namespace Registries

def getUser (s : Registries) (userID : CStr) : Option ℕ := s.users.get userSlot userID

def addUser (s : Registries) (userID : CStr) : Registries × Option ℕ :=
  let (users, obj) := s.users.add userSlot 1 userID
  ({ s with users }, obj)

def getStock (s : Registries) (stockID : CStr) : Option ℕ := s.stocks.get usSlot stockID

def addStock (s : Registries) (stockID : CStr) : Registries × Option ℕ :=
  let (stocks, obj) := s.stocks.add usSlot 0 stockID
  ({ s with stocks }, obj)

inductive Event where
  | getUser (userID : CStr)
  | addUser (userID : CStr)
  | getStock (stockID : CStr)
  | addStock (stockID : CStr)

def step (s : Registries) : Event → Registries × Option ℕ
  | .getUser userID => (s, s.getUser userID)
  | .addUser userID => s.addUser userID
  | .getStock stockID => (s, s.getStock stockID)
  | .addStock stockID => s.addStock stockID

def runFrom (s : Registries) (es : List Event) : Registries := es.foldl (fun s e => (s.step e).1) s

def run (es : List Event) : Registries := runFrom ⟨.empty, .empty⟩ es

namespace Event

/-- The IDs that are added have characters of IDs only. -/
def Valid : Event → Prop
  | .addUser userID => userID.all isAlnum
  | .addStock stockID => stockID.all isUpper
  | .getUser _ | .getStock _ => True

def addsUser : Event → Option CStr
  | .addUser userID => some userID
  | _ => none

def addsStock : Event → Option CStr
  | .addStock stockID => some stockID
  | _ => none

end Event
end Registries

/-! ### Slots -/

theorem userSlot_lt (c : Char) (a : ℕ) (h : userSlot c = some a) : a < USER_CHARS := by
  unfold userSlot at h
  split_ifs at h <;> simp only [Option.some.injEq, USER_CHARS] at h ⊢ <;> omega

/-- The three ranges have different slots. -/
theorem userSlot_inj (c c' : Char) (a : ℕ) (h : userSlot c = some a) (h' : userSlot c' = some a) :
    c = c' := by
  refine ord_inj ?_
  unfold userSlot at h h'
  split_ifs at h h' <;> simp only [Option.some.injEq] at h h' <;> omega

theorem usSlot_inj (c c' : Char) (a : ℕ) (h : usSlot c = some a) (h' : usSlot c' = some a) : c = c' := by
  refine ord_inj ?_
  unfold usSlot at h h'
  split_ifs at h h'
  simp only [Option.some.injEq] at h h'
  omega

theorem userSlot_isSome {c : Char} (h : isAlnum c = true) : ∃ a, userSlot c = some a := by
  simp only [isAlnum, Bool.or_eq_true, Bool.and_eq_true, decide_eq_true_eq] at h
  unfold userSlot
  split_ifs
  · exact ⟨_, rfl⟩
  · exact ⟨_, rfl⟩
  · exact ⟨_, rfl⟩
  · omega

theorem usSlot_isSome {c : Char} (h : isUpper c = true) : ∃ a, usSlot c = some a := by
  simp only [isUpper, Bool.and_eq_true, decide_eq_true_eq] at h
  exact ⟨_, if_pos h⟩

theorem keyPath_isSome {slot : Char → Option ℕ} {ok : Char → Bool}
    (hslot : ∀ {c}, ok c = true → ∃ a, slot c = some a) : ∀ {id : CStr}, id.all ok → ∀ p : Path,
      ∃ q, Trie.keyPath slot id p = some q := by
  intro id
  induction id with
  | nil =>
    intro _ p
    exact ⟨p, rfl⟩
  | cons c cs ih =>
    intro h p
    rw [List.all_cons, Bool.and_eq_true] at h
    obtain ⟨a, ha⟩ := hslot h.1
    obtain ⟨q, hq⟩ := ih h.2 (a :: p)
    exact ⟨q, by rw [Trie.keyPath, ha, Option.bind_some, hq]⟩

namespace Registry
variable {slot : Char → Option ℕ} {counted n : ℕ} {r : Registry}

/-! ### One registry -/

/-- The tree holds each object at the address of its ID, and nothing else; the list has them in the order in
    which they were made. -/
structure Inv (slot : Char → Option ℕ) (counted n : ℕ) (r : Registry) : Prop where
  wf : Trie.WF n r.tree
  nodup : r.objs.Nodup
  path : ∀ id ∈ r.objs, ∃ p, Trie.keyPath slot id [] = some p
  content : ∀ p obj, r.tree.objAt p = some obj ↔
    ∃ id, r.objs[obj]? = some id ∧ Trie.keyPath slot id [] = some p
  list : r.list.Shows (List.range r.objs.length)
  num : r.num = counted * r.objs.length

theorem inv_empty : Inv slot counted n empty where
  wf := Trie.wf_empty
  nodup := List.nodup_nil
  path _ h := absurd h List.not_mem_nil
  content p obj := by simp [empty]
  list := rfl
  num := rfl

/-- Only the object of the ID is found for it. -/
theorem Inv.get_iff (hinj : ∀ c c' a, slot c = some a → slot c' = some a → c = c')
    (h : Inv slot counted n r) (id : CStr) (obj : ℕ) : r.get slot id = some obj ↔ r.objs[obj]? = some id := by
  cases hpath : Trie.keyPath slot id [] with
  | none =>
    rw [get, Trie.find_none hpath]
    refine iff_of_false (by simp) fun hid => ?_
    obtain ⟨p, hp⟩ := h.path id (List.mem_of_getElem? hid)
    rw [hpath] at hp
    cases hp
  | some p =>
    rw [get, Trie.find_eq h.wf hpath h.wf.root, h.content]
    constructor
    · rintro ⟨id', hid', hpath'⟩
      rw [Trie.keyPath_inj hinj hpath hpath']
      exact hid'
    · intro hid
      exact ⟨id, hid, hpath⟩

/-- What is done for an ID: its object is returned, and a new one is made if there was none. -/
theorem Inv.add (hlt : ∀ c a, slot c = some a → a < n)
    (hinj : ∀ c c' a, slot c = some a → slot c' = some a → c = c') (h : Inv slot counted n r) {id : CStr}
    {p : Path} (hpath : Trie.keyPath slot id [] = some p) :
    Inv slot counted n (r.add slot counted id).1 ∧
      (r.add slot counted id).1.objs = (if id ∈ r.objs then r.objs else r.objs ++ [id]) ∧
      ∃ obj, (r.add slot counted id).2 = some obj ∧ (r.add slot counted id).1.objs[obj]? = some id := by
  obtain ⟨htemp, hwf, hnode, hobj⟩ := Trie.insertPath_spec hlt h.wf h.wf.root hpath
  have hcontent : ∀ q obj, Trie.objAt (Trie.insertPath slot id [] r.tree).1 q = some obj ↔
      ∃ id, r.objs[obj]? = some id ∧ Trie.keyPath slot id [] = some q := fun q obj => by
    rw [hobj, h.content]
  cases hfound : Trie.objAt (Trie.insertPath slot id [] r.tree).1 p with
  | some obj =>
    have hadd : r.add slot counted id = ({ r with tree := (Trie.insertPath slot id [] r.tree).1 }, some obj) := by
      simp only [Registry.add, htemp, hfound]
    obtain ⟨id', hid', hpath'⟩ := (hcontent p obj).mp hfound
    obtain rfl := Trie.keyPath_inj hinj hpath' hpath
    rw [hadd, if_pos (List.mem_of_getElem? hid')]
    exact ⟨⟨hwf, h.nodup, h.path, hcontent, h.list, h.num⟩, rfl, obj, rfl, hid'⟩
  | none =>
    have hadd : r.add slot counted id = (⟨(Trie.insertPath slot id [] r.tree).1.setObj p (some r.objs.length),
        r.list.insert r.objs.length, r.num + counted, r.objs ++ [id]⟩, some r.objs.length) := by
      simp only [Registry.add, htemp, hfound]
    have hnew : id ∉ r.objs := by
      intro hmem
      obtain ⟨obj, hid⟩ := List.mem_iff_getElem?.mp hmem
      rw [(hcontent p obj).mpr ⟨id, hid, hpath⟩] at hfound
      cases hfound
    rw [hadd, if_neg hnew]
    refine ⟨⟨Trie.wf_setObj hwf p _, ?_, ?_, fun q obj => ?_, ?_, ?_⟩, rfl, _, rfl, List.getElem?_concat_length ..⟩
    · exact List.nodup_append.mpr ⟨h.nodup, List.nodup_singleton id, fun a ha b hb =>
        fun heq => hnew (List.mem_singleton.mp hb ▸ heq ▸ ha)⟩
    · intro id' hid'
      rcases List.mem_append.mp hid' with hid' | hid'
      · exact h.path id' hid'
      · exact ⟨p, List.mem_singleton.mp hid' ▸ hpath⟩
    · rw [Trie.objAt_setObj _ hnode]
      by_cases hq : q = p
      · rw [if_pos hq, hq]
        constructor
        · rintro ⟨⟩
          exact ⟨id, List.getElem?_concat_length .., hpath⟩
        · rintro ⟨id', hid', hpath'⟩
          obtain rfl := Trie.keyPath_inj hinj hpath' hpath
          rw [List.getElem?_append] at hid'
          split_ifs at hid' with hlen
          · exact absurd (List.mem_of_getElem? hid') hnew
          · have hzero := (List.getElem?_eq_some_iff.mp hid').1
            rw [List.length_singleton] at hzero
            congr 1
            omega
      · rw [if_neg hq, hcontent]
        constructor
        · rintro ⟨id', hid', hpath'⟩
          exact ⟨id', by rw [List.getElem?_append_left (List.getElem?_eq_some_iff.mp hid').1]; exact hid',
            hpath'⟩
        · rintro ⟨id', hid', hpath'⟩
          refine ⟨id', ?_, hpath'⟩
          rw [List.getElem?_append] at hid'
          split_ifs at hid' with hlen
          · exact hid'
          · rw [List.getElem?_singleton] at hid'
            split_ifs at hid'
            cases hid'
            rw [hpath] at hpath'
            exact absurd (Option.some.inj hpath').symm hq
    · rw [List.length_append, List.length_singleton, List.range_succ]
      exact Ring.shows_insert h.list (by simp)
    · rw [List.length_append, List.length_singleton, Nat.mul_add, ← h.num, Nat.mul_one]

/-- A registry after the IDs of `added` have been added. -/
structure Exact (slot : Char → Option ℕ) (counted : ℕ) (added : List CStr) (r : Registry) : Prop where
  -- no two objects have one ID, and the IDs are those that have been added
  nodup : r.objs.Nodup
  added : ∀ id, id ∈ r.objs ↔ id ∈ added
  -- for any string the object of that ID is found, or none
  get : ∀ id obj, r.get slot id = some obj ↔ r.objs[obj]? = some id
  -- from the first object on, `next` and `prev` link them all
  list : r.list.Shows (List.range r.objs.length)
  num : r.num = counted * r.objs.length

theorem Inv.exact (hinj : ∀ c c' a, slot c = some a → slot c' = some a → c = c')
    (h : Inv slot counted n r) {added : List CStr} (hadded : ∀ id, id ∈ r.objs ↔ id ∈ added) :
    Exact slot counted added r := ⟨h.nodup, hadded, h.get_iff hinj, h.list, h.num⟩

end Registry

/-! ### Runs -/

namespace Registries
open Registry

structure Inv (s : Registries) : Prop where
  users : Registry.Inv userSlot 1 USER_CHARS s.users
  stocks : Registry.Inv usSlot 0 STOCK_CHARS s.stocks

theorem Inv.addUser {s : Registries} (h : s.Inv) {userID : CStr} (hvalid : userID.all isAlnum) :
    (s.addUser userID).1.Inv ∧
      (s.addUser userID).1.users.objs =
        (if userID ∈ s.users.objs then s.users.objs else s.users.objs ++ [userID]) ∧
      ∃ obj, (s.addUser userID).2 = some obj ∧ (s.addUser userID).1.users.objs[obj]? = some userID := by
  obtain ⟨p, hpath⟩ := keyPath_isSome userSlot_isSome hvalid []
  obtain ⟨hinv, hobjs, hobj⟩ := h.users.add userSlot_lt userSlot_inj hpath
  exact ⟨⟨hinv, h.stocks⟩, hobjs, hobj⟩

theorem Inv.addStock {s : Registries} (h : s.Inv) {stockID : CStr} (hvalid : stockID.all isUpper) :
    (s.addStock stockID).1.Inv ∧
      (s.addStock stockID).1.stocks.objs =
        (if stockID ∈ s.stocks.objs then s.stocks.objs else s.stocks.objs ++ [stockID]) ∧
      ∃ obj, (s.addStock stockID).2 = some obj ∧ (s.addStock stockID).1.stocks.objs[obj]? = some stockID := by
  obtain ⟨p, hpath⟩ := keyPath_isSome usSlot_isSome hvalid []
  obtain ⟨hinv, hobjs, hobj⟩ := h.stocks.add usSlot_lt usSlot_inj hpath
  exact ⟨⟨h.users, hinv⟩, hobjs, hobj⟩

/-- The objects after the additions of a run are those before, and behind them the new ones. -/
structure Grows (objs objs' : List CStr) (added : List CStr) : Prop where
  old : objs <+: objs'
  new : ∀ id, id ∈ objs' ↔ id ∈ objs ∨ id ∈ added

theorem Grows.refl (objs : List CStr) : Grows objs objs [] := ⟨List.prefix_rfl, by simp⟩

theorem Grows.trans {objs objs' objs'' added added' : List CStr} (h : Grows objs objs' added)
    (h' : Grows objs' objs'' added') : Grows objs objs'' (added ++ added') := by
  refine ⟨h.old.trans h'.old, fun id => ?_⟩
  rw [h'.new, h.new, List.mem_append, or_assoc]

theorem Grows.one (objs : List CStr) (id : CStr) :
    Grows objs (if id ∈ objs then objs else objs ++ [id]) [id] := by
  split_ifs with hmem
  · refine ⟨List.prefix_rfl, fun id' => ⟨Or.inl, ?_⟩⟩
    rintro (h | h)
    · exact h
    · exact List.mem_singleton.mp h ▸ hmem
  · exact ⟨List.prefix_append _ _, fun id' => List.mem_append⟩

theorem step_inv {s : Registries} (h : s.Inv) {e : Event} (hvalid : e.Valid) :
    (s.step e).1.Inv ∧ Grows s.users.objs (s.step e).1.users.objs e.addsUser.toList ∧
      Grows s.stocks.objs (s.step e).1.stocks.objs e.addsStock.toList := by
  cases e with
  | getUser userID => exact ⟨h, Grows.refl _, Grows.refl _⟩
  | getStock stockID => exact ⟨h, Grows.refl _, Grows.refl _⟩
  | addUser userID =>
    obtain ⟨hinv, hobjs, -⟩ := h.addUser hvalid
    refine ⟨hinv, ?_, Grows.refl _⟩
    rw [step, hobjs]
    exact Grows.one _ _
  | addStock stockID =>
    obtain ⟨hinv, hobjs, -⟩ := h.addStock hvalid
    refine ⟨hinv, Grows.refl _, ?_⟩
    rw [step, hobjs]
    exact Grows.one _ _

theorem runFrom_inv : ∀ (es : List Event) {s : Registries}, s.Inv → (∀ e ∈ es, e.Valid) →
    (runFrom s es).Inv ∧ Grows s.users.objs (runFrom s es).users.objs (es.filterMap Event.addsUser) ∧
      Grows s.stocks.objs (runFrom s es).stocks.objs (es.filterMap Event.addsStock) := by
  intro es
  induction es with
  | nil =>
    intro _ h _
    exact ⟨h, Grows.refl _, Grows.refl _⟩
  | cons e es ih =>
    intro s h hvalid
    obtain ⟨hinv, husers, hstocks⟩ := step_inv h (hvalid e List.mem_cons_self)
    obtain ⟨hinv', husers', hstocks'⟩ :=
      ih hinv fun e' he' => hvalid e' (List.mem_cons_of_mem e he')
    have hadds : ∀ f : Event → Option CStr, (e :: es).filterMap f = (f e).toList ++ es.filterMap f := by
      intro f
      cases hf : f e <;> simp [hf]
    rw [hadds, hadds]
    exact ⟨hinv', husers.trans husers', hstocks.trans hstocks'⟩

theorem run_inv {es : List Event} (hvalid : ∀ e ∈ es, e.Valid) :
    (run es).Inv ∧ (∀ id, id ∈ (run es).users.objs ↔ id ∈ es.filterMap Event.addsUser) ∧
      ∀ id, id ∈ (run es).stocks.objs ↔ id ∈ es.filterMap Event.addsStock := by
  have hstart : Inv ⟨.empty, .empty⟩ := ⟨inv_empty, inv_empty⟩
  obtain ⟨hinv, husers, hstocks⟩ := runFrom_inv es hstart hvalid
  refine ⟨hinv, fun id => ?_, fun id => ?_⟩
  · rw [run, husers.new]
    simp [Registry.empty]
  · rw [run, hstocks.new]
    simp [Registry.empty]

/-- What a call returns in a run is what is found at its end: an addition returns the object of the ID, and
    a lookup returns it if the ID has been added before, and NULL otherwise. -/
structure Returns (es : List Event) (e : Event) (es' : List Event) : Prop where
  addUser : ∀ userID, e = .addUser userID → ∃ obj, ((run es).step e).2 = some obj ∧
    (run (es ++ e :: es')).getUser userID = some obj
  getUser : ∀ userID, e = .getUser userID → ((run es).step e).2 =
    if userID ∈ es.filterMap Event.addsUser then (run (es ++ e :: es')).getUser userID else none
  addStock : ∀ stockID, e = .addStock stockID → ∃ obj, ((run es).step e).2 = some obj ∧
    (run (es ++ e :: es')).getStock stockID = some obj
  getStock : ∀ stockID, e = .getStock stockID → ((run es).step e).2 =
    if stockID ∈ es.filterMap Event.addsStock then (run (es ++ e :: es')).getStock stockID else none

theorem getElem?_of_old {objs objs' : List CStr} (h : objs <+: objs') {obj : ℕ} {id : CStr}
    (hobj : objs[obj]? = some id) : objs'[obj]? = some id := by
  obtain ⟨rest, rfl⟩ := h
  rw [List.getElem?_append_left (List.getElem?_eq_some_iff.mp hobj).1, hobj]

/-- An object stays that of its ID. -/
theorem get_of_old {slot : Char → Option ℕ} {counted counted' : ℕ} {added added' : List CStr}
    {r r' : Registry} (h : Exact slot counted added r) (h' : Exact slot counted' added' r')
    (hold : r.objs <+: r'.objs) (id : CStr) :
    r.get slot id = if id ∈ added then r'.get slot id else none := by
  split_ifs with hmem
  · obtain ⟨obj, hobj⟩ := List.mem_iff_getElem?.mp ((h.added id).mpr hmem)
    rw [(h.get id obj).mpr hobj, (h'.get id obj).mpr (getElem?_of_old hold hobj)]
  · cases hget : r.get slot id with
    | none => rfl
    | some obj => exact absurd ((h.added id).mp (List.mem_of_getElem? ((h.get id obj).mp hget))) hmem

/-- In every run of valid additions and any lookups the registries are exact, and every call returns what it
    should. -/
theorem run_exact {es : List Event} (hvalid : ∀ e ∈ es, e.Valid) :
    Exact userSlot 1 (es.filterMap Event.addsUser) (run es).users ∧
    Exact usSlot 0 (es.filterMap Event.addsStock) (run es).stocks ∧
    ∀ es₁ e es₂, es = es₁ ++ e :: es₂ → Returns es₁ e es₂ := by
  obtain ⟨hinv, husers, hstocks⟩ := run_inv hvalid
  have hu := hinv.users.exact userSlot_inj husers
  have hs := hinv.stocks.exact usSlot_inj hstocks
  refine ⟨hu, hs, ?_⟩
  rintro es₁ e es₂ rfl
  obtain ⟨hinv₁, husers₁, hstocks₁⟩ := run_inv fun e' he' => hvalid e' (List.mem_append_left _ he')
  have hvalid₂ : ∀ e' ∈ e :: es₂, e'.Valid := fun e' he' => hvalid e' (List.mem_append_right _ he')
  have hrun : run (es₁ ++ e :: es₂) = runFrom ((run es₁).step e).1 es₂ := by
    rw [run, run, runFrom, List.foldl_append, List.foldl_cons]
    rfl
  obtain ⟨hinv', husers', hstocks'⟩ := step_inv hinv₁ (hvalid₂ e List.mem_cons_self)
  obtain ⟨-, hgrowu, hgrows⟩ := runFrom_inv es₂ hinv' fun e' he' => hvalid₂ e' (List.mem_cons_of_mem e he')
  rw [← hrun] at hgrowu hgrows
  have hbefore := hinv₁.users.exact userSlot_inj husers₁
  have hbefores := hinv₁.stocks.exact usSlot_inj hstocks₁
  refine ⟨?_, ?_, ?_, ?_⟩
  · rintro userID rfl
    obtain ⟨-, -, obj, hret, hobj⟩ := hinv₁.addUser (hvalid₂ _ List.mem_cons_self)
    exact ⟨obj, hret, (hu.get userID obj).mpr (getElem?_of_old hgrowu.old hobj)⟩
  · rintro userID rfl
    exact get_of_old hbefore hu (husers'.old.trans hgrowu.old) userID
  · rintro stockID rfl
    obtain ⟨-, -, obj, hret, hobj⟩ := hinv₁.addStock (hvalid₂ _ List.mem_cons_self)
    exact ⟨obj, hret, (hs.get stockID obj).mpr (getElem?_of_old hgrows.old hobj)⟩
  · rintro stockID rfl
    exact get_of_old hbefores hs (hstocks'.old.trans hgrows.old) stockID

/-- Two users, of whose IDs one starts the other, and a stock. -/
def aRun : List Event :=
  [.addUser "abc".toList, .getUser "ab".toList, .addUser "ab".toList, .addStock "ABC".toList,
    .addUser "abc".toList]

theorem valid_aRun : ∀ e ∈ aRun, e.Valid := by
  simp [aRun, Event.Valid, isAlnum, isUpper, ord]

theorem run_exact_aRun : Exact userSlot 1 (aRun.filterMap Event.addsUser) (run aRun).users ∧
    Exact usSlot 0 (aRun.filterMap Event.addsStock) (run aRun).stocks ∧
    ∀ es₁ e es₂, aRun = es₁ ++ e :: es₂ → Returns es₁ e es₂ := run_exact valid_aRun

end Registries

end TradeC
