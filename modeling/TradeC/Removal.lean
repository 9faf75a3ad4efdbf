import TradeC.Registry
import TradeC.Holdings
import TradeC.Summary
import TradeC.Work

/-! `removeUser`, which is to undo `addUser`, for a user with triggers, holdings and queued commands.

    The caller holds the mutex of the user, and no other thread runs. There is no result where a place
    outside of an array is read, where NULL is followed, and where `sem_wait` has to wait. -/

namespace TradeC.Removal
open Work

structure UserObj where
  userID : UserID
  parent : Path
  usMem : UsMem
  commList : CommQueue Unit

structure Users where
  uTree : Trie ℕ
  -- `user_list`: its `curr` with the `next` and `prev` of the users, `num` and `avail`
  uList : Ring ℕ
  num : ℤ
  avail : ℕ
  -- the objects allocated and not freed
  user : ℕ → Option UserObj
  mem : Mem

def Users.getUser (s : Users) (userID : CStr) : Option ℕ := Trie.find userSlot userID [] s.uTree

/-! ### The code -/

/-- `while(num>0)remove(arr[num--]);` -/
def removeWhile {α σ : Type*} (remove : σ → α → Option σ) (arr : ℕ → Option α) : ℕ → σ → Option σ
  | 0, s => some s
  | num + 1, s => (arr (num + 1)).bind fun x => (remove s x).bind (removeWhile remove arr num)

/-- The objects of a tree are counted, an array for that many is filled with them, and they are removed. -/
def removeAll {α σ : Type*} (n d : ℕ) (t : Trie α) (remove : σ → α → Option σ) (s : σ) : Option σ :=
  let num := (Summary.getAll n t false d [] 0).2
  let objs := Summary.getAll n t true d [] 0
  removeWhile remove (fun i => if i < num then objs.1.lookup i else none) objs.2 s

/-- `while(commList->length)cdeq(commList);` on the elements and the length of a queue. -/
def drain : List CommElem → ℤ → Option (List CommElem)
  | [], length => if length = 0 then some [] else none
  | el :: cells, length =>
    if length = 0 then some (el :: cells)
    -- cdeq returns NULL, and its fields are read
    else if el.webServerSock.isNone then none
    else drain cells (length - 1)

/-- The loop up the tree, with the characters of the ID from the last one on. The child that is freed is that
    in slot `c - 65` of the parent. -/
def prune : CStr → Path → Trie ℕ → Option (Trie ℕ)
  | [], _, t => some t
  | c :: cs, temp, t =>
    if (t temp).any (fun nd => nd.obj.isSome || nd.child) then some t
    else
      match temp with
      | [] => none
      | _ :: temp =>
        let addr := ord c - 65
        if addr < 0 ∨ USER_CHARS ≤ addr then none
        else
          let t := t.free (addr.toNat :: temp)
          if (List.range USER_CHARS).any (fun j => (t (j :: temp)).isSome) then some t
          else prune cs temp (t.freeChild temp)

def Users.removeUser (s : Users) (obj : ℕ) : Option Users :=
  (s.user obj).bind fun u =>
    (removeAll (2 * STOCK_CHARS) 3 (s.mem.tTree u.userID)
      (fun m t => (m.removeTrigger t).map Prod.fst) s.mem).bind fun mem =>
    (removeAll STOCK_CHARS 3 u.usMem.usTree
      (fun m t => (m.removeUserStock t).map Prod.fst) u.usMem).bind fun _ =>
    let uList := s.uList.unlink obj
    let num := s.num - 1
    if s.avail = 0 then none
    else
      let avail := s.avail - 1
      (drain u.commList.cells u.commList.length).bind fun _ =>
      let user := fun o => if s.uTree.objAt u.parent = some o then none else s.user o
      (prune u.userID.str.reverse u.parent (s.uTree.setObj u.parent none)).map fun uTree =>
      ⟨uTree, uList, num - 1, avail, user, mem⟩

/-! ### What it is for -/

/-- `s'` is `s` without the user, its triggers and its commands. -/
structure Without (s : Users) (obj : ℕ) (u : UserObj) (s' : Users) : Prop where
  gone : s'.getUser u.userID.str = none
  others : ∀ userID, userID ≠ u.userID.str → s'.getUser userID = s.getUser userID
  triggers : ∀ stockObj l, (s.mem.ring stockObj).Shows l →
    (s'.mem.ring stockObj).Shows (l.filter fun t => (s.mem.obj t).all (·.userObj ≠ u.userID))
  list : ∀ l, s.uList.Shows l → s'.uList.Shows (l.erase obj)
  num : s'.num = s.num - 1
  avail : (s'.avail : ℤ) = s.avail - u.commList.length

def Undoes (s : Users) (obj : ℕ) : Prop :=
  ∃ u s', s.user obj = some u ∧ s.removeUser obj = some s' ∧ Without s obj u s'

/-! ### Each part -/

/-- The loop starts with the index behind the last object, so that it removes nothing. -/
theorem removeAll_some_iff {α σ : Type*} {n d : ℕ} {t : Trie α} {remove : σ → α → Option σ} {s s' : σ} :
    removeAll n d t remove s = some s' ↔ Trie.getAll n t d [] = [] ∧ s = s' := by
  unfold removeAll
  rw [Summary.getAll_pass, Summary.getAll_pass]
  cases Trie.getAll n t d [] with
  | nil => simp [Summary.pass, removeWhile]
  | cons x l => simp [Summary.pass, removeWhile]

/-- A queue gives up the commands that its length counts. -/
theorem drain_eq {rest : List CommElem} : ∀ {els : List CommElem}, (∀ el ∈ els, el.webServerSock.isSome) →
    drain (els ++ rest) els.length = some rest := by
  intro els
  induction els with
  | nil =>
    intro _
    cases rest <;> rfl
  | cons el els ih =>
    intro h
    have hsock : el.webServerSock.isNone = false := by
      rw [Option.isNone_eq_false_iff]
      exact h el List.mem_cons_self
    have hlength : ((el :: els).length : ℤ) ≠ 0 := by
      rw [List.length_cons]
      omega
    have hrest : ((el :: els).length : ℤ) - 1 = els.length := by
      rw [List.length_cons]
      omega
    rw [List.cons_append, drain, if_neg hlength, hsock, if_neg Bool.false_ne_true, hrest]
    exact ih fun el' hel' => h el' (List.mem_cons_of_mem el hel')

/-- No character is in the slot that is freed for it. -/
theorem userSlot_ne {c : Char} {a : ℕ} (h : userSlot c = some a) : (a : ℤ) ≠ ord c - 65 := by
  unfold userSlot at h
  split_ifs at h <;> simp only [Option.some.injEq] at h <;> omega

/-- The loop is left at the node of the user, or after the slot of the last character, as the node of the user
    is still there. -/
theorem prune_cases {c : Char} {cs : CStr} {a : ℕ} {p : Path} {t t' : Trie ℕ} (hslot : userSlot c = some a)
    (hnode : (t (a :: p)).isSome) (h : prune (c :: cs) (a :: p) t = some t') :
    t' = t ∨ ∃ b : ℕ, (b : ℤ) = ord c - 65 ∧ t' = t.free (b :: p) := by
  unfold prune at h
  split_ifs at h with hused
  · exact Or.inl (Option.some.inj h).symm
  · right
    dsimp only at h
    split_ifs at h with haddr hstill
    · exact ⟨(ord c - 65).toNat, by omega, (Option.some.inj h).symm⟩
    · -- the node of the user is another child
      exfalso
      apply hstill
      refine List.any_eq_true.mpr ⟨a, List.mem_range.mpr (userSlot_lt c a hslot), ?_⟩
      rw [Trie.free_apply_of_not_suffix]
      · exact hnode
      · intro hsuffix
        have hhead := hsuffix.eq_of_length (by simp)
        have hne := userSlot_ne hslot
        rw [List.cons.injEq] at hhead
        omega

/-! ### The whole -/

section
variable {s s' : Users} {obj : ℕ} {u : UserObj}

/-- What there is when `removeUser` returns. -/
structure Removes (s : Users) (obj : ℕ) (u : UserObj) (s' : Users) : Prop where
  noTriggers : Trie.getAll (2 * STOCK_CHARS) (s.mem.tTree u.userID) 3 [] = []
  noHoldings : Trie.getAll STOCK_CHARS u.usMem.usTree 3 [] = []
  mem : s'.mem = s.mem
  list : s'.uList = s.uList.unlink obj
  num : s'.num = s.num - 2
  avail : s'.avail + 1 = s.avail
  tree : prune u.userID.str.reverse u.parent (s.uTree.setObj u.parent none) = some s'.uTree

/-- It returns for a user without triggers and holdings only. The user is counted off twice, and `avail` goes
    down by one, however many commands were in the queue. -/
theorem removes (hu : s.user obj = some u) (h : s.removeUser obj = some s') : Removes s obj u s' := by
  unfold Users.removeUser at h
  rw [hu, Option.bind_some] at h
  obtain ⟨mem, hmem, h⟩ := Option.bind_eq_some_iff.mp h
  obtain ⟨usMem, husMem, h⟩ := Option.bind_eq_some_iff.mp h
  obtain ⟨htriggers, rfl⟩ := removeAll_some_iff.mp hmem
  obtain ⟨hholdings, -⟩ := removeAll_some_iff.mp husMem
  split_ifs at h with havail
  obtain ⟨rest, -, h⟩ := Option.bind_eq_some_iff.mp h
  obtain ⟨uTree, htree, rfl⟩ := Option.map_eq_some_iff.mp h
  refine ⟨htriggers, hholdings, rfl, rfl, ?_, ?_, htree⟩
  · show s.num - 1 - 1 = s.num - 2
    omega
  · show s.avail - 1 + 1 = s.avail
    omega

/-- It returns if besides `sem_wait` does not have to wait, and the loop up the tree stays in the arrays. -/
theorem returns_iff (hu : s.user obj = some u) {els rest : List CommElem}
    (hcells : u.commList.cells = els ++ rest) (hlength : u.commList.length = els.length)
    (hsock : ∀ el ∈ els, el.webServerSock.isSome) :
    (∃ s', s.removeUser obj = some s') ↔ Trie.getAll (2 * STOCK_CHARS) (s.mem.tTree u.userID) 3 [] = [] ∧
      Trie.getAll STOCK_CHARS u.usMem.usTree 3 [] = [] ∧ s.avail ≠ 0 ∧
      ∃ uTree, prune u.userID.str.reverse u.parent (s.uTree.setObj u.parent none) = some uTree := by
  constructor
  · rintro ⟨s', hr⟩
    have hrem := removes hu hr
    have havail := hrem.avail
    exact ⟨hrem.noTriggers, hrem.noHoldings, by omega, _, hrem.tree⟩
  · rintro ⟨htriggers, hholdings, havail, uTree, htree⟩
    unfold Users.removeUser
    rw [hu, Option.bind_some, removeAll_some_iff.mpr ⟨htriggers, rfl⟩, Option.bind_some,
      removeAll_some_iff.mpr ⟨hholdings, rfl⟩, Option.bind_some, hcells, hlength, drain_eq hsock, if_neg havail,
      Option.bind_some, htree]
    exact ⟨_, rfl⟩

/-- The users as the additions of a run leave them. -/
structure Built (es : List Registries.Event) (s : Users) : Prop where
  valid : ∀ e ∈ es, e.Valid
  tree : s.uTree = (Registries.run es).users.tree
  list : s.uList = (Registries.run es).users.list
  num : s.num = (Registries.run es).users.num
  user : ∀ obj u, s.user obj = some u → (Registries.run es).users.objs[obj]? = some u.userID.str ∧
    Trie.keyPath userSlot u.userID.str [] = some u.parent

variable {es : List Registries.Event}

theorem Built.inv (h : Built es s) : Registry.Inv userSlot 1 USER_CHARS (Registries.run es).users :=
  (Registries.run_inv h.valid).1.users

/-- The list is well formed without the user, and has one user more than it counts. -/
theorem Built.list_removed (h : Built es s) (hu : s.user obj = some u) (hr : s.removeUser obj = some s') :
    ∃ l, s'.uList.Shows l ∧ obj ∉ l ∧ s'.num + 1 = l.length := by
  have hrem := removes hu hr
  have hlist := h.inv.list
  obtain ⟨hlt, -⟩ := List.getElem?_eq_some_iff.mp (h.user obj u hu).1
  have hmem := List.mem_range.mpr hlt
  have hnum := h.num
  rw [h.inv.num] at hnum
  rw [← h.list] at hlist
  refine ⟨_, hrem.list ▸ Ring.shows_unlink hlist hmem, List.nodup_range.not_mem_erase, ?_⟩
  rw [hrem.num, List.length_erase_of_mem hmem, List.length_range]
  omega

/-- The tree without the user: it has lost nothing else but what is below the node of a slot that is none of the
    user's. -/
theorem Built.tree_removed (h : Built es s) (hu : s.user obj = some u) (hr : s.removeUser obj = some s') :
    Trie.WF USER_CHARS s'.uTree ∧ s'.uTree.objAt u.parent = none ∧
      ∀ q, q ≠ u.parent → s'.uTree.objAt q = s.uTree.objAt q ∨
        s'.uTree.objAt q = none ∧ ∃ a b p, u.parent = a :: p ∧ a ≠ b ∧ b :: p <:+ q := by
  have hwf := h.inv.wf
  rw [← h.tree] at hwf
  obtain ⟨hid, hpath⟩ := h.user obj u hu
  have hobj : s.uTree.objAt u.parent = some obj := by
    rw [h.tree, h.inv.content]
    exact ⟨_, hid, hpath⟩
  have hnode := Trie.isSome_of_objAt hobj
  have hwf' := Trie.wf_setObj hwf u.parent none
  have hat : ∀ q, (s.uTree.setObj u.parent none).objAt q = if q = u.parent then none else s.uTree.objAt q :=
    Trie.objAt_setObj none hnode
  have htree := (removes hu hr).tree
  obtain ⟨cs, c, hstr⟩ := (List.eq_nil_or_concat u.userID.str).resolve_left fun hnil => by
    have hlen := u.userID.length_eq
    rw [hnil] at hlen
    cases hlen
  rw [List.concat_eq_append] at hstr
  rw [hstr] at hpath
  obtain ⟨a, p, hslot, hparent⟩ := Trie.keyPath_concat hpath
  rw [hstr, List.reverse_concat, hparent] at htree
  rw [hparent] at hnode hwf' hat ⊢
  have hleaf : (s.uTree.setObj (a :: p) none (a :: p)).isSome := by
    rw [Trie.isSome_setObj]
    exact hnode
  rcases prune_cases hslot hleaf htree with heq | ⟨b, hb, heq⟩
  · rw [heq]
    refine ⟨hwf', ?_, fun q hq => Or.inl ?_⟩
    · rw [hat, if_pos rfl]
    · rw [hat, if_neg hq]
  · have hne : a ≠ b := by
      have := userSlot_ne hslot
      omega
    have hkept : ¬ b :: p <:+ a :: p := by
      intro hsuffix
      exact hne (List.cons_eq_cons.mp (hsuffix.eq_of_length (by simp))).1.symm
    have hfree : ∀ q, ¬ b :: p <:+ q → Trie.objAt ((s.uTree.setObj (a :: p) none).free (b :: p)) q =
        if q = a :: p then none else s.uTree.objAt q := by
      intro q hq
      rw [Trie.objAt, Trie.free_apply_of_not_suffix hq]
      exact hat q
    rw [heq]
    refine ⟨Trie.wf_free hwf' ⟨a, ?_⟩, ?_, fun q hq => ?_⟩
    · rw [Trie.free_apply_of_not_suffix hkept]
      exact hleaf
    · rw [hfree _ hkept, if_pos rfl]
    · by_cases hsuffix : b :: p <:+ q
      · refine Or.inr ⟨?_, a, b, p, rfl, hne, hsuffix⟩
        rw [Trie.objAt, Trie.free, if_pos hsuffix]
        rfl
      · left
        rw [hfree q hsuffix, if_neg hq]

/-- What is found for the IDs afterwards: nothing for that of the user, and for another what was found before,
    unless it is below the node that the tree has lost. -/
theorem Built.getUser_removed (h : Built es s) (hu : s.user obj = some u) (hr : s.removeUser obj = some s') :
    s'.getUser u.userID.str = none ∧ ∀ userID, userID ≠ u.userID.str → s'.getUser userID = s.getUser userID ∨
      s'.getUser userID = none ∧ ∃ a b p q, u.parent = a :: p ∧ a ≠ b ∧
        Trie.keyPath userSlot userID [] = some q ∧ b :: p <:+ q := by
  have hwf := h.inv.wf
  rw [← h.tree] at hwf
  obtain ⟨hwf', hgone, hothers⟩ := h.tree_removed hu hr
  have hpath := (h.user obj u hu).2
  refine ⟨(Trie.find_eq hwf' hpath hwf'.root).trans hgone, fun userID hne => ?_⟩
  unfold Users.getUser
  cases hkey : Trie.keyPath userSlot userID [] with
  | none =>
    left
    rw [Trie.find_none hkey, Trie.find_none hkey]
  | some q =>
    rw [Trie.find_eq hwf' hkey hwf'.root, Trie.find_eq hwf hkey hwf.root]
    have hq : q ≠ u.parent := by
      rintro rfl
      exact hne (Trie.keyPath_inj userSlot_inj hkey hpath)
    rcases hothers q hq with heq | ⟨hlost, a, b, p, hparent, hab, hsuffix⟩
    · exact Or.inl heq
    · exact Or.inr ⟨hlost, a, b, p, q, hparent, hab, rfl, hsuffix⟩

/-- With the count put right, the rest is as it should be for a user with one command and no triggers or
    holdings whose tree node has no siblings. -/
theorem Built.without (h : Built es s) (hu : s.user obj = some u) (hr : s.removeUser obj = some s')
    (htriggers : ∀ t tr, s.mem.obj t = some tr → tr.userObj ≠ u.userID) (hlength : u.commList.length = 1)
    (halone : ∀ a b p, u.parent = a :: p → a ≠ b → s.uTree (b :: p) = none) :
    Without s obj u { s' with num := s.num - 1 } := by
  have hrem := removes hu hr
  obtain ⟨hgone, hothers⟩ := h.getUser_removed hu hr
  have hwf := h.inv.wf
  rw [← h.tree] at hwf
  have hlist := h.inv.list
  rw [← h.list] at hlist
  obtain ⟨hlt, -⟩ := List.getElem?_eq_some_iff.mp (h.user obj u hu).1
  refine ⟨hgone, fun userID hne => ?_, fun st l hl => ?_, fun l hl => ?_, rfl, ?_⟩
  · rcases hothers userID hne with heq | ⟨hlost, a, b, p, q, hparent, hab, hkey, hsuffix⟩
    · exact heq
    · -- there was nothing below that node before
      have hbefore : s.getUser userID = none := by
        rw [Users.getUser, Trie.find_eq hwf hkey hwf.root, Trie.objAt,
          hwf.none_of_suffix hsuffix (halone a b p hparent hab)]
        rfl
      rw [hbefore]
      exact hlost
  · have hall : ∀ t ∈ l, (s.mem.obj t).all (·.userObj ≠ u.userID) = true := by
      intro t _
      cases hobj : s.mem.obj t with
      | none => rfl
      | some tr => exact decide_eq_true (htriggers t tr hobj)
    rw [List.filter_eq_self.mpr hall]
    show (s'.mem.ring st).Shows l
    rw [hrem.mem]
    exact hl
  · obtain rfl := Ring.Shows.unique hl hlist
    show s'.uList.Shows _
    rw [hrem.list]
    exact Ring.shows_unlink hl (List.mem_range.mpr hlt)
  · have havail := hrem.avail
    show (s'.avail : ℤ) = s.avail - u.commList.length
    omega

/-- In no registry does `removeUser` undo `addUser`: where it returns, the list counts one user less than it
    has. -/
theorem removeUser_undoes_none (s : Users) (obj : ℕ) : ¬ Undoes s obj := by
  rintro ⟨u, s', hu, hr, hwithout⟩
  have hnum := (removes hu hr).num
  rw [hwithout.num] at hnum
  omega

end

/-! ### Two users -/

def bUser : UserID := ⟨"bbbbbbbbbb".toList, by decide⟩

def twoAdded : List Registries.Event := [.addUser aUser.str, .addUser bUser.str]

/-- The first of them has a command in the queue, and neither has triggers or holdings. -/
def twoUsers : Users :=
  let users := (Registries.run twoAdded).users
  ⟨users.tree, users.list, users.num, 1,
    fun obj =>
      if obj = 0 then some ⟨aUser, List.replicate 10 10, .init,
        { CommQueue.new.fill ⟨"1".toList, "ADD".toList, some "1.00".toList, 5⟩ with length := 1 }⟩
      else if obj = 1 then some ⟨bUser, List.replicate 10 11, .init, .new⟩
      else none,
    .init⟩

theorem built_twoUsers : Built twoAdded twoUsers where
  valid := List.forall_mem_cons.mpr ⟨aUser.all_isAlnum, List.forall_mem_singleton.mpr bUser.all_isAlnum⟩
  tree := rfl
  list := rfl
  num := rfl
  user obj u hu := by
    rcases obj with _ | _ | obj
    · cases hu
      exact ⟨by decide, by decide⟩
    · cases hu
      exact ⟨by decide, by decide⟩
    · cases hu

/-- After the first has been removed, no user is counted, and the second is still in the list. -/
theorem removeUser_counts_twice : Built twoAdded twoUsers ∧
    (twoUsers.removeUser 0).map (fun s => (s.num, s.uList.curr)) = some (0, some 1) ∧ ¬ Undoes twoUsers 0 := by
  refine ⟨built_twoUsers, by decide, ?_⟩
  rintro ⟨u, s', hu, hr, hwithout⟩
  have hnum := hwithout.num
  rw [(removes hu hr).num] at hnum
  omega

end TradeC.Removal
