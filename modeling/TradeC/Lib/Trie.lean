import Mathlib.Data.List.Nodup
import Mathlib.Logic.Function.Basic

/-! Tries with a child array per node, at the level of their nodes.

    A node is addressed by the slots on the way from it up to the root (`[]` is the root, the head is
    its slot in its parent), so that the parent of `a :: p` is `p`. `find` walks down along a key,
    `insertPath` builds what is missing of a key's path, `climb` walks up from a node and frees what
    it finds in the slots it is told to clear. `objAt` is the content of a trie as a map from
    addresses to objects: `find` reads it, `insertPath` leaves it alone, and so does a `climb` that
    frees only bare nodes. -/

namespace TradeC

/-- A node: the object it holds, and whether its child array is allocated. -/
structure Node (α : Type*) where
  obj : Option α
  child : Bool

/-- Holding no object and having no child. -/
def Node.Bare {α : Type*} (nd : Node α) : Prop := nd.obj = none ∧ nd.child = false

abbrev Path := List ℕ

abbrev Trie (α : Type*) := Path → Option (Node α)

namespace Trie

variable {α κ : Type*} (addr : κ → Option ℕ) (n : ℕ)

/-- The root alone. -/
def empty : Trie α := fun p => if p = [] then some ⟨none, false⟩ else none

def allocChild (t : Trie α) (p : Path) : Trie α :=
  Function.update t p ((t p).map fun nd => { nd with child := true })

def freeChild (t : Trie α) (p : Path) : Trie α :=
  Function.update t p ((t p).map fun nd => { nd with child := false })

def alloc (t : Trie α) (p : Path) : Trie α :=
  if (t p).isSome then t else Function.update t p (some ⟨none, false⟩)

def setObj (t : Trie α) (p : Path) (o : Option α) : Trie α :=
  Function.update t p ((t p).map fun nd => { nd with obj := o })

/-- The node at `p` is gone, and whatever is below it is out of reach. -/
def free (t : Trie α) (p : Path) : Trie α := fun q => if p <:+ q then none else t q

/-- The address of a key below `p`, when each of its letters has a slot. -/
def keyPath : List κ → Path → Option Path
  | [], p => some p
  | c :: cs, p => (addr c).bind fun a => keyPath cs (a :: p)

/-- Walk down from `p` along the key; the object at its end. -/
def find : List κ → Path → Trie α → Option α
  | [], p, t => (t p).bind Node.obj
  | c :: cs, p, t =>
    if (t p).all (fun nd => nd.child = false) then none
    else
      match addr c with
      | none => none
      | some a => if (t (a :: p)).isNone then none else find cs (a :: p) t

/-- Walk down from `p` along the key, allocating what is missing; the address reached. -/
def insertPath : List κ → Path → Trie α → Trie α × Option Path
  | [], p, t => (t, some p)
  | c :: cs, p, t =>
    let t := t.allocChild p
    match addr c with
    | none => (t, none)
    | some a => insertPath cs (a :: p) (t.alloc (a :: p))

/-- Walk up from the node `p`, clearing in each parent the slot that `addrs` gives for it, as long as
    the node is bare and the parent is left without children. Also the nodes freed. -/
def climb : List ℕ → Path → Trie α → Trie α × List (Path × Node α)
  | a :: addrs, s :: p, t =>
    if (t (s :: p)).any (fun nd => nd.obj.isSome || nd.child) then (t, [])
    else
      let freed := (t (a :: p)).toList.map fun nd => (a :: p, nd)
      let t := t.free (a :: p)
      if (List.range n).any (fun j => (t (j :: p)).isSome) then (t, freed)
      else
        let r := climb addrs p (t.freeChild p)
        (r.1, freed ++ r.2)
  | _, _, t => (t, [])

/-- The objects of the nodes below `p`, to a depth, in the order of the slots. -/
def getAll (t : Trie α) : ℕ → Path → List α
  | 0, p => ((t p).bind Node.obj).toList
  | d + 1, p => ((t p).bind Node.obj).toList ++
      if (t p).any Node.child then
        (List.range n).flatMap fun j => if (t (j :: p)).isSome then getAll t d (j :: p) else []
      else []

/-- The content of the trie. -/
def objAt (t : Trie α) (p : Path) : Option α := (t p).bind Node.obj

/-- The shape of a trie: each node but the root hangs in a slot of a node with a child array, and a
    child array has a child. -/
structure WF (t : Trie α) : Prop where
  root : (t []).isSome
  parent : ∀ {a p}, (t (a :: p)).isSome → a < n ∧ ∃ nd, t p = some nd ∧ nd.child = true
  child : ∀ {p nd}, t p = some nd → nd.child = true → ∃ a, (t (a :: p)).isSome

variable {addr n}

theorem wf_empty : WF n (empty : Trie α) where
  root := rfl
  parent h := by simp [empty] at h
  child {p nd} h hc := by
    by_cases hp : p = [] <;> simp [empty, hp] at h
    subst h
    simp at hc

theorem isSome_of_objAt {t : Trie α} {p : Path} {o : α} (h : objAt t p = some o) :
    (t p).isSome := by
  obtain ⟨nd, hnd, _⟩ := Option.bind_eq_some_iff.mp h
  simp [hnd]

@[simp] theorem objAt_empty (p : Path) : objAt (empty : Trie α) p = none := by
  by_cases hp : p = [] <;> simp [objAt, empty, hp]

theorem keyPath_suffix : ∀ {cs : List κ} {p q : Path}, keyPath addr cs p = some q → p <:+ q := by
  intro cs
  induction cs with
  | nil =>
    intro _ _ h
    cases h
    exact List.suffix_refl _
  | cons c cs ih =>
    intro p q h
    obtain ⟨a, _, hq⟩ := Option.bind_eq_some_iff.mp h
    exact (List.suffix_cons a p).trans (ih hq)

/-- The last slot of an address is that of the key's last letter. -/
theorem keyPath_concat {c : κ} {q : Path} : ∀ {cs : List κ} {p : Path},
    keyPath addr (cs ++ [c]) p = some q → ∃ a p', addr c = some a ∧ q = a :: p' := by
  intro cs
  induction cs with
  | nil =>
    intro p h
    rw [List.nil_append, keyPath] at h
    obtain ⟨a, ha, hq⟩ := Option.bind_eq_some_iff.mp h
    exact ⟨a, p, ha, (Option.some.inj hq).symm⟩
  | cons c' cs ih =>
    intro p h
    rw [List.cons_append, keyPath] at h
    obtain ⟨a, -, hq⟩ := Option.bind_eq_some_iff.mp h
    exact ih hq

/-- With a slot of its own for each letter, every key has an address of its own. -/
theorem keyPath_inj (hinj : ∀ c c' a, addr c = some a → addr c' = some a → c = c') :
    ∀ {cs cs' : List κ} {p q : Path}, keyPath addr cs p = some q → keyPath addr cs' p = some q → cs = cs' := by
  intro cs
  induction cs with
  | nil =>
    intro cs' p q h h'
    cases cs' with
    | nil => rfl
    | cons c cs' =>
      cases h
      obtain ⟨a, -, hq⟩ := Option.bind_eq_some_iff.mp h'
      exact absurd (keyPath_suffix hq).length_le (by simp)
  | cons c cs ih =>
    intro cs' p q h h'
    obtain ⟨a, ha, hq⟩ := Option.bind_eq_some_iff.mp h
    cases cs' with
    | nil =>
      cases h'
      exact absurd (keyPath_suffix hq).length_le (by simp)
    | cons c' cs' =>
      obtain ⟨a', ha', hq'⟩ := Option.bind_eq_some_iff.mp h'
      have hsame : a :: p = a' :: p := by
        have hsuffix := List.suffix_of_suffix_length_le (keyPath_suffix hq) (keyPath_suffix hq') (by simp)
        exact hsuffix.eq_of_length (by simp)
      obtain rfl : a = a' := (List.cons_eq_cons.mp hsame).1
      rw [hinj c c' a ha ha', ih hq hq']

/-- Nothing is found for a key that has no address. -/
theorem find_none {t : Trie α} : ∀ {cs : List κ} {p : Path}, keyPath addr cs p = none →
    find addr cs p t = none := by
  intro cs
  induction cs with
  | nil =>
    intro _ h
    cases h
  | cons c cs ih =>
    intro p h
    rw [find]
    split_ifs with hchild
    · rfl
    · rw [keyPath] at h
      cases ha : addr c with
      | none => rfl
      | some a =>
        rw [ha, Option.bind_some] at h
        simp only [ih h, ite_self]

/-- Every ancestor of a node is a node. -/
theorem WF.isSome_of_suffix {t : Trie α} (hw : WF n t) {p : Path} : ∀ {q : Path}, p <:+ q →
    (t q).isSome → (t p).isSome
  | [], hs, hq => by
    rw [List.suffix_nil.mp hs]
    exact hq
  | a :: q, hs, hq => by
    rcases List.suffix_cons_iff.mp hs with rfl | hs
    · exact hq
    · obtain ⟨_, nd, hnd, _⟩ := hw.parent hq
      exact hw.isSome_of_suffix hs (by simp [hnd])

/-- Below a node that is not there, or has no child array, there is nothing. -/
theorem WF.none_of_suffix {t : Trie α} (hw : WF n t) {a : ℕ} {p q : Path} (hs : a :: p <:+ q)
    (ha : t (a :: p) = none) : t q = none := by
  by_contra hne
  have := hw.isSome_of_suffix hs (Option.isSome_iff_ne_none.mpr hne)
  simp [ha] at this

theorem WF.child_none {t : Trie α} (hw : WF n t) {p : Path} (a : ℕ)
    (hp : ∀ nd, t p = some nd → nd.child = false) : t (a :: p) = none := by
  by_contra hne
  obtain ⟨_, nd, hnd, hc⟩ := hw.parent (Option.isSome_iff_ne_none.mpr hne)
  simp [hp nd hnd] at hc

/-- Looking a key up reads the content at its address. -/
theorem find_eq {t : Trie α} (hw : WF n t) : ∀ {cs : List κ} {p q : Path},
    keyPath addr cs p = some q → (t p).isSome → find addr cs p t = objAt t q := by
  intro cs
  induction cs with
  | nil =>
    intro _ _ h _
    cases h
    rfl
  | cons c cs ih =>
    intro p q h hp
    obtain ⟨a, ha, hq⟩ := Option.bind_eq_some_iff.mp h
    obtain ⟨nd, hnd⟩ := Option.isSome_iff_exists.mp hp
    have hsuf := keyPath_suffix hq
    cases hc : nd.child with
    | false =>
      have hnone := hw.child_none a (p := p) (by simp [hnd, hc])
      simp [find, hnd, hc, objAt, hw.none_of_suffix hsuf hnone]
    | true =>
      cases hap : t (a :: p) with
      | none => simp [find, hnd, hc, ha, hap, objAt, hw.none_of_suffix hsuf hap]
      | some nd' =>
        have hrec := ih hq (by simp [hap])
        simp [find, hnd, hc, ha, hap, hrec]

/-! ### Storing an object -/

theorem objAt_setObj {t : Trie α} {p : Path} (o : Option α) (hp : (t p).isSome) (q : Path) :
    objAt (t.setObj p o) q = if q = p then o else objAt t q := by
  obtain ⟨nd, hnd⟩ := Option.isSome_iff_exists.mp hp
  by_cases hq : q = p
  · subst hq
    simp [objAt, setObj, hnd]
  · simp [objAt, setObj, hq]

theorem isSome_setObj (t : Trie α) (p : Path) (o : Option α) (q : Path) :
    (t.setObj p o q).isSome = (t q).isSome := by
  by_cases hq : q = p
  · subst hq
    simp [setObj]
  · simp [setObj, hq]

theorem child_setObj {t : Trie α} {p q : Path} {o : Option α} {nd : Node α}
    (h : t.setObj p o q = some nd) : ∃ nd', t q = some nd' ∧ nd'.child = nd.child := by
  by_cases hq : q = p
  · subst hq
    simp only [setObj, Function.update_self, Option.map_eq_some_iff] at h
    obtain ⟨nd', hnd', rfl⟩ := h
    exact ⟨nd', hnd', rfl⟩
  · rw [setObj, Function.update_of_ne hq] at h
    exact ⟨nd, h, rfl⟩

theorem wf_setObj {t : Trie α} (hw : WF n t) (p : Path) (o : Option α) : WF n (t.setObj p o) where
  root := by rw [isSome_setObj]; exact hw.root
  parent {a q} h := by
    rw [isSome_setObj] at h
    obtain ⟨ha, nd, hnd, hc⟩ := hw.parent h
    refine ⟨ha, ?_⟩
    by_cases hq : q = p
    · subst hq
      exact ⟨{ nd with obj := o }, by simp [setObj, hnd], hc⟩
    · exact ⟨nd, by simp [setObj, hq, hnd], hc⟩
  child {q nd} h hc := by
    obtain ⟨nd', hnd', hc'⟩ := child_setObj h
    obtain ⟨a, ha⟩ := hw.child hnd' (hc' ▸ hc)
    exact ⟨a, by rw [isSome_setObj]; exact ha⟩

/-! ### Building a path -/

/-- One step down with allocation: the child array of `p` and the node in its slot `a`. -/
theorem alloc_child_apply {t : Trie α} {p : Path} (a : ℕ) (q : Path) :
    (t.allocChild p).alloc (a :: p) q =
      if q = p then (t p).map fun nd => { nd with child := true }
      else if q = a :: p then some ((t (a :: p)).getD ⟨none, false⟩) else t q := by
  have hne : a :: p ≠ p := List.cons_ne_self a p
  have hap : t.allocChild p (a :: p) = t (a :: p) := by simp [allocChild]
  unfold alloc
  rw [hap]
  cases hs : t (a :: p) with
  | none =>
    by_cases hq : q = a :: p
    · subst hq
      simp
    · by_cases hqp : q = p <;> simp [hq, hqp, allocChild]
  | some nd =>
    by_cases hqp : q = p
    · subst hqp
      simp [allocChild]
    · by_cases hq : q = a :: p
      · subst hq
        simp [allocChild, hs]
      · simp [allocChild, hqp, hq]

theorem objAt_alloc_child {t : Trie α} (p : Path) (a : ℕ) (q : Path) :
    objAt ((t.allocChild p).alloc (a :: p)) q = objAt t q := by
  rw [objAt, alloc_child_apply]
  by_cases hqp : q = p
  · subst hqp
    cases ht : t q <;> simp [objAt, ht]
  · by_cases hq : q = a :: p
    · subst hq
      cases ht : t (a :: p) <;> simp [objAt, ht]
    · simp [objAt, hqp, hq]

theorem isSome_alloc_child {t : Trie α} {p q : Path} {a : ℕ} (hp : (t p).isSome) :
    ((t.allocChild p).alloc (a :: p) q).isSome ↔ q = a :: p ∨ (t q).isSome := by
  rw [alloc_child_apply]
  by_cases hqp : q = p
  · subst hqp
    simp [hp]
  · by_cases hq : q = a :: p <;> simp [hqp, hq]

theorem wf_alloc_child {t : Trie α} (hw : WF n t) {p : Path} {a : ℕ} (hp : (t p).isSome)
    (ha : a < n) : WF n ((t.allocChild p).alloc (a :: p)) where
  root := (isSome_alloc_child hp).mpr (.inr hw.root)
  parent {b q} h := by
    have hpar : ∀ nd, t q = some nd → nd.child = true ∨ q = p →
        ∃ nd', (t.allocChild p).alloc (a :: p) q = some nd' ∧ nd'.child = true := by
      intro nd hnd hc
      rw [alloc_child_apply]
      by_cases hqp : q = p
      · subst hqp
        simp [hnd]
      · have hct : nd.child = true := hc.resolve_right hqp
        by_cases hq : q = a :: p
        · subst hq
          simp [hqp, hnd, hct]
        · simp [hqp, hq, hnd, hct]
    rcases (isSome_alloc_child hp).mp h with e | h
    · obtain ⟨rfl, rfl⟩ := List.cons_eq_cons.mp e
      obtain ⟨nd, hnd⟩ := Option.isSome_iff_exists.mp hp
      exact ⟨ha, hpar nd hnd (.inr rfl)⟩
    · obtain ⟨hb, nd, hnd, hc⟩ := hw.parent h
      exact ⟨hb, hpar nd hnd (.inl hc)⟩
  child {q nd} h hc := by
    rw [alloc_child_apply] at h
    by_cases hqp : q = p
    · exact ⟨a, (isSome_alloc_child hp).mpr (.inl (by rw [hqp]))⟩
    · have hold : t q = some nd := by
        by_cases hq : q = a :: p
        · subst hq
          cases ht : t (a :: p) with
          | none =>
            simp only [hqp, if_false, if_true, ht, Option.getD_none, Option.some.injEq] at h
            subst h
            simp at hc
          | some nd' => simpa [hqp, ht] using h
        · simpa [hqp, hq] using h
      obtain ⟨b, hb⟩ := hw.child hold hc
      exact ⟨b, (isSome_alloc_child hp).mpr (.inr hb)⟩

/-- What `insertPath` leaves behind: the shape, the content, and the node at the key's address. -/
theorem insertPath_spec (haddr : ∀ c a, addr c = some a → a < n) : ∀ {cs : List κ} {p q : Path}
    {t : Trie α}, WF n t → (t p).isSome → keyPath addr cs p = some q →
    (insertPath addr cs p t).2 = some q ∧ WF n (insertPath addr cs p t).1 ∧
      ((insertPath addr cs p t).1 q).isSome ∧
      ∀ r, objAt (insertPath addr cs p t).1 r = objAt t r := by
  intro cs
  induction cs with
  | nil =>
    intro _ _ _ hw hp h
    cases h
    exact ⟨rfl, hw, hp, fun _ => rfl⟩
  | cons c cs ih =>
    intro p q t hw hp h
    obtain ⟨a, ha, hq⟩ := Option.bind_eq_some_iff.mp h
    have hrec := ih (wf_alloc_child hw hp (haddr c a ha))
      ((isSome_alloc_child hp).mpr (.inl rfl)) hq
    simp only [insertPath, ha]
    refine ⟨hrec.1, hrec.2.1, hrec.2.2.1, fun r => ?_⟩
    rw [hrec.2.2.2 r, objAt_alloc_child]

/-- `insertPath` adds nodes only along the key's path. -/
theorem isSome_of_insertPath : ∀ {cs : List κ} {p q r : Path} {t : Trie α}, (t p).isSome →
    keyPath addr cs p = some q → ((insertPath addr cs p t).1 r).isSome → (t r).isSome ∨ r <:+ q := by
  intro cs
  induction cs with
  | nil =>
    intro _ _ _ _ _ _ hr
    exact .inl hr
  | cons c cs ih =>
    intro p q r t hp h hr
    obtain ⟨a, ha, hq⟩ := Option.bind_eq_some_iff.mp h
    simp only [insertPath, ha] at hr
    rcases ih ((isSome_alloc_child hp).mpr (.inl rfl)) hq hr with hr | hr
    · rcases (isSome_alloc_child hp).mp hr with rfl | hr
      · exact .inr (keyPath_suffix hq)
      · exact .inl hr
    · exact .inr hr

/-! ### Freeing nodes on the way up -/

theorem suffix_cons_of_suffix {p q : Path} (hs : p <:+ q) (hne : q ≠ p) : ∃ j, j :: p <:+ q := by
  obtain ⟨r, rfl⟩ := hs
  obtain ⟨l, j, rfl⟩ := (List.eq_nil_or_concat r).resolve_left (by rintro rfl; simp at hne)
  exact ⟨j, l, by simp⟩

theorem free_apply_of_not_suffix {t : Trie α} {p q : Path} (h : ¬ p <:+ q) : t.free p q = t q := by
  simp [free, h]

theorem isSome_free {t : Trie α} {p q : Path} (h : (t.free p q).isSome) :
    ¬ p <:+ q ∧ t.free p q = t q := by
  by_cases hs : p <:+ q
  · simp [free, hs] at h
  · exact ⟨hs, by simp [free, hs]⟩

/-- Freeing a slot that is empty, or holds a bare node, leaves the content as it is. -/
theorem objAt_free {t : Trie α} (hw : WF n t) {a : ℕ} {p : Path}
    (hb : ∀ nd, t (a :: p) = some nd → nd.Bare) (q : Path) :
    objAt (t.free (a :: p)) q = objAt t q := by
  by_cases hs : a :: p <:+ q
  · have hleft : objAt (t.free (a :: p)) q = none := by simp [objAt, free, hs]
    cases ht : t (a :: p) with
    | none => rw [hleft, objAt, hw.none_of_suffix hs ht]; rfl
    | some nd =>
      obtain ⟨hobj, hchild⟩ := hb nd ht
      by_cases hq : q = a :: p
      · subst hq
        rw [hleft, objAt, ht]
        exact hobj.symm
      · -- below a bare node there is nothing
        obtain ⟨r, rfl⟩ := hs
        obtain ⟨l, b, rfl⟩ := (List.eq_nil_or_concat r).resolve_left (by rintro rfl; simp at hq)
        have hnone : t (b :: a :: p) = none := hw.child_none b (by simp [ht, hchild])
        have hsuf : b :: a :: p <:+ l.concat b ++ a :: p := ⟨l, by simp⟩
        rw [hleft]
        rw [objAt, hw.none_of_suffix hsuf hnone]
        rfl
  · simp [objAt, free_apply_of_not_suffix hs]

theorem WF.free_parent {t : Trie α} (hw : WF n t) {a b : ℕ} {p q : Path}
    (h : (t.free (a :: p) (b :: q)).isSome) :
    b < n ∧ ∃ nd, t.free (a :: p) q = some nd ∧ nd.child = true := by
  obtain ⟨hns, heq⟩ := isSome_free h
  rw [heq] at h
  obtain ⟨hb, nd, hnd, hc⟩ := hw.parent h
  refine ⟨hb, nd, ?_, hc⟩
  rw [free_apply_of_not_suffix fun hs => hns (hs.trans (List.suffix_cons b q))]
  exact hnd

theorem WF.free_child {t : Trie α} (hw : WF n t) {a : ℕ} {p q : Path} {nd : Node α} (hqp : q ≠ p)
    (h : t.free (a :: p) q = some nd) (hc : nd.child = true) :
    ∃ b, (t.free (a :: p) (b :: q)).isSome := by
  obtain ⟨hns, heq⟩ := isSome_free (by simp [h] : (t.free (a :: p) q).isSome)
  rw [heq] at h
  obtain ⟨b, hb⟩ := hw.child h hc
  refine ⟨b, ?_⟩
  rw [free_apply_of_not_suffix]
  · exact hb
  · intro hs
    rcases List.suffix_cons_iff.mp hs with e | hs
    · exact hqp (List.cons_eq_cons.mp e).2.symm
    · exact hns hs

/-- Freeing one child of a node that keeps another. -/
theorem wf_free {t : Trie α} (hw : WF n t) {a : ℕ} {p : Path}
    (hother : ∃ j, (t.free (a :: p) (j :: p)).isSome) : WF n (t.free (a :: p)) where
  root := by
    rw [free_apply_of_not_suffix (by simp)]
    exact hw.root
  parent h := hw.free_parent h
  child {q nd} h hc := by
    by_cases hqp : q = p
    · subst hqp
      exact hother
    · exact hw.free_child hqp h hc

theorem isSome_freeChild (t : Trie α) (p q : Path) : (t.freeChild p q).isSome = (t q).isSome := by
  by_cases hq : q = p
  · subst hq
    simp [freeChild]
  · simp [freeChild, hq]

theorem objAt_freeChild (t : Trie α) (p q : Path) : objAt (t.freeChild p) q = objAt t q := by
  by_cases hq : q = p
  · subst hq
    cases ht : t q <;> simp [objAt, freeChild, ht]
  · simp [objAt, freeChild, hq]

/-- Freeing the last child of a node together with the child array. -/
theorem wf_freeChild_free {t : Trie α} (hw : WF n t) {a : ℕ} {p : Path}
    (hlast : ∀ j, t.free (a :: p) (j :: p) = none) : WF n ((t.free (a :: p)).freeChild p) where
  root := by
    rw [isSome_freeChild, free_apply_of_not_suffix (by simp)]
    exact hw.root
  parent {b q} h := by
    rw [isSome_freeChild] at h
    obtain ⟨hb, nd, hnd, hc⟩ := hw.free_parent h
    have hqp : q ≠ p := by
      rintro rfl
      simp [hlast b] at h
    exact ⟨hb, nd, by rw [freeChild, Function.update_of_ne hqp]; exact hnd, hc⟩
  child {q nd} h hc := by
    have hqp : q ≠ p := by
      rintro rfl
      simp only [freeChild, Function.update_self, Option.map_eq_some_iff] at h
      obtain ⟨_, _, rfl⟩ := h
      simp at hc
    rw [freeChild, Function.update_of_ne hqp] at h
    obtain ⟨b, hb⟩ := hw.free_child hqp h hc
    exact ⟨b, by rw [isSome_freeChild]; exact hb⟩

theorem climb_cons (a s : ℕ) (addrs : List ℕ) (p : Path) (t : Trie α) :
    climb n (a :: addrs) (s :: p) t =
      if (t (s :: p)).any (fun nd => nd.obj.isSome || nd.child) then (t, [])
      else if (List.range n).any (fun j => (t.free (a :: p) (j :: p)).isSome) then
        (t.free (a :: p), (t (a :: p)).toList.map fun nd => (a :: p, nd))
      else ((climb n addrs p ((t.free (a :: p)).freeChild p)).1,
        ((t (a :: p)).toList.map fun nd => (a :: p, nd)) ++
          (climb n addrs p ((t.free (a :: p)).freeChild p)).2) := rfl

@[simp] theorem climb_nil (p : Path) (t : Trie α) : climb n [] p t = (t, []) := by
  cases p <;> rfl

/-- A climb keeps the shape, whatever it frees. -/
theorem wf_climb : ∀ {addrs : List ℕ} {p : Path} {t : Trie α}, WF n t →
    WF n (climb n addrs p t).1 := by
  intro addrs
  induction addrs with
  | nil =>
    intro _ _ hw
    exact hw
  | cons a addrs ih =>
    intro p t hw
    cases p with
    | nil => exact hw
    | cons s p =>
      rw [climb_cons]
      split_ifs with hstop hany
      · exact hw
      · obtain ⟨j, _, hj⟩ := List.any_eq_true.mp hany
        exact wf_free hw ⟨j, hj⟩
      · refine ih (wf_freeChild_free hw fun j => ?_)
        by_contra hne
        have hj := Option.isSome_iff_ne_none.mpr hne
        exact hany (List.any_eq_true.mpr ⟨j, List.mem_range.mpr (hw.free_parent hj).1, hj⟩)

theorem objAt_of_free {t : Trie α} {p q : Path} {o : α} (h : objAt (t.free p) q = some o) :
    objAt t q = some o := by
  by_cases hs : p <:+ q
  · simp [objAt, free, hs] at h
  · simpa [objAt, free_apply_of_not_suffix hs] using h

/-- What is still there after a climb was there before, in the same place. -/
theorem objAt_of_climb : ∀ {addrs : List ℕ} {p q : Path} {t : Trie α} {o : α},
    objAt (climb n addrs p t).1 q = some o → objAt t q = some o := by
  intro addrs
  induction addrs with
  | nil =>
    intro _ _ _ _ h
    exact h
  | cons a addrs ih =>
    intro p q t o h
    cases p with
    | nil => exact h
    | cons s p =>
      rw [climb_cons] at h
      split_ifs at h with hstop hany
      · exact h
      · exact objAt_of_free h
      · have hrec := ih h
        rw [objAt_freeChild] at hrec
        exact objAt_of_free hrec

theorem isSome_of_climb : ∀ {addrs : List ℕ} {p q : Path} {t : Trie α},
    ((climb n addrs p t).1 q).isSome → (t q).isSome := by
  intro addrs
  induction addrs with
  | nil =>
    intro _ _ _ h
    exact h
  | cons a addrs ih =>
    intro p q t h
    cases p with
    | nil => exact h
    | cons s p =>
      rw [climb_cons] at h
      split_ifs at h with hstop hany
      · exact h
      · rw [← (isSome_free h).2]
        exact h
      · have hrec := ih h
        rw [isSome_freeChild] at hrec
        rw [← (isSome_free hrec).2]
        exact hrec

/-- A climb that frees only bare nodes keeps the content. -/
theorem objAt_climb : ∀ {addrs : List ℕ} {p : Path} {t : Trie α}, WF n t →
    (∀ x ∈ (climb n addrs p t).2, x.2.Bare) → ∀ q, objAt (climb n addrs p t).1 q = objAt t q := by
  intro addrs
  induction addrs with
  | nil =>
    intro _ _ _ _ _
    rfl
  | cons a addrs ih =>
    intro p t hw hbare q
    cases p with
    | nil => rfl
    | cons s p =>
      rw [climb_cons] at hbare ⊢
      split_ifs at hbare ⊢ with hstop hany
      · rfl
      · exact objAt_free hw (fun nd hnd => hbare (a :: p, nd) (by simp [hnd])) q
      · have hb : ∀ nd, t (a :: p) = some nd → nd.Bare := fun nd hnd =>
          hbare (a :: p, nd) (by simp [hnd])
        have hlast : ∀ j, t.free (a :: p) (j :: p) = none := by
          intro j
          by_contra hne
          have hj := Option.isSome_iff_ne_none.mpr hne
          exact hany (List.any_eq_true.mpr ⟨j, List.mem_range.mpr (hw.free_parent hj).1, hj⟩)
        rw [ih (wf_freeChild_free hw hlast) (fun x hx => hbare x
          (List.mem_append_right _ hx)) q, objAt_freeChild, objAt_free hw hb]

/-! ### A climb along the node's own slots

    With the slots on the way up from `p` to clear, a climb from `p` frees what the tree does not need:
    if only nodes on the way had no object below them before, then no node but the root has none after. -/

/-- There is an object at the node or below it. -/
def Live (t : Trie α) (p : Path) : Prop := ∃ q, p <:+ q ∧ (objAt t q).isSome

theorem Live.of_suffix {t : Trie α} {p q : Path} (h : Live t q) (hs : p <:+ q) : Live t p := by
  obtain ⟨r, hr, hobj⟩ := h
  exact ⟨r, hs.trans hr, hobj⟩

/-- Tries with the same content have the same nodes to keep. -/
theorem live_congr {t t' : Trie α} (h : ∀ q, objAt t' q = objAt t q) (p : Path) :
    Live t' p ↔ Live t p := by
  unfold Live
  simp only [h]

/-- Below a node that is not there nothing is live. -/
theorem WF.isSome_of_live {t : Trie α} (hw : WF n t) {p : Path} (h : Live t p) : (t p).isSome := by
  obtain ⟨q, hs, hq⟩ := h
  obtain ⟨o, ho⟩ := Option.isSome_iff_exists.mp hq
  exact hw.isSome_of_suffix hs (isSome_of_objAt ho)

/-- A node that stops the climb is live, and so are the nodes above it. -/
theorem live_of_stop {t : Trie α} (hw : WF n t) {p : Path} {nd : Node α} (hnd : t p = some nd)
    (hlive : ∀ q, q ≠ [] → (t q).isSome → Live t q ∨ q <:+ p) (hstop : ¬ nd.Bare) : Live t p := by
  by_cases hobj : nd.obj = none
  · have hchild : nd.child = true := by
      rw [← Bool.not_eq_false]
      exact fun hc => hstop ⟨hobj, hc⟩
    obtain ⟨a, ha⟩ := hw.child hnd hchild
    rcases hlive (a :: p) (List.cons_ne_nil a p) ha with h | h
    · exact h.of_suffix (List.suffix_cons a p)
    · exact absurd h.length_le (by simp)
  · refine ⟨p, List.suffix_refl p, ?_⟩
    rw [objAt, hnd, Option.bind_some, Option.isSome_iff_ne_none]
    exact hobj

/-- What a climb along the own slots of `p` leaves and what it frees. -/
structure Prunes (t t' : Trie α) (p : Path) (freed : List (Path × Node α)) : Prop where
  bare : ∀ x ∈ freed, x.2.Bare
  path : ∀ q ∈ freed.map Prod.fst, q ≠ [] ∧ q <:+ p
  once : (freed.map Prod.fst).Nodup
  nodes : ∀ q, (t' q).isSome ↔ (t q).isSome ∧ q ∉ freed.map Prod.fst
  freed : ∀ q ∈ freed.map Prod.fst, (t q).isSome
  live : ∀ q, q ≠ [] → (t' q).isSome → Live t' q

theorem prunes_none {t : Trie α} {p : Path} (hlive : ∀ q, q ≠ [] → (t q).isSome → Live t q) :
    Prunes t t p [] where
  bare _ hx := absurd hx List.not_mem_nil
  path _ hq := absurd hq List.not_mem_nil
  once := List.nodup_nil
  nodes q := by simp
  freed _ hq := absurd hq List.not_mem_nil
  live := hlive

/-- Nothing hangs below a bare node. -/
theorem isSome_free_bare {t : Trie α} (hw : WF n t) {s : ℕ} {p : Path} {nd : Node α}
    (hnd : t (s :: p) = some nd) (hbare : nd.Bare) (q : Path) :
    (t.free (s :: p) q).isSome ↔ (t q).isSome ∧ q ≠ s :: p := by
  constructor
  · intro h
    obtain ⟨hns, heq⟩ := isSome_free h
    refine ⟨heq ▸ h, ?_⟩
    rintro rfl
    exact hns (List.suffix_refl _)
  · rintro ⟨hq, hne⟩
    rw [free_apply_of_not_suffix]
    · exact hq
    · intro hs
      obtain ⟨j, hj⟩ := suffix_cons_of_suffix hs hne
      have hnone : t (j :: s :: p) = none := hw.child_none j (by simp [hnd, hbare.2])
      rw [hw.none_of_suffix hj hnone] at hq
      exact Bool.noConfusion hq

theorem climb_own : ∀ {p : Path} {t : Trie α}, WF n t → (t p).isSome →
    (∀ q, q ≠ [] → (t q).isSome → Live t q ∨ q <:+ p) →
    Prunes t (climb n p p t).1 p (climb n p p t).2 := by
  intro p
  induction p with
  | nil =>
    intro t _ _ hlive
    refine prunes_none fun q hq hs => (hlive q hq hs).resolve_right fun h => hq ?_
    exact List.suffix_nil.mp h
  | cons s p ih =>
    intro t hw hp hlive
    obtain ⟨nd, hnd⟩ := Option.isSome_iff_exists.mp hp
    rw [climb_cons]
    by_cases hstop : nd.Bare
    · have hgo : ¬ (t (s :: p)).any (fun nd => nd.obj.isSome || nd.child) := by
        simp [hnd, hstop.1, hstop.2]
      have hfree := isSome_free_bare hw hnd hstop
      have hobj : ∀ q, objAt (t.free (s :: p)) q = objAt t q :=
        objAt_free hw fun nd' hnd' => (Option.some.inj (hnd'.symm.trans hnd)) ▸ hstop
      have hlive' : ∀ q, q ≠ [] → (t.free (s :: p) q).isSome → Live (t.free (s :: p)) q ∨ q <:+ p := by
        intro q hq hs
        obtain ⟨hqt, hne⟩ := (hfree q).mp hs
        rcases hlive q hq hqt with h | h
        · exact .inl ((live_congr hobj q).mpr h)
        · exact .inr ((List.suffix_cons_iff.mp h).resolve_left hne)
      rw [if_neg hgo, hnd]
      by_cases hany : (List.range n).any (fun j => (t.free (s :: p) (j :: p)).isSome)
      · -- another child hangs at the parent, so that the parent and all above it are live
        obtain ⟨j, _, hj⟩ := List.any_eq_true.mp hany
        have hjp : Live (t.free (s :: p)) (j :: p) := by
          rcases hlive' (j :: p) (List.cons_ne_nil j p) hj with h | h
          · exact h
          · exact absurd h.length_le (by simp)
        rw [if_pos hany]
        refine ⟨?_, ?_, by simp, fun q => ?_, ?_, fun q hq hs => ?_⟩
        · simpa using hstop
        · simp
        · simpa using hfree q
        · simpa using hp
        · rcases hlive' q hq hs with h | h
          · exact h
          · exact hjp.of_suffix (h.trans (List.suffix_cons j p))
      · have hlast : ∀ j, t.free (s :: p) (j :: p) = none := by
          intro j
          by_contra hne
          have hj := Option.isSome_iff_ne_none.mpr hne
          exact hany (List.any_eq_true.mpr ⟨j, List.mem_range.mpr (hw.free_parent hj).1, hj⟩)
        have hpar : (t p).isSome := by
          obtain ⟨_, nd', hnd', _⟩ := hw.parent hp
          simp [hnd']
        have hih := @ih ((t.free (s :: p)).freeChild p) (wf_freeChild_free hw hlast)
          (by rw [isSome_freeChild, hfree]; exact ⟨hpar, (List.cons_ne_self s p).symm⟩)
          fun q hq hs => by
            rw [isSome_freeChild] at hs
            rw [live_congr (objAt_freeChild _ p)]
            exact hlive' q hq hs
        rw [if_neg hany]
        set r := climb n p p ((t.free (s :: p)).freeChild p) with hr
        have hnew : s :: p ∉ r.2.map Prod.fst := fun hmem =>
          absurd (hih.path _ hmem).2.length_le (by simp)
        have hmap : (((some nd).toList.map fun nd => (s :: p, nd)) ++ r.2).map Prod.fst =
            (s :: p) :: r.2.map Prod.fst := rfl
        refine ⟨?_, ?_, ?_, fun q => ?_, ?_, hih.live⟩
        · intro x hx
          rcases List.mem_cons.mp hx with rfl | hx
          · exact hstop
          · exact hih.bare x hx
        · intro q hq
          rw [hmap] at hq
          rcases List.mem_cons.mp hq with rfl | hq
          · exact ⟨List.cons_ne_nil s p, List.suffix_refl _⟩
          · exact ⟨(hih.path q hq).1, (hih.path q hq).2.trans (List.suffix_cons s p)⟩
        · rw [hmap]
          exact List.nodup_cons.mpr ⟨hnew, hih.once⟩
        · rw [hmap, hih.nodes, isSome_freeChild, hfree, List.mem_cons, not_or, and_assoc]
        · intro q hq
          rw [hmap] at hq
          rcases List.mem_cons.mp hq with rfl | hq
          · exact hp
          · have hq' := hih.freed q hq
            rw [isSome_freeChild, hfree] at hq'
            exact hq'.1
    · have hgo : (t (s :: p)).any (fun nd => nd.obj.isSome || nd.child) := by
        have hor : nd.obj.isSome ∨ nd.child = true := by
          by_contra hnone
          rw [not_or, Option.not_isSome_iff_eq_none, Bool.not_eq_true] at hnone
          exact hstop hnone
        simpa [hnd] using hor
      rw [if_pos hgo]
      have hhere := live_of_stop hw hnd hlive hstop
      exact prunes_none fun q hq hs => (hlive q hq hs).elim id hhere.of_suffix

/-! ### Visiting all nodes -/

/-- The addresses with an object below `p`, to a depth, in the order of the slots. -/
def paths (n : ℕ) (t : Trie α) : ℕ → Path → List Path
  | 0, p => if (objAt t p).isSome then [p] else []
  | d + 1, p => (if (objAt t p).isSome then [p] else []) ++
      if (t p).any Node.child then
        (List.range n).flatMap fun j => if (t (j :: p)).isSome then paths n t d (j :: p) else []
      else []

theorem filterMap_here (t : Trie α) (p : Path) :
    (if (objAt t p).isSome then [p] else []).filterMap (objAt t) = (objAt t p).toList := by
  cases h : objAt t p <;> simp [h]

/-- What is visited are the objects of those addresses. -/
theorem getAll_eq (t : Trie α) : ∀ (d : ℕ) (p : Path),
    getAll n t d p = (paths n t d p).filterMap (objAt t) := by
  intro d
  induction d with
  | zero =>
    intro p
    exact (filterMap_here t p).symm
  | succ d ih =>
    intro p
    rw [getAll, paths, List.filterMap_append, filterMap_here]
    congr 1
    split_ifs
    · rw [List.filterMap_flatMap]
      refine List.flatMap_congr fun j _ => ?_
      split_ifs
      · exact ih (j :: p)
      · rfl
    · rfl

/-- Two children of a node have nothing below them in common. -/
theorem child_eq_of_suffix {i j : ℕ} {p q : Path} (hi : i :: p <:+ q) (hj : j :: p <:+ q) : i = j := by
  have hsuffix := List.suffix_of_suffix_length_le hi hj (by simp)
  exact (List.cons_eq_cons.mp (hsuffix.eq_of_length (by simp))).1

theorem mem_here {t : Trie α} {p q : Path} :
    q ∈ (if (objAt t p).isSome then [p] else []) ↔ q = p ∧ (objAt t q).isSome := by
  split_ifs with h
  · rw [List.mem_singleton]
    exact ⟨fun hq => ⟨hq, hq ▸ h⟩, And.left⟩
  · refine iff_of_false List.not_mem_nil ?_
    rintro ⟨rfl, h'⟩
    exact h h'

/-- Every object below `p` that is not deeper is visited. -/
theorem mem_paths {t : Trie α} (hw : WF n t) : ∀ {d : ℕ} {p q : Path},
    q ∈ paths n t d p ↔ p <:+ q ∧ q.length ≤ p.length + d ∧ (objAt t q).isSome := by
  intro d
  induction d with
  | zero =>
    intro p q
    rw [paths, mem_here]
    constructor
    · rintro ⟨rfl, h⟩
      exact ⟨List.suffix_refl q, Nat.le_refl _, h⟩
    · rintro ⟨hs, hlen, h⟩
      exact ⟨(hs.eq_of_length (Nat.le_antisymm hs.length_le hlen)).symm, h⟩
  | succ d ih =>
    intro p q
    rw [paths, List.mem_append, mem_here]
    constructor
    · rintro (⟨rfl, h⟩ | hmem)
      · exact ⟨List.suffix_refl q, Nat.le_add_right _ _, h⟩
      · split_ifs at hmem
        · obtain ⟨j, -, hj⟩ := List.mem_flatMap.mp hmem
          split_ifs at hj
          · obtain ⟨hs, hlen, h⟩ := (ih).mp hj
            rw [List.length_cons] at hlen
            exact ⟨(List.suffix_cons j p).trans hs, by omega, h⟩
          · exact absurd hj List.not_mem_nil
        · exact absurd hmem List.not_mem_nil
    · rintro ⟨hs, hlen, h⟩
      by_cases hqp : q = p
      · exact Or.inl ⟨hqp, h⟩
      · right
        obtain ⟨j, hj⟩ := suffix_cons_of_suffix hs hqp
        obtain ⟨o, ho⟩ := Option.isSome_iff_exists.mp h
        have hnode := hw.isSome_of_suffix hj (isSome_of_objAt ho)
        obtain ⟨hjn, nd, hnd, hchild⟩ := hw.parent hnode
        rw [if_pos (by simp [hnd, hchild])]
        refine List.mem_flatMap.mpr ⟨j, List.mem_range.mpr hjn, ?_⟩
        rw [if_pos hnode]
        exact (ih).mpr ⟨hj, by rw [List.length_cons]; omega, h⟩

/-- No address is visited twice. -/
theorem nodup_paths {t : Trie α} (hw : WF n t) : ∀ (d : ℕ) (p : Path), (paths n t d p).Nodup := by
  intro d
  induction d with
  | zero =>
    intro p
    rw [paths]
    split_ifs
    · exact List.nodup_singleton p
    · exact List.nodup_nil
  | succ d ih =>
    intro p
    have hbelow : ∀ {j q}, q ∈ (if (t (j :: p)).isSome then paths n t d (j :: p) else []) → j :: p <:+ q := by
      intro j q hq
      split_ifs at hq
      · exact ((mem_paths hw).mp hq).1
      · exact absurd hq List.not_mem_nil
    rw [paths]
    refine List.nodup_append.mpr ⟨?_, ?_, fun a ha b hb hab => ?_⟩
    · split_ifs
      · exact List.nodup_singleton p
      · exact List.nodup_nil
    · split_ifs
      · refine List.nodup_flatMap.mpr ⟨fun j _ => ?_, ?_⟩
        · split_ifs
          · exact ih (j :: p)
          · exact List.nodup_nil
        · refine List.nodup_range.imp fun hne => ?_
          exact List.disjoint_left.mpr fun q hq hq' => hne (child_eq_of_suffix (hbelow hq) (hbelow hq'))
      · exact List.nodup_nil
    · split_ifs at hb
      · obtain ⟨j, -, hj⟩ := List.mem_flatMap.mp hb
        have hlen := (hbelow hj).length_le
        rw [← hab, (mem_here.mp ha).1, List.length_cons] at hlen
        omega
      · exact absurd hb List.not_mem_nil

end Trie
end TradeC
