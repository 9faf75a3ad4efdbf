import Mathlib.Data.List.Chain
import Mathlib.Data.List.Iterate
import Mathlib.Data.List.Nodup
import Mathlib.Data.List.TakeWhile
import Mathlib.Logic.Function.Basic

/-! A circular doubly linked list with a cursor, at the level of its pointers.

    `Ring` is the pointers themselves; `Shows r l` says that following `next` from the cursor visits
    exactly `l`, each element once, and that `prev` is the inverse. The three operations act on the
    list as append at the end (the place just before the cursor), erase, and rotate by one. -/

namespace TradeC

structure Ring (ι : Type*) where
  curr : Option ι
  next : ι → ι
  prev : ι → ι

namespace Ring

variable {ι : Type*} [DecidableEq ι]

/-- Link `n` just before the cursor; alone, it becomes the cursor. -/
def insert (r : Ring ι) (n : ι) : Ring ι :=
  match r.curr with
  | none => ⟨some n, Function.update r.next n n, Function.update r.prev n n⟩
  | some c =>
    ⟨some c,
      Function.update (Function.update r.next n c) (r.prev c) n,
      Function.update (Function.update r.prev n (r.prev c)) c n⟩

/-- Unlink `t`; the cursor moves off it, to nowhere when `t` is the only element. -/
def unlink (r : Ring ι) (t : ι) : Ring ι :=
  if r.next t = t then { r with curr := none }
  else
    ⟨if r.curr = some t then some (r.next t) else r.curr,
      Function.update r.next (r.prev t) (r.next t),
      Function.update r.prev (r.next t) (r.prev t)⟩

/-- Move the cursor to the next element. -/
def advance (r : Ring ι) : Ring ι := { r with curr := r.curr.map r.next }

/-- Follow `next` from `a` until it comes back to `c`, for at most `fuel` elements. -/
def walk (r : Ring ι) (c : ι) : ℕ → ι → List ι
  | 0, _ => []
  | fuel + 1, a => a :: if r.next a = c then [] else walk r c fuel (r.next a)

/-- The elements met from the cursor, at most `fuel` of them. -/
def toList (r : Ring ι) (fuel : ℕ) : List ι :=
  match r.curr with
  | none => []
  | some c => r.walk c fuel c

def Linked (r : Ring ι) (a b : ι) : Prop := r.next a = b ∧ r.prev b = a

/-- From the cursor on, the ring is the list `l`. -/
def Shows (r : Ring ι) : List ι → Prop
  | [] => r.curr = none
  | c :: l => r.curr = some c ∧ (c :: l).Nodup ∧ List.IsChain r.Linked (c :: l ++ [c])

section Shows
omit [DecidableEq ι]

/-- A chain is kept under another relation that the old one implies between an element that is not
    the last and one that is not the first. -/
theorem isChain_imp_inner {R S : ι → ι → Prop} : ∀ {l : List ι}, List.IsChain R l →
    (∀ a b, a ∈ l.dropLast → b ∈ l.tail → R a b → S a b) → List.IsChain S l := by
  intro l
  induction l with
  | nil =>
    intro _ _
    exact .nil
  | cons a l ih =>
    intro h himp
    cases l with
    | nil => exact .singleton a
    | cons b l =>
      rw [List.isChain_cons_cons] at h ⊢
      refine ⟨himp a b (by simp) (by simp) h.1, ih h.2 ?_⟩
      intro x y hx hy
      exact himp x y (by simp [hx]) (by simpa using List.mem_of_mem_tail hy)

theorem Shows.nodup {r : Ring ι} : ∀ {l : List ι}, r.Shows l → l.Nodup
  | [], _ => List.nodup_nil
  | _ :: _, h => h.2.1

theorem Shows.curr {r : Ring ι} : ∀ {l : List ι}, r.Shows l → r.curr = l.head?
  | [], h => h
  | _ :: _, h => h.1

/-- The closed list of a ring, cut after its last element: the inner links, and the link back. -/
theorem Shows.closed {r : Ring ι} {c : ι} {l : List ι} (h : r.Shows (c :: l)) :
    List.IsChain r.Linked (c :: l) ∧ r.Linked ((c :: l).getLast (by simp)) c := by
  have hch := h.2.2
  rw [List.isChain_append] at hch
  exact ⟨hch.1, hch.2.2 _ (List.getLast_mem_getLast? _) c (by simp)⟩

/-- A list is shown when its inner links and the link back are there. -/
theorem shows_of_closed {r : Ring ι} {c : ι} {l : List ι} (hc : r.curr = some c)
    (hn : (c :: l).Nodup) (hin : List.IsChain r.Linked (c :: l))
    (hback : r.Linked ((c :: l).getLast (by simp)) c) : r.Shows (c :: l) := by
  refine ⟨hc, hn, List.isChain_append.mpr ⟨hin, .singleton c, ?_⟩⟩
  intro x hx y hy
  rw [List.getLast?_eq_getLast_of_ne_nil (by simp)] at hx
  cases hx
  cases hy
  exact hback

/-- The last element of a list without repetitions is not among the others. -/
theorem ne_getLast_of_mem_dropLast {l : List ι} (hn : l.Nodup) (hne : l ≠ []) {a : ι}
    (ha : a ∈ l.dropLast) : a ≠ l.getLast hne := by
  rintro rfl
  rw [← List.dropLast_append_getLast hne, List.nodup_append] at hn
  exact hn.2.2 _ ha _ (by simp) rfl

theorem shows_advance {r : Ring ι} {c : ι} {l : List ι} (h : r.Shows (c :: l)) :
    r.advance.Shows (l ++ [c]) := by
  obtain ⟨hc, hn, hch⟩ := h
  have hperm : (l ++ [c]).Nodup := (List.perm_append_singleton c l).nodup_iff.mpr hn
  cases l with
  | nil =>
    have hself : r.next c = c := by simpa [Linked] using (List.isChain_cons_cons.mp hch).1.1
    exact ⟨by simp [advance, hc, hself], hperm, hch⟩
  | cons d l =>
    rw [List.cons_append, List.cons_append, List.isChain_cons_cons] at hch
    refine ⟨by simp [advance, hc, hch.1.1], hperm, ?_⟩
    show List.IsChain r.Linked ((d :: (l ++ [c])) ++ [d])
    rw [List.isChain_append]
    refine ⟨hch.2, .singleton d, ?_⟩
    rw [← List.cons_append, List.getLast?_concat]
    simpa using hch.1

end Shows

theorem shows_insert {r : Ring ι} {n : ι} : ∀ {l : List ι}, r.Shows l → n ∉ l →
    (r.insert n).Shows (l ++ [n])
  | [], h, _ => by
    have hc : r.curr = none := h
    simp [insert, hc, Shows, Linked]
  | c :: l, h, hmem => by
    obtain ⟨hin, hback⟩ := h.closed
    set z := (c :: l).getLast (by simp) with hz
    have hzmem : z ∈ c :: l := List.getLast_mem _
    have hnc : n ≠ c := fun e => hmem (by simp [e])
    have hnz : n ≠ z := fun e => hmem (e ▸ hzmem)
    have hn : (c :: (l ++ [n])).Nodup := by
      rw [← List.cons_append, List.nodup_append]
      refine ⟨h.nodup, by simp, ?_⟩
      rintro a ha b hb rfl
      exact hmem (List.mem_singleton.mp hb ▸ ha)
    have hprev : r.prev c = z := hback.2
    rw [List.cons_append]
    refine shows_of_closed (by simp [insert, h.1]) hn ?_ ?_
    · rw [← List.cons_append, List.isChain_append]
      refine ⟨isChain_imp_inner hin ?_, .singleton n, ?_⟩
      · -- neither the old last element's `next` nor the cursor's `prev` is an inner link
        rintro a b ha hb ⟨hab, hba⟩
        have haz : a ≠ z := ne_getLast_of_mem_dropLast h.nodup (by simp) ha
        have han : a ≠ n := fun e => hmem (e ▸ List.dropLast_subset _ ha)
        have hbn : b ≠ n := fun e => hmem (e ▸ List.mem_of_mem_tail hb)
        have hbc : b ≠ c := fun e => (List.nodup_cons.mp h.nodup).1 (e ▸ hb)
        simp [insert, h.1, Linked, hprev, haz, han, hbn, hbc, hab, hba]
      · intro x hx y hy
        rw [List.getLast?_eq_getLast_of_ne_nil (by simp), ← hz] at hx
        cases hx
        cases hy
        simp [insert, h.1, Linked, hprev, hnc]
    · simp [insert, h.1, Linked, hprev, hnz]

theorem shows_unlink_head {r : Ring ι} {t : ι} : ∀ {l : List ι}, r.Shows (t :: l) →
    (r.unlink t).Shows l
  | [], h => by
    have hself : r.next t = t := by simpa [Linked] using (List.isChain_cons_cons.mp h.2.2).1.1
    simp [unlink, hself, Shows]
  | d :: l, h => by
    obtain ⟨hin, hback⟩ := h.closed
    rw [List.isChain_cons_cons] at hin
    have hn : (d :: l).Nodup := (List.nodup_cons.mp h.nodup).2
    have hdt : d ≠ t := fun e => (List.nodup_cons.mp h.nodup).1 (by simp [e])
    have hnext : r.next t = d := hin.1.1
    have hprev : r.prev t = (d :: l).getLast (by simp) := by simpa using hback.2
    refine shows_of_closed (by simp [unlink, h.1, hnext, hdt]) hn ?_ ?_
    · refine isChain_imp_inner hin.2 ?_
      rintro a b ha hb ⟨hab, hba⟩
      have haz := ne_getLast_of_mem_dropLast hn (by simp) ha
      have hbd : b ≠ d := fun e => (List.nodup_cons.mp hn).1 (e ▸ hb)
      simp [unlink, Linked, hnext, hdt, hprev, haz, hbd, hab, hba]
    · simp [unlink, Linked, hnext, hdt, hprev]

theorem shows_unlink_inner {r : Ring ι} {c t : ι} {p q : List ι}
    (h : r.Shows (c :: (p ++ t :: q))) : (r.unlink t).Shows (c :: (p ++ q)) := by
  obtain ⟨hc, hn, hch⟩ := h
  set x := (c :: p).getLast (by simp) with hx
  set y := (q ++ [c]).head (by simp) with hy
  have hsplit : c :: (p ++ t :: q) ++ [c] = (c :: p) ++ t :: (q ++ [c]) := by simp
  rw [hsplit, List.isChain_append] at hch
  obtain ⟨hcp, htq, hxt⟩ := hch
  have hlink : r.Linked x t := hxt x (List.getLast_mem_getLast? _) t (by simp)
  obtain ⟨hty, hqc⟩ : r.Linked t y ∧ List.IsChain r.Linked (q ++ [c]) := by
    cases q <;> simpa [hy] using htq
  have hxp : x ∈ c :: p := List.getLast_mem _
  have hyq : y ∈ q ++ [c] := List.head_mem _
  have hn' : (c :: (p ++ q)).Nodup := by
    refine hn.sublist ?_
    simp
  simp only [List.nodup_cons, List.nodup_append, List.mem_append, List.mem_cons, not_or] at hn
  obtain ⟨⟨hcp', hct, hcq⟩, hpn, ⟨htq', hqn⟩, hdisj⟩ := hn
  have hyt : y ≠ t := by
    rintro rfl
    rcases List.mem_append.mp hyq with hq | hq
    · exact htq' hq
    · exact hct (List.mem_singleton.mp hq).symm
  refine ⟨by simp [unlink, hc, hty.1, hyt, hct], hn', ?_⟩
  have hsplit' : c :: (p ++ q) ++ [c] = (c :: p) ++ (q ++ [c]) := by simp
  rw [hsplit', List.isChain_append]
  refine ⟨isChain_imp_inner hcp ?_, isChain_imp_inner hqc ?_, ?_⟩
  · rintro a b ha hb ⟨hab, hba⟩
    have hax : a ≠ x := by
      refine ne_getLast_of_mem_dropLast ?_ (by simp) ha
      exact List.nodup_cons.mpr ⟨hcp', hpn⟩
    have hby : b ≠ y := by
      rintro rfl
      rcases List.mem_append.mp hyq with hq | hq
      · exact hdisj _ hb _ (by simp [hq]) rfl
      · exact hcp' (by simpa [List.mem_singleton.mp hq] using hb)
    simp [unlink, Linked, hty.1, hyt, hlink.2, hax, hby, hab, hba]
  · rintro a b ha hb ⟨hab, hba⟩
    have hax : a ≠ x := by
      rintro rfl
      have haq : x ∈ q := by simpa using ha
      rcases List.mem_cons.mp hxp with e | hp
      · exact hcq (e ▸ haq)
      · exact hdisj _ hp _ (by simp [haq]) rfl
    have hby : b ≠ y := by
      have hqcn : (q ++ [c]).Nodup := by
        rw [List.nodup_append]
        refine ⟨hqn, by simp, ?_⟩
        rintro a ha b hb rfl
        exact hcq (List.mem_singleton.mp hb ▸ ha)
      rintro rfl
      rw [← List.cons_head_tail (by simp : q ++ [c] ≠ [])] at hqcn
      exact (List.nodup_cons.mp hqcn).1 hb
    simp [unlink, Linked, hty.1, hyt, hlink.2, hax, hby, hab, hba]
  · intro a ha b hb
    rw [List.getLast?_eq_getLast_of_ne_nil (by simp), ← hx] at ha
    rw [List.head?_eq_some_head (by simp), ← hy] at hb
    cases ha
    cases hb
    simp [unlink, Linked, hty.1, hyt, hlink.2]

/-- Unlinking an element of the ring erases it and leaves the order of the others. -/
theorem shows_unlink {r : Ring ι} {t : ι} {l : List ι} (h : r.Shows l) (ht : t ∈ l) :
    (r.unlink t).Shows (l.erase t) := by
  cases l with
  | nil => simp at ht
  | cons c l =>
    by_cases hct : c = t
    · subst hct
      rw [List.erase_cons_head]
      exact shows_unlink_head h
    · have htl : t ∈ l := (List.mem_cons.mp ht).resolve_left (Ne.symm hct)
      obtain ⟨p, q, rfl⟩ := List.append_of_mem htl
      have htp : t ∉ p := by
        have hn := (List.nodup_cons.mp h.nodup).2
        rw [List.nodup_append] at hn
        exact fun hp => hn.2.2 t hp t (by simp) rfl
      rw [List.erase_cons_tail (by simpa using hct), List.erase_append_right _ htp,
        List.erase_cons_head]
      exact shows_unlink_inner h

/-! ### Walking the ring -/

omit [DecidableEq ι] in
/-- A ring shows one list only. -/
theorem isChain_unique {r : Ring ι} {c : ι} : ∀ {l l' : List ι}, ∀ {a : ι},
    List.IsChain r.Linked (a :: l ++ [c]) → List.IsChain r.Linked (a :: l' ++ [c]) →
    c ∉ l → c ∉ l' → l = l' := by
  intro l
  induction l with
  | nil =>
    intro l' a h h' _ hc'
    cases l' with
    | nil => rfl
    | cons b l' =>
      simp only [List.cons_append, List.nil_append, List.isChain_cons_cons] at h h'
      exact absurd (h.1.1.symm.trans h'.1.1) fun e => hc' (by simp [e])
  | cons b l ih =>
    intro l' a h h' hc hc'
    cases l' with
    | nil =>
      simp only [List.cons_append, List.nil_append, List.isChain_cons_cons] at h h'
      exact absurd (h'.1.1.symm.trans h.1.1) fun e => hc (by simp [e])
    | cons b' l' =>
      simp only [List.cons_append, List.isChain_cons_cons] at h h'
      obtain rfl : b = b' := h.1.1.symm.trans h'.1.1
      rw [ih h.2 h'.2 (fun hm => hc (by simp [hm])) fun hm => hc' (by simp [hm])]

omit [DecidableEq ι] in
theorem Shows.unique {r : Ring ι} {l l' : List ι} (h : r.Shows l) (h' : r.Shows l') : l = l' := by
  cases l with
  | nil =>
    cases l' with
    | nil => rfl
    | cons c l' => exact absurd (Eq.trans h.symm h'.1 : (none : Option ι) = some c) (by simp)
  | cons c l =>
    cases l' with
    | nil => exact absurd (Eq.trans h'.symm h.1 : (none : Option ι) = some c) (by simp)
    | cons c' l' =>
      obtain rfl : c = c' := by simpa [h.1] using h'.1
      rw [isChain_unique h.2.2 h'.2.2 (List.nodup_cons.mp h.nodup).1
        (List.nodup_cons.mp h'.nodup).1]

theorem walk_of_isChain {r : Ring ι} {c : ι} : ∀ {l : List ι} {a : ι} {fuel : ℕ},
    List.IsChain r.Linked (a :: l ++ [c]) → c ∉ l → (a :: l).length ≤ fuel →
    r.walk c fuel a = a :: l
  | [], a, fuel + 1, h, _, _ => by
    have ha : r.next a = c := (List.isChain_cons_cons.mp h).1.1
    simp [walk, ha]
  | b :: l, a, fuel + 1, h, hc, hlen => by
    rw [List.cons_append, List.cons_append, List.isChain_cons_cons] at h
    simp only [List.mem_cons, not_or] at hc
    have hrec : r.walk c fuel b = b :: l := walk_of_isChain h.2 hc.2 (by simpa using hlen)
    simp [walk, h.1.1, Ne.symm hc.1, hrec]

theorem toList_of_shows {r : Ring ι} {fuel : ℕ} : ∀ {l : List ι}, r.Shows l → l.length ≤ fuel →
    r.toList fuel = l
  | [], h, _ => by
    have hc : r.curr = none := h
    simp [toList, hc]
  | c :: l, h, hlen => by
    have hw := walk_of_isChain h.2.2 (List.nodup_cons.mp h.nodup).1 hlen
    simpa [toList, h.1] using hw

section Reach
omit [DecidableEq ι]
variable {r : Ring ι} {l : List ι}

/-- Along a chain of links, `next` leads from its first element to each of its elements. -/
theorem reach_of_isChain : ∀ {l : List ι} {a b : ι}, List.IsChain r.Linked (a :: l) → b ∈ a :: l →
    ∃ k, r.next^[k] a = b := by
  intro l
  induction l with
  | nil =>
    intro a b _ hb
    obtain rfl := List.mem_singleton.mp hb
    exact ⟨0, rfl⟩
  | cons a' l ih =>
    intro a b h hb
    rcases List.mem_cons.mp hb with rfl | hb
    · exact ⟨0, rfl⟩
    · obtain ⟨hlink, hrest⟩ := List.isChain_cons_cons.mp h
      obtain ⟨k, hk⟩ := ih hrest hb
      exact ⟨k + 1, by rw [Function.iterate_succ_apply, hlink.1, hk]⟩

/-- The elements of a ring are closed under `next`. -/
theorem Shows.next_mem (h : r.Shows l) {a : ι} (ha : a ∈ l) : r.next a ∈ l := by
  match l, h with
  | c :: l, h =>
    obtain ⟨p, q, hpq⟩ := List.append_of_mem ha
    have hch := h.2.2
    rw [hpq, List.append_assoc, List.isChain_append] at hch
    have hq := hch.2.1
    cases q with
    | nil =>
      rw [(List.isChain_cons_cons.mp hq).1.1]
      simp
    | cons b q =>
      rw [List.cons_append, List.cons_append] at hq
      rw [(List.isChain_cons_cons.mp hq).1.1, hpq]
      simp

/-- Along the ring every element leads to every other. -/
theorem Shows.reach (h : r.Shows l) {a b : ι} (ha : a ∈ l) (hb : b ∈ l) :
    ∃ k, r.next^[k] a = b := by
  match l, h with
  | c :: l, h =>
    have hch := h.2.2
    obtain ⟨p, q, hpq⟩ := List.append_of_mem ha
    have hq : List.IsChain r.Linked (a :: (q ++ [c])) := by
      rw [hpq, List.append_assoc, List.isChain_append] at hch
      exact hch.2.1
    obtain ⟨k, hk⟩ := reach_of_isChain hq (b := c) (by simp)
    obtain ⟨k', hk'⟩ := reach_of_isChain (b := b) hch (List.mem_append_left _ hb)
    exact ⟨k' + k, by rw [Function.iterate_add_apply, hk, hk']⟩

/-- The successor of an element is another one, unless the element is alone. -/
theorem Shows.next_ne (h : r.Shows l) {a : ι} (ha : a ∈ l) (hne : l ≠ [a]) : r.next a ≠ a := by
  intro hself
  have hall : ∀ b ∈ l, b = a := by
    intro b hb
    obtain ⟨k, hk⟩ := h.reach ha hb
    rw [← hk]
    exact Function.iterate_fixed hself k
  have hlist : l = List.replicate l.length a := List.eq_replicate_of_mem hall
  have hlen : l.length ≤ 1 := by
    have hnd := h.nodup
    rwa [hlist, List.nodup_replicate] at hnd
  have hpos : 0 < l.length := List.length_pos_of_mem ha
  exact hne (hlist.trans (by rw [show l.length = 1 by omega]; rfl))

/-- Each element is linked to its successor, and its predecessor to it. -/
theorem Shows.links (h : r.Shows l) {a : ι} (ha : a ∈ l) :
    r.Linked a (r.next a) ∧ ∃ b ∈ l, r.Linked b a := by
  match l, h with
  | c :: l, h =>
    obtain ⟨p, q, hpq⟩ := List.append_of_mem ha
    have hch := h.2.2
    rw [hpq, List.append_assoc, List.isChain_append] at hch
    constructor
    · have hq := hch.2.1
      cases q with
      | nil =>
        have hl := (List.isChain_cons_cons.mp hq).1
        exact ⟨rfl, hl.1 ▸ hl.2⟩
      | cons b q =>
        rw [List.cons_append, List.cons_append] at hq
        have hl := (List.isChain_cons_cons.mp hq).1
        exact ⟨rfl, hl.1 ▸ hl.2⟩
    · rcases List.eq_nil_or_concat p with rfl | ⟨p', b, rfl⟩
      · obtain ⟨rfl, rfl⟩ := List.cons.inj hpq
        exact ⟨_, List.getLast_mem _, h.closed.2⟩
      · refine ⟨b, by simp [hpq], hch.2.2 b (by simp) a (by simp)⟩

theorem Shows.prev_mem (h : r.Shows l) {a : ι} (ha : a ∈ l) :
    r.prev a ∈ l ∧ r.next (r.prev a) = a := by
  obtain ⟨b, hb, hba⟩ := (h.links ha).2
  exact ⟨hba.2 ▸ hb, hba.2 ▸ hba.1⟩

/-- A ring is the same for whoever writes only to pointers of other objects. -/
theorem Shows.congr {r' : Ring ι} (h : r.Shows l) (hc : r'.curr = r.curr)
    (hl : ∀ a ∈ l, r'.next a = r.next a ∧ r'.prev a = r.prev a) : r'.Shows l := by
  cases l with
  | nil => exact Eq.trans hc h
  | cons c l =>
    refine ⟨hc.trans h.1, h.nodup, isChain_imp_inner h.2.2 ?_⟩
    intro a b ha hb hab
    have hal : a ∈ c :: l := by rwa [List.dropLast_concat] at ha
    have hbl : b ∈ c :: l := by
      rw [List.cons_append, List.tail_cons, List.mem_append, List.mem_singleton] at hb
      exact List.mem_cons.mpr hb.symm
    exact ⟨(hl a hal).1.trans hab.1, (hl b hbl).2.trans hab.2⟩

/-- `l` is what following `next` from the cursor visits, each element once, before it is at the
    cursor again. -/
def Visits (r : Ring ι) : List ι → Prop
  | [] => r.curr = none
  | c :: l => r.curr = some c ∧ (c :: l).Nodup ∧
      List.iterate r.next c (c :: l).length = c :: l ∧ r.next^[(c :: l).length] c = c

theorem iterate_of_isChain : ∀ {l : List ι} {a : ι}, List.IsChain r.Linked (a :: l) →
    List.iterate r.next a (a :: l).length = a :: l := by
  intro l
  induction l with
  | nil =>
    intro _ _
    rfl
  | cons b l ih =>
    intro a h
    obtain ⟨hlink, hrest⟩ := List.isChain_cons_cons.mp h
    rw [List.length_cons, List.iterate, hlink.1, ih hrest]

theorem Shows.visits : ∀ {l : List ι}, r.Shows l → r.Visits l
  | [], h => h
  | c :: l, h => by
    obtain ⟨hin, hback⟩ := h.closed
    have hit := iterate_of_isChain hin
    refine ⟨h.1, h.nodup, hit, ?_⟩
    have hlast : r.next^[l.length] c = (c :: l).getLast (by simp) := by
      have hget := List.getElem_iterate r.next c (c :: l).length l.length (by simp)
      simp only [hit] at hget
      rw [← hget, List.getLast_eq_getElem]
      simp
    rw [List.length_cons, Function.iterate_succ_apply', hlast]
    exact hback.1

/-- A walk that is back at its start does not visit it twice on a longer way. -/
theorem length_le_of_iterate {c : ι} {l : List ι} {k : ℕ} (hn : l.Nodup)
    (hl : List.iterate r.next c l.length = l) (hk : r.next^[k] c = c) (hpos : 0 < k) :
    l.length ≤ k := by
  by_contra hlt
  rw [not_le] at hlt
  have hat : ∀ i (hi : i < l.length), l[i] = r.next^[i] c := by
    intro i hi
    have := List.getElem_iterate r.next c l.length i (by simpa using hi)
    simpa only [hl] using this
  have heq : l[k] = l[0] := by rw [hat k hlt, hat 0 (by omega), hk]; rfl
  have := (List.Nodup.getElem_inj_iff hn).mp heq
  omega

theorem Visits.unique {l' : List ι} (h : r.Visits l) (h' : r.Visits l') : l = l' := by
  cases l with
  | nil =>
    cases l' with
    | nil => rfl
    | cons c l' => exact absurd (Eq.trans h.symm h'.1 : (none : Option ι) = some c) (by simp)
  | cons c l =>
    cases l' with
    | nil => exact absurd (Eq.trans h'.symm h.1 : (none : Option ι) = some c) (by simp)
    | cons c' l' =>
      obtain ⟨hc, hn, hit, hback⟩ := h
      obtain ⟨hc', hn', hit', hback'⟩ := h'
      obtain rfl : c = c' := Option.some.inj (hc.symm.trans hc')
      have hle := length_le_of_iterate hn hit hback' (by simp)
      have hge := length_le_of_iterate hn' hit' hback (by simp)
      rw [← hit, ← hit', le_antisymm hle hge]

end Reach

/-! ### Which pointers an operation writes -/

section Frame
variable {r : Ring ι} {l : List ι}

theorem insert_frame (h : r.Shows l) {n a : ι} (ha : a ∉ l) (hn : a ≠ n) :
    (r.insert n).next a = r.next a ∧ (r.insert n).prev a = r.prev a := by
  cases l with
  | nil =>
    have hc : r.curr = none := h
    simp [insert, hc, hn]
  | cons c l =>
    have hc : a ≠ c := fun e => ha (by simp [e])
    have hp : a ≠ r.prev c := fun e => ha (e ▸ (h.prev_mem (by simp)).1)
    simp [insert, h.1, hn, hc, hp]

theorem unlink_frame (h : r.Shows l) {t a : ι} (ht : t ∈ l) (ha : a ∉ l) :
    (r.unlink t).next a = r.next a ∧ (r.unlink t).prev a = r.prev a := by
  have hn : a ≠ r.next t := fun e => ha (e ▸ h.next_mem ht)
  have hp : a ≠ r.prev t := fun e => ha (e ▸ (h.prev_mem ht).1)
  unfold unlink
  split_ifs <;> simp [hn, hp]

end Frame

/-! ### Once around

    A walk along the ring that ends where it comes to `st` again. -/

section Around
variable {l : List ι} {st n : ι}

/-- What comes before `st`. -/
def upTo (st : ι) (l : List ι) : List ι := l.takeWhile (· ≠ st)

/-- What a walk from the cursor comes to before it is at `st`, or at `st` again. -/
def round (st : ι) (l : List ι) : List ι := if l.head? = some st then l else upTo st l

theorem upTo_append (h : st ∈ l) (l' : List ι) : upTo st (l ++ l') = upTo st l := by
  induction l with
  | nil => simp at h
  | cons a l ih =>
    by_cases ha : a = st
    · simp [upTo, ha]
    · have hmem : st ∈ l := (List.mem_cons.mp h).resolve_left (Ne.symm ha)
      simpa [upTo, ha] using ih hmem

theorem upTo_erase_sublist (hn : n ≠ st) (l : List ι) :
    List.Sublist (upTo st (l.erase n)) (upTo st l) := by
  induction l with
  | nil => exact List.nil_sublist _
  | cons a l ih =>
    by_cases ha : a = n
    · subst ha
      simp [upTo, hn]
    · rw [List.erase_cons_tail (by simpa using ha)]
      by_cases hst : a = st
      · simp [upTo, hst]
      · simpa [upTo, hst] using ih

theorem not_mem_upTo : st ∉ upTo st l := fun h => by simpa using List.mem_takeWhile_imp h

theorem upTo_sublist_erase : List.Sublist (upTo st l) (l.erase st) := by
  have h : List.Sublist ((upTo st l).erase st) (l.erase st) := (List.takeWhile_sublist _).erase st
  rwa [List.erase_of_not_mem not_mem_upTo] at h

theorem round_cons (c : ι) (l : List ι) :
    round st (c :: l) = c :: if c = st then l else upTo st l := by
  by_cases hc : c = st
  · simp [round, hc]
  · simp [round, upTo, hc]

theorem round_sublist : List.Sublist (round st l) l := by
  rw [round]
  split_ifs
  · exact List.Sublist.refl l
  · exact List.takeWhile_sublist _

end Around

/-! ### One statement at a time -/

/-- The assignments of `insert` and `unlink`. -/
inductive Stmt (ι : Type*) where
  | alone (n : ι)
  | alonePrev (n : ι)
  | aloneCurr (n : ι)
  | nextCurr (n : ι)
  | prevCurr (n : ι)
  | nextPrev (n : ι)
  | prevNext (n : ι)
  | currNone
  | currNext (t : ι)
  | skipNext (t : ι)
  | skipPrev (t : ι)
  deriving DecidableEq

/-- `n->next = n`, and so on; the pointers are read when the statement runs. -/
def exec (r : Ring ι) : Stmt ι → Ring ι
  | .alone n => { r with next := Function.update r.next n n }
  | .alonePrev n => { r with prev := Function.update r.prev n n }
  | .aloneCurr n => { r with curr := some n }
  | .nextCurr n => { r with next := Function.update r.next n (r.curr.getD n) }
  | .prevCurr n => { r with prev := Function.update r.prev n (r.prev (r.curr.getD n)) }
  | .nextPrev n => { r with prev := Function.update r.prev (r.next n) n }
  | .prevNext n => { r with next := Function.update r.next (r.prev n) n }
  | .currNone => { r with curr := none }
  | .currNext t => { r with curr := some (r.next t) }
  | .skipNext t => { r with prev := Function.update r.prev (r.next t) (r.prev t) }
  | .skipPrev t => { r with next := Function.update r.next (r.prev t) (r.next t) }

def insertStmts (r : Ring ι) (n : ι) : List (Stmt ι) :=
  match r.curr with
  | none => [.alone n, .alonePrev n, .aloneCurr n]
  | some _ => [.nextCurr n, .prevCurr n, .nextPrev n, .prevNext n]

def unlinkStmts (r : Ring ι) (t : ι) : List (Stmt ι) :=
  if r.next t = t then [.currNone]
  else (if r.curr = some t then [.currNext t] else []) ++ [.skipNext t, .skipPrev t]

theorem exec_insertStmts (r : Ring ι) {n : ι} (hn : r.curr ≠ some n) :
    (r.insertStmts n).foldl exec r = r.insert n := by
  unfold insertStmts insert
  cases hc : r.curr with
  | none => rfl
  | some c =>
    have hne : n ≠ c := fun h => hn (h ▸ hc)
    simp [exec, hc, hne]

theorem exec_unlinkStmts (r : Ring ι) (t : ι) :
    (r.unlinkStmts t).foldl exec r = r.unlink t := by
  unfold unlinkStmts unlink
  by_cases hself : r.next t = t
  · rw [if_pos hself, if_pos hself]
    rfl
  · rw [if_neg hself, if_neg hself]
    by_cases hc : r.curr = some t <;> simp [exec, hc, Ne.symm hself]

end Ring
end TradeC
