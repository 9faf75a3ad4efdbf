import TradeC.Lib.Run
import TradeC.Trigger.Basic
import Mathlib.Data.List.Rotate

/-! The rings of all stocks, over one memory of trigger objects.

    A trigger has its own `next` and `prev`; a stock has the cursor `curr`. The three operations are
    the parts of `addTrigger`, `removeTrigger` and `trigger_handler` that run under the stock's lock.
    What a step does to the list that a ring shows is an append, an erase or a rotation by one
    (`Lib.Ring`), at the stock of the step; the pointers of every other stock are not written. -/

namespace TradeC

structure Rings where
  curr : StockID → Option TrigID
  next : TrigID → TrigID
  prev : TrigID → TrigID
  /-- The stock of a linked trigger; `none` for an object that is not linked. -/
  stockObj : TrigID → Option StockID

/-- `nTrigger` of `addTrigger` is an object just allocated. -/
inductive RingOp where
  | addTrigger (nTrigger : TrigID) (stockObj : StockID)
  | removeTrigger (trigObj : TrigID)
  | advance (cStock : StockID)

namespace Rings

/-- No trigger yet; the pointers hold anything. -/
def init (next prev : TrigID → TrigID) : Rings := ⟨fun _ => none, next, prev, fun _ => none⟩

/-- One stock's ring. -/
def ring (s : Rings) (st : StockID) : Ring TrigID := ⟨s.curr st, s.next, s.prev⟩

/-- Write back what an operation did to the ring of `st`. -/
def put (s : Rings) (st : StockID) (r : Ring TrigID) (stockObj : TrigID → Option StockID) : Rings :=
  ⟨Function.update s.curr st r.curr, r.next, r.prev, stockObj⟩

/-- `curr->next` has no result where `curr` is NULL. -/
def step (s : Rings) : RingOp → Option Rings
  | .addTrigger t st =>
    match s.stockObj t with
    | some _ => none
    | none => some (s.put st ((s.ring st).insert t) (Function.update s.stockObj t (some st)))
  | .removeTrigger t =>
    (s.stockObj t).map fun st =>
      s.put st ((s.ring st).unlink t) (Function.update s.stockObj t none)
  | .advance st => (s.curr st).map fun _ => s.put st (s.ring st).advance s.stockObj

@[simp] theorem ring_put_self (s : Rings) (st : StockID) (r : Ring TrigID)
    (h : TrigID → Option StockID) : (s.put st r h).ring st = r := by simp [put, ring]

/-- Another stock keeps its cursor, over the new pointers. -/
theorem ring_put_ne (s : Rings) {st st' : StockID} (hne : st' ≠ st) (r : Ring TrigID)
    (h : TrigID → Option StockID) : (s.put st r h).ring st' = ⟨s.curr st', r.next, r.prev⟩ := by
  simp [put, ring, hne]

/-- `l` is the ring of `st`: all the triggers linked to it, each once. -/
structure Lists (s : Rings) (st : StockID) (l : List TrigID) : Prop where
  shows : (s.ring st).Shows l
  mem : ∀ t, t ∈ l ↔ s.stockObj t = some st

def WF (s : Rings) : Prop := ∀ st, ∃ l, s.Lists st l

theorem wf_init (next prev : TrigID → TrigID) : (init next prev).WF :=
  fun _ => ⟨[], rfl, fun t => by simp [init]⟩

/-! ### What remains of a ring -/

/-- The elements of `l` that `l'` has too, in the order of `l`. -/
def remaining (l l' : List TrigID) : List TrigID := l.filter fun t => t ∈ l'

theorem remaining_self (l : List TrigID) : remaining l l = l :=
  List.filter_eq_self.mpr fun _ ht => by simpa using ht

theorem remaining_concat {l : List TrigID} {t : TrigID} (ht : t ∉ l) :
    remaining l (l ++ [t]) = l ∧ remaining (l ++ [t]) l = l := by
  constructor
  · exact List.filter_eq_self.mpr fun a ha => by simp [ha]
  · have hl : remaining l l = l := remaining_self l
    rw [remaining] at hl ⊢
    rw [List.filter_append, hl]
    simp [ht]

theorem remaining_erase {l : List TrigID} (hn : l.Nodup) (t : TrigID) :
    remaining l (l.erase t) = l.erase t ∧ remaining (l.erase t) l = l.erase t := by
  constructor
  · rw [hn.erase_eq_filter]
    refine List.filter_congr fun a ha => ?_
    by_cases hat : a = t <;> simp [ha, hat]
  · exact List.filter_eq_self.mpr fun a ha => by simpa using List.mem_of_mem_erase ha

theorem remaining_rotate (c : TrigID) (l : List TrigID) :
    remaining (c :: l) (l ++ [c]) = c :: l ∧ remaining (l ++ [c]) (c :: l) = l ++ [c] := by
  constructor <;>
    exact List.filter_eq_self.mpr fun a ha => by simpa [or_comm] using ha

/-! ### One step

    First the list at the stock of the step, then the lists of the other stocks. -/

section Step
variable {s : Rings} {st st' : StockID} {t c : TrigID} {l : List TrigID}

theorem Lists.addTrigger (hl : s.Lists st l) (ht : s.stockObj t = none) :
    (s.put st ((s.ring st).insert t) (Function.update s.stockObj t (some st))).Lists st
      (l ++ [t]) := by
  have htl : t ∉ l := fun h => by simpa [ht] using (hl.mem t).mp h
  refine ⟨?_, fun a => ?_⟩
  · rw [ring_put_self]
    exact Ring.shows_insert hl.shows htl
  · by_cases ha : a = t
    · simp [put, ha]
    · simp [put, ha, hl.mem]

theorem Lists.removeTrigger (hl : s.Lists st l) (ht : s.stockObj t = some st) :
    (s.put st ((s.ring st).unlink t) (Function.update s.stockObj t none)).Lists st
      (l.erase t) := by
  refine ⟨?_, fun a => ?_⟩
  · rw [ring_put_self]
    exact Ring.shows_unlink hl.shows ((hl.mem t).mpr ht)
  · rw [hl.shows.nodup.mem_erase_iff, hl.mem]
    by_cases hat : a = t
    · simp [put, hat]
    · simp [put, hat]

theorem Lists.advance (hl : s.Lists st (c :: l)) :
    (s.put st (s.ring st).advance s.stockObj).Lists st (l ++ [c]) := by
  refine ⟨?_, fun a => ?_⟩
  · rw [ring_put_self]
    exact Ring.shows_advance hl.shows
  · rw [put, ← hl.mem a]
    simp [or_comm]

/-- Who writes only to pointers of the triggers of `st` leaves the ring of `st'`. -/
theorem Lists.other (hl : s.Lists st' l) (hne : st' ≠ st) {r : Ring TrigID}
    {h : TrigID → Option StockID} (hh : ∀ t, h t = some st' ↔ s.stockObj t = some st')
    (hr : ∀ t, s.stockObj t = some st' → r.next t = s.next t ∧ r.prev t = s.prev t) :
    (s.put st r h).Lists st' l := by
  refine ⟨?_, fun t => (hl.mem t).trans (hh t).symm⟩
  rw [ring_put_ne s hne]
  exact hl.shows.congr rfl fun t ht => hr t ((hl.mem t).mp ht)

theorem Lists.addTrigger_other (hl : s.Lists st' l) (hs : s.WF) (hne : st' ≠ st)
    (ht : s.stockObj t = none) :
    (s.put st ((s.ring st).insert t) (Function.update s.stockObj t (some st))).Lists st' l := by
  obtain ⟨m, hm⟩ := hs st
  refine hl.other hne (fun a => ?_) fun a ha => ?_
  · by_cases hat : a = t
    · simp [hat, ht, Ne.symm hne]
    · simp [hat]
  · have hat : a ≠ t := by
      rintro rfl
      simp [ht] at ha
    refine Ring.insert_frame hm.shows (fun h => hne ?_) hat
    exact Option.some.inj (ha.symm.trans ((hm.mem a).mp h))

theorem Lists.removeTrigger_other (hl : s.Lists st' l) (hs : s.WF) (hne : st' ≠ st)
    (ht : s.stockObj t = some st) :
    (s.put st ((s.ring st).unlink t) (Function.update s.stockObj t none)).Lists st' l := by
  obtain ⟨m, hm⟩ := hs st
  refine hl.other hne (fun a => ?_) fun a ha => ?_
  · by_cases hat : a = t
    · simp [hat, ht, Ne.symm hne]
    · simp [hat]
  · refine Ring.unlink_frame hm.shows ((hm.mem t).mpr ht) fun h => hne ?_
    exact Option.some.inj (ha.symm.trans ((hm.mem a).mp h))

end Step

/-- A stock's ring before and after a step: well formed, with the common triggers in one cyclic
    order. -/
def Carries (s s' : Rings) (st : StockID) : Prop :=
  ∀ l, s.Lists st l → ∃ l', s'.Lists st l' ∧ remaining l l' ~r remaining l' l

theorem carries_addTrigger {s : Rings} (hs : s.WF) {t : TrigID} (ht : s.stockObj t = none)
    (st st' : StockID) :
    s.Carries (s.put st ((s.ring st).insert t) (Function.update s.stockObj t (some st))) st' := by
  intro l hl
  by_cases hst : st' = st
  · subst hst
    have htl : t ∉ l := fun h => by simpa [ht] using (hl.mem t).mp h
    refine ⟨l ++ [t], hl.addTrigger ht, ?_⟩
    rw [(remaining_concat htl).1, (remaining_concat htl).2]
  · exact ⟨l, hl.addTrigger_other hs hst ht, List.IsRotated.refl _⟩

theorem carries_removeTrigger {s : Rings} (hs : s.WF) {t : TrigID} {st : StockID}
    (ht : s.stockObj t = some st) (st' : StockID) :
    s.Carries (s.put st ((s.ring st).unlink t) (Function.update s.stockObj t none)) st' := by
  intro l hl
  by_cases hst : st' = st
  · subst hst
    have hn := hl.shows.nodup
    refine ⟨l.erase t, hl.removeTrigger ht, ?_⟩
    rw [(remaining_erase hn t).1, (remaining_erase hn t).2]
  · exact ⟨l, hl.removeTrigger_other hs hst ht, List.IsRotated.refl _⟩

theorem carries_advance {s : Rings} {st : StockID} {c : TrigID} (hc : s.curr st = some c)
    (st' : StockID) : s.Carries (s.put st (s.ring st).advance s.stockObj) st' := by
  intro l hl
  by_cases hst : st' = st
  · subst hst
    cases l with
    | nil => exact absurd (hc.symm.trans hl.shows) (by simp)
    | cons a l =>
      refine ⟨l ++ [a], hl.advance, ?_⟩
      rw [(remaining_rotate a l).1, (remaining_rotate a l).2]
      exact (List.isRotated_concat a l).symm
  · exact ⟨l, hl.other hst (fun _ => Iff.rfl) fun _ _ => ⟨rfl, rfl⟩, List.IsRotated.refl _⟩

theorem step_carries {s s' : Rings} {op : RingOp} (hs : s.WF) (h : step s op = some s')
    (st : StockID) : s.Carries s' st := by
  cases op with
  | addTrigger t st₀ =>
    cases ht : s.stockObj t with
    | some _ => simp [step, ht] at h
    | none =>
      simp only [step, ht, Option.some.injEq] at h
      exact h ▸ carries_addTrigger hs ht st₀ st
  | removeTrigger t =>
    obtain ⟨st₀, ht, rfl⟩ := Option.map_eq_some_iff.mp h
    exact carries_removeTrigger hs ht st
  | advance st₀ =>
    obtain ⟨c, hc, rfl⟩ := Option.map_eq_some_iff.mp h
    exact carries_advance hc st

theorem step_wf {s s' : Rings} {op : RingOp} (hs : s.WF) (h : step s op = some s') : s'.WF := by
  intro st
  obtain ⟨l, hl⟩ := hs st
  obtain ⟨l', hl', _⟩ := step_carries hs h st l hl
  exact ⟨l', hl'⟩

/-! ### Runs -/

/-- The shape of a stock's ring. -/
structure Shape (s : Rings) (st : StockID) : Prop where
  /-- The cursor is NULL exactly when no trigger is linked. -/
  empty : s.curr st = none ↔ ∀ t, s.stockObj t ≠ some st
  /-- Following `next` from the cursor visits the linked triggers, each once, and comes back. -/
  visits : ∃ l, (s.ring st).Visits l ∧ ∀ t, t ∈ l ↔ s.stockObj t = some st
  /-- On the linked triggers `prev` is the inverse of `next`. -/
  inverse : ∀ t, s.stockObj t = some st →
    (s.stockObj (s.next t) = some st ∧ s.prev (s.next t) = t) ∧
      s.stockObj (s.prev t) = some st ∧ s.next (s.prev t) = t

/-- The triggers linked before and after are in one cyclic order. -/
def SameCycle (s s' : Rings) (st : StockID) : Prop :=
  ∀ l l', (s.ring st).Visits l → (s'.ring st).Visits l' → remaining l l' ~r remaining l' l

theorem Lists.shape {s : Rings} {st : StockID} {l : List TrigID} (hl : s.Lists st l) :
    s.Shape st := by
  refine ⟨?_, ⟨l, hl.shows.visits, hl.mem⟩, ?_⟩
  · cases l with
    | nil => exact ⟨fun _ t ht => by simpa using (hl.mem t).mpr ht, fun _ => hl.shows⟩
    | cons c l =>
      have hc : s.curr st = some c := hl.shows.1
      constructor
      · intro h
        simp [hc] at h
      · intro h
        exact absurd ((hl.mem c).mp (by simp)) (h c)
  · intro t ht
    have hmem := (hl.mem t).mpr ht
    exact ⟨⟨(hl.mem _).mp (hl.shows.next_mem hmem), (hl.shows.links hmem).1.2⟩,
      (hl.mem _).mp (hl.shows.prev_mem hmem).1, (hl.shows.prev_mem hmem).2⟩

theorem Carries.sameCycle {s s' : Rings} {st : StockID} {l : List TrigID} (hl : s.Lists st l)
    (h : s.Carries s' st) : s.SameCycle s' st := by
  obtain ⟨l', hl', hrot⟩ := h l hl
  intro m m' hm hm'
  rw [hm.unique hl.shows.visits, hm'.unique hl'.shows.visits]
  exact hrot

/-- Every stock's ring has its shape in every state that a sequence of insertions, removals of a
    linked trigger and cursor moves leads to, and a further one keeps the cyclic order of the
    triggers that remain. -/
theorem ring_keeps_shape (next prev : TrigID → TrigID) (ops : List RingOp) (s : Rings)
    (h : Run.exec step (init next prev) ops = some s) (st : StockID) :
    s.Shape st ∧ ∀ op s', step s op = some s' → s.SameCycle s' st := by
  have hs : s.WF := Run.exec_inv (fun _ _ _ => step_wf) ops _ _ (wf_init next prev) h
  obtain ⟨l, hl⟩ := hs st
  exact ⟨hl.shape, fun op s' hop => Carries.sameCycle hl (step_carries hs hop st)⟩

/-- Two triggers on one stock and the cursor on the second; the first is removed. -/
theorem ring_keeps_shape_twoTriggers :
    ∃ s, Run.exec step (init id id)
        [.addTrigger 0 stockABC, .addTrigger 1 stockABC, .advance stockABC] = some s ∧
      s.Shape stockABC ∧ ∀ s', step s (.removeTrigger 0) = some s' → s.SameCycle s' stockABC := by
  refine ⟨_, rfl, ?_⟩
  obtain ⟨hshape, hcycle⟩ := ring_keeps_shape id id
    [.addTrigger 0 stockABC, .addTrigger 1 stockABC, .advance stockABC] _ rfl stockABC
  exact ⟨hshape, fun s' h => hcycle (.removeTrigger 0) s' h⟩

/-! ### The rings of `Mem`

    `Mem` keeps a pointer memory for each stock. What it links is what the one memory links. -/

/-- The memory and the rings link the same triggers in the same order. -/
structure Same (m : Mem) (s : Rings) : Prop where
  lists : ∀ st, ∃ l, (m.ring st).Shows l ∧ s.Lists st l
  stockObj : ∀ t, s.stockObj t = (m.obj t).map Trigger.stockObj

theorem Same.wf {m : Mem} {s : Rings} (h : Same m s) : s.WF := fun st => by
  obtain ⟨l, _, hl⟩ := h.lists st
  exact ⟨l, hl⟩

theorem same_init (next prev : TrigID → TrigID) : Same Mem.init (init next prev) :=
  ⟨fun _ => ⟨[], rfl, rfl, fun t => by simp [init]⟩, fun _ => rfl⟩

theorem Same.insert {m m' : Mem} {s : Rings} {n : TrigID} (h : Same m s) (tr : Trigger)
    (hn : m.obj n = none) (hobj : m'.obj = Function.update m.obj n (some tr))
    (hring : m'.ring = Function.update m.ring tr.stockObj ((m.ring tr.stockObj).insert n)) :
    ∃ s', step s (.addTrigger n tr.stockObj) = some s' ∧ Same m' s' := by
  have ht : s.stockObj n = none := by rw [h.stockObj, hn, Option.map_none]
  refine ⟨_, by rw [step, ht], fun st => ?_, fun t => ?_⟩
  · obtain ⟨l, hsh, hl⟩ := h.lists st
    rw [hring]
    by_cases hst : st = tr.stockObj
    · subst hst
      refine ⟨l ++ [n], ?_, hl.addTrigger ht⟩
      rw [Function.update_self]
      refine Ring.shows_insert hsh fun hmem => ?_
      simpa [ht] using (hl.mem n).mp hmem
    · refine ⟨l, ?_, hl.addTrigger_other h.wf hst ht⟩
      rwa [Function.update_of_ne hst]
  · rw [hobj]
    by_cases htn : t = n
    · simp [put, htn]
    · simp [put, htn, h.stockObj]

theorem Same.unlink {m m' : Mem} {s : Rings} {t : TrigID} {tr : Trigger} (h : Same m s)
    (htr : m.obj t = some tr) (hobj : m'.obj = Function.update m.obj t none)
    (hring : m'.ring = Function.update m.ring tr.stockObj ((m.ring tr.stockObj).unlink t)) :
    ∃ s', step s (.removeTrigger t) = some s' ∧ Same m' s' := by
  have ht : s.stockObj t = some tr.stockObj := by rw [h.stockObj, htr, Option.map_some]
  refine ⟨_, by rw [step, ht, Option.map_some], fun st => ?_, fun a => ?_⟩
  · obtain ⟨l, hsh, hl⟩ := h.lists st
    rw [hring]
    by_cases hst : st = tr.stockObj
    · subst hst
      refine ⟨l.erase t, ?_, hl.removeTrigger ht⟩
      rw [Function.update_self]
      exact Ring.shows_unlink hsh ((hl.mem t).mpr ht)
    · refine ⟨l, ?_, hl.removeTrigger_other h.wf hst ht⟩
      rwa [Function.update_of_ne hst]
  · rw [hobj]
    by_cases hat : a = t
    · simp [put, hat]
    · simp [put, hat, h.stockObj]

/-- `addTrigger` leaves the rings alone, or links a new object to the ring of its stock. -/
theorem Same.addTrigger {m : Mem} {s : Rings} (h : Same m s) (hw : m.WF) (u : UserID)
    (transID : CStr) (st : StockID) (ty : TType) (amount trig : ℤ) :
    Same (m.addTrigger u transID st ty amount trig).1 s ∨
      ∃ s', step s (.addTrigger m.fresh st) = some s' ∧
        Same (m.addTrigger u transID st ty amount trig).1 s' := by
  have hn : m.obj m.fresh = none := by
    cases hobj : m.obj m.fresh with
    | none => rfl
    | some tr => exact absurd (hw.live hobj) (lt_irrefl _)
  unfold Mem.addTrigger
  rcases Trie.insertPath (slot ty) st.str [] (m.tTree u) with ⟨tree, _ | temp⟩
  · exact .inl ⟨h.lists, h.stockObj⟩
  · cases hobj : tree.objAt temp with
    | some t =>
      simp only [hobj]
      exact .inl ⟨h.lists, h.stockObj⟩
    | none =>
      simp only [hobj]
      exact .inr (h.insert ⟨ty, trig, amount, transID, temp, u, st⟩ hn rfl rfl)

theorem Same.removeTrigger {m m' : Mem} {s : Rings} {t : TrigID}
    {freed : List (Path × Node TrigID)} (h : Same m s)
    (hrm : m.removeTrigger t = some (m', freed)) :
    ∃ s', step s (.removeTrigger t) = some s' ∧ Same m' s' := by
  obtain ⟨tr, htr, hrest⟩ := Option.bind_eq_some_iff.mp hrm
  dsimp only at hrest
  split_ifs at hrest
  cases hrest
  exact h.unlink htr rfl rfl

end Rings
end TradeC
