import TradeC.Consume

/-! The sweep of one stock ends, as long as the command handlers leave `sTrigger` in the ring.

    `Pc.Sweeps` says what is left to do at each place of the loop: `round` at its head, what comes
    before `sTrigger` in its body, or the whole ring without the trigger in hand where that is
    `sTrigger` itself. It goes down by one with each iteration and up by one with each trigger that
    is added. `Calm` is what the command handlers must not do meanwhile. -/

namespace TradeC.Locks
open Run Threads

/-! ### The two kinds of threads -/

namespace Pc

/-- A place of `trigger_handler`. -/
def ofHandler : Pc → Bool
  | .idle | .command _ | .addLock _ _ | .addTest _ _ | .addRing _ _ _ | .setSlot _ _ => false
  | .finish _ => false
  | _ => true

/-- A place of `command_handler`. -/
def ofCommand : Pc → Bool
  | .remLock _ _ | .remTest _ _ | .remRing _ _ _ | .clear _ _ => true
  | p => !p.ofHandler

/-- In the loop of the sweep. -/
def inSweep : Pc → Bool
  | .lock | .first | .leave | .done | .fault => false
  | p => p.ofHandler

/-- The trigger that it takes out of the ring next. -/
def unlinks : Pc → Option TrigIx
  | .remTest _ t => some t
  | _ => none

/-- The trigger that it puts into the ring next. -/
def inserts : Pc → Option TrigIx
  | .addTest _ n => some n
  | _ => none

/-- About to take the mutex of the stock. -/
def locks : Pc → Bool
  | .lock | .moveLock _ _ | .relock _ | .remLock _ _ | .addLock _ _ => true
  | _ => false

end Pc

section Act
variable {ι : Type*} {s : State ι} {e : Event ι} {p p' : Pc} {op : Op} {t : TrigIx}
  (h : act s e p = some (op, p'))
include h

theorem act_ofHandler (he : e.thread = none) (hp : p.ofHandler) : p'.ofHandler := by
  revert h
  fun_cases act s e p <;> intro h <;> cases h <;> simp_all [Pc.ofHandler]

theorem act_ofCommand (he : e.thread ≠ none) (hp : p.ofCommand) : p'.ofCommand := by
  revert h
  fun_cases act s e p <;> intro h <;> cases h <;> simp_all [Pc.ofCommand, Pc.ofHandler]

theorem act_lockStock (hop : op = .lockStock) : p.locks ∧ ¬ p.owns := by
  revert h
  fun_cases act s e p <;> intro h <;> cases h <;>
    simp_all [Pc.locks, Pc.owns, Pc.holdsStock, Pc.atLoop]

/-- Only a lock of the stock's mutex leads to the ring. -/
theorem act_toRing (hp : p'.owns) : p.owns ∨ op = .lockStock := by
  revert h
  fun_cases act s e p <;> intro h <;> cases h <;>
    simp_all [Pc.owns, Pc.holdsStock, Pc.atLoop]

/-- Only after a failed trylock is a thread still there when it has unlocked it. -/
theorem act_unlocked (hop : op = .unlockStock) (hp : p'.owns) : p.atLoop := by
  revert h
  fun_cases act s e p <;> intro h <;> cases h <;>
    simp_all [Pc.owns, Pc.holdsStock, Pc.atLoop]

theorem act_atLoop (hp : p.atLoop) (hp' : p'.owns) : p'.atLoop := by
  revert h
  fun_cases act s e p <;> intro h <;> cases h <;>
    simp_all [Pc.owns, Pc.holdsStock, Pc.atLoop]

end Act

theorem Pc.not_ofCommand_of_atLoop {p : Pc} (h : p.atLoop) : ¬ p.ofCommand := by
  cases p <;> simp_all [atLoop, ofCommand, ofHandler]

/-! ### The mutex, when a trylock fails -/

/-- What a sweep needs of the command handlers. After a failed trylock it is at the ring without the
    mutex of the stock, and nobody takes the mutex then; nobody takes `sTrigger` out of the ring;
    when `sTrigger` has fired and was alone, nobody adds a trigger before the sweep has seen that the
    ring is empty. -/
structure Calm {ι : Type*} (s : State ι) (e : Event ι) : Prop where
  mutex : e.thread ≠ none → (s.pc none).atLoop → (s.pc e.thread).locks → s.stockBusy ≠ none
  start : e.thread ≠ none → (s.pc none).inSweep → ∀ t ∈ (s.pc e.thread).unlinks, s.sTrigger ≠ some t
  alone : e.thread ≠ none → (s.pc none).inSweep → (s.pc e.thread).inserts ≠ none →
    ¬ (s.sTrigMod = true ∧ s.sTrigger = s.cTrigger)

theorem calm_iff {ι : Type*} (s : State ι) (e : Event ι) : Calm s e ↔
    (e.thread ≠ none → (s.pc none).atLoop → (s.pc e.thread).locks → s.stockBusy ≠ none) ∧
    (e.thread ≠ none → (s.pc none).inSweep →
      ∀ t ∈ (s.pc e.thread).unlinks, s.sTrigger ≠ some t) ∧
    (e.thread ≠ none → (s.pc none).inSweep → (s.pc e.thread).inserts ≠ none →
      ¬ (s.sTrigMod = true ∧ s.sTrigger = s.cTrigger)) :=
  ⟨fun ⟨hm, hs, ha⟩ => ⟨hm, hs, ha⟩, fun ⟨hm, hs, ha⟩ => ⟨hm, hs, ha⟩⟩

instance decCalm {ι : Type*} [DecidableEq ι] (s : State ι) (e : Event ι) : Decidable (Calm s e) :=
  decidable_of_iff' _ (calm_iff s e)

/-- Who is at the ring has the mutex, or is the sweep after a failed trylock. -/
structure Owner {ι : Type*} (s : State ι) : Prop where
  holds : ∀ i, (s.pc i).owns → s.stockBusy = some i ∨
    (i = none ∧ s.stockBusy = none ∧ (s.pc none).atLoop)
  handler : (s.pc none).ofHandler
  command : ∀ i, i ≠ none → (s.pc i).ofCommand

theorem Owner.exclusive {ι : Type*} {s : State ι} (ho : Owner s) : Exclusive s := by
  intro i j hi hj
  rcases ho.holds i hi with hi | ⟨rfl, hi, _⟩
  · rcases ho.holds j hj with hj | ⟨_, hj, _⟩
    · exact Option.some.inj (hi.symm.trans hj)
    · simp [hi] at hj
  · rcases ho.holds j hj with hj | ⟨rfl, _, _⟩
    · simp [hi] at hj
    · rfl

theorem Owner.thread_of_atLoop {ι : Type*} {s : State ι} (ho : Owner s) {i : Option ι}
    (h : (s.pc i).atLoop) : i = none := by
  by_contra hne
  exact Pc.not_ofCommand_of_atLoop h (ho.command _ hne)

section Step
variable {ι : Type*} {s s₁ : State ι} {e : Event ι} {op : Op} {p' : Pc}
  (ho : Owner s) (hact : act s e (s.pc e.thread) = some (op, p'))
include ho hact

/-- The thread that steps. -/
theorem holds_self (hown : p'.owns) : op.stockBusy s e.thread = some e.thread ∨
    (e.thread = none ∧ op.stockBusy s e.thread = none ∧ p'.atLoop) := by
  rcases act_toRing hact hown with hold | rfl
  · cases op with
    | lockStock => exact .inl rfl
    | unlockStock =>
      have hloop := act_unlocked hact rfl hown
      exact .inr ⟨ho.thread_of_atLoop hloop, rfl, act_atLoop hact hloop hown⟩
    | _ =>
      rcases ho.holds _ hold with hbusy | ⟨hth, hbusy, hloop⟩
      · exact .inl hbusy
      · rw [hth] at hact
        exact .inr ⟨hth, hbusy, act_atLoop hact hloop hown⟩
  · exact .inl rfl

variable [DecidableEq ι] (hrun : s.run e.thread op = some s₁)
include hrun

omit [DecidableEq ι] in
/-- Another one at the ring: the stock's mutex is neither taken nor given back. -/
theorem holds_other (hcalm : Calm s e) {j : Option ι} (hj : j ≠ e.thread)
    (hown : (s.pc j).owns) : op.stockBusy s e.thread = s.stockBusy := by
  cases op with
  | lockStock =>
    have hfree := run_lockStock hrun rfl
    rcases ho.holds j hown with hbusy | ⟨rfl, _, hloop⟩
    · simp [hfree] at hbusy
    · exact absurd hfree (hcalm.mutex hj.symm hloop (act_lockStock hact rfl).1)
  | unlockStock => exact absurd (ho.exclusive j e.thread hown (act_unlock hact rfl)) hj
  | _ => rfl

theorem owner_step (hcalm : Calm s e) : Owner (s₁.goto e.thread p') := by
  have hpc : (s₁.goto e.thread p').pc = Function.update s.pc e.thread p' := by
    simp [State.goto, run_pc hrun]
  have hbusy : (s₁.goto e.thread p').stockBusy = op.stockBusy s e.thread :=
    (run_stockBusy hrun :)
  constructor
  case holds =>
    intro i
    rw [hpc, hbusy]
    by_cases hi : i = e.thread
    · subst hi
      rw [Function.update_self]
      intro hown
      rcases holds_self ho hact hown with h | ⟨hth, h, hloop⟩
      · exact .inl h
      · exact .inr ⟨hth, h, by rwa [← hth, Function.update_self]⟩
    · rw [Function.update_of_ne hi]
      intro hown
      rw [holds_other ho hact hrun hcalm hi hown]
      rcases ho.holds i hown with h | ⟨rfl, h, hloop⟩
      · exact .inl h
      · exact .inr ⟨rfl, h, by rwa [Function.update_of_ne hi]⟩
  case handler =>
    rw [hpc]
    by_cases hth : e.thread = none
    · rw [hth, Function.update_self]
      rw [hth] at hact
      exact act_ofHandler hact hth ho.handler
    · rw [Function.update_of_ne (Ne.symm hth)]
      exact ho.handler
  case command =>
    intro i hi
    rw [hpc]
    by_cases hth : i = e.thread
    · subst hth
      rw [Function.update_self]
      exact act_ofCommand hact hi (ho.command _ hi)
    · rw [Function.update_of_ne hth]
      exact ho.command i hi

end Step

theorem owner_init {ι : Type*} [DecidableEq ι] : Owner (init : State ι) where
  holds i h := by rcases init_pc i with hp | hp <;> simp [hp, Pc.owns, Pc.holdsStock, Pc.atLoop] at h
  handler := rfl
  command i hi := by
    cases i with
    | none => exact absurd rfl hi
    | some _ => rfl

/-! ### What a sweep has left -/

/-- After `iters` of at most `room` iterations `hand` is being looked at, `due` still has to be, and
    nothing of this has been examined. -/
structure Left (iters room : ℕ) (seen hand due : List TrigIx) : Prop where
  room : iters + due.length ≤ room
  nodup : (hand ++ due ++ seen).Nodup

section Left
variable {iters room : ℕ} {seen hand hand' due due' : List TrigIx} {t : TrigIx}

theorem Left.mono (h : Left iters room seen hand due) (hh : hand'.Sublist hand)
    (hd : due'.Sublist due) : Left iters room seen hand' due' where
  room := le_trans (Nat.add_le_add_left hd.length_le _) h.room
  nodup := h.nodup.sublist ((hh.append hd).append (List.Sublist.refl _))

theorem Left.grow (h : Left iters room seen hand due) : Left iters (room + 1) seen hand due :=
  ⟨h.room.trans (Nat.le_succ _), h.nodup⟩

theorem Left.add (h : Left iters room seen hand due) (ht : t ∉ hand ++ due ++ seen) :
    Left iters (room + 1) seen hand (due ++ [t]) where
  room := by
    have hroom := h.room
    simp only [List.length_append, List.length_singleton]
    omega
  nodup := by
    have hperm : (hand ++ (due ++ [t]) ++ seen).Perm (t :: (hand ++ due ++ seen)) := by
      have hmid : ((hand ++ due) ++ t :: seen).Perm (t :: ((hand ++ due) ++ seen)) :=
        List.perm_middle
      simpa [List.append_assoc] using hmid
    exact hperm.nodup_iff.mpr (List.nodup_cons.mpr ⟨ht, h.nodup⟩)

/-- An iteration starts. -/
theorem Left.take (h : Left iters room seen [] (t :: due)) : Left (iters + 1) room seen [t] due where
  room := by
    have hroom := h.room
    simp only [List.length_cons] at hroom
    omega
  nodup := h.nodup

theorem Left.examine (h : Left iters room seen [t] due) : Left iters room (t :: seen) [] due where
  room := h.room
  nodup := by
    have hperm : (due ++ t :: seen).Perm (t :: (due ++ seen)) := List.perm_middle
    exact hperm.nodup_iff.mpr h.nodup

end Left

section Places
variable {ι : Type*} (s : State ι) (l : List TrigIx)

/-- What is left of the sweep. -/
abbrev Rest (hand due : List TrigIx) : Prop := Left s.iters (s.started + s.added) s.seen hand due

/-- In the body, with the trigger `t`: the cursor is behind it. -/
def Going (hand : List TrigIx) (t : TrigIx) : Prop :=
  s.sTrigMod = false ∧ s.cTrigger = some t ∧ ∃ st ∈ l, s.sTrigger = some st ∧
    Rest s hand (if st = t then l.erase t else Ring.upTo st l)

/-- `t` was `sTrigger` and has fired; `sTrigger` is its successor, or itself where it was alone. -/
def Fired (t : TrigIx) : Prop :=
  s.sTrigMod = true ∧ s.cTrigger = some t ∧
    ((∃ st ∈ l.erase t, s.sTrigger = some st) ∨ (l.erase t = [] ∧ s.sTrigger = some t)) ∧
    Rest s [] (l.erase t)

/-- An iteration is over in which `sTrigger` has not moved. -/
def Passed : Prop :=
  s.sTrigMod = false ∧ ∃ st ∈ l, s.sTrigger = some st ∧ Rest s [] (Ring.upTo st l)

def Pc.Sweeps : Pc → Prop
  | .fetch => ∃ st ∈ l, s.sTrigger = some st ∧ Rest s [] (Ring.round st l)
  | .advance => s.sTrigMod = false ∧ ∃ st ∈ l, s.sTrigger = some st ∧
      ∃ c, s.cTrigger = some c ∧ Rest s [c] (Ring.round st l).tail
  | .user => ∃ t, Going s l [t] t
  | .tryLock _ t | .gotUnlock _ t | .examine _ t => Going s l [t] t
  | .pay _ t | .moveLock _ t | .move _ t => Going s l [] t
  | .moveUnlock _ t | .remLock _ t | .remTest _ t | .remRing _ t _ | .clear _ t =>
    Fired s l t ∨ (Passed s l ∧ s.sTrigger ≠ some t)
  | .failUnlock => Passed s l
  | .relock _ | .free _ | .check => (∃ t, s.freed t ∧ Fired s l t) ∨ Passed s l
  | _ => Rest s [] []

end Places

/-! ### Steps of the command handlers -/

/-- The variables of the sweep stay. -/
structure Aside {ι : Type*} (s s₁ : State ι) : Prop where
  sTrigger : s₁.sTrigger = s.sTrigger
  sTrigMod : s₁.sTrigMod = s.sTrigMod
  cTrigger : s₁.cTrigger = s.cTrigger
  iters : s₁.iters = s.iters
  seen : s₁.seen = s.seen
  started : s₁.started = s.started

section Aside
variable {ι : Type*} {s s₁ : State ι} {l hand due : List TrigIx} {n t : TrigIx} (ha : Aside s s₁)
include ha

theorem Rest.same (hadded : s₁.added = s.added) (h : Rest s hand due) : Rest s₁ hand due := by
  rwa [Rest, ha.iters, ha.started, ha.seen, hadded]

theorem Rest.grow (hadded : s₁.added = s.added + 1) (h : Rest s hand due) : Rest s₁ hand due := by
  rw [Rest, ha.iters, ha.started, ha.seen, hadded]
  exact Left.grow h

theorem Rest.add (hadded : s₁.added = s.added + 1) (h : Rest s hand due)
    (hn : n ∉ hand ++ due ++ s.seen) : Rest s₁ hand (due ++ [n]) := by
  rw [Rest, ha.iters, ha.started, ha.seen, hadded]
  exact Left.add h hn

/-! A new trigger comes in before the cursor: at the end of what is due only when this is the whole
    ring. -/

theorem Going.link (hadded : s₁.added = s.added + 1) (h : Going s l hand t) (ht : t ∈ l)
    (hn : n ∉ hand ++ l ++ s.seen) : Going s₁ (l ++ [n]) hand t := by
  obtain ⟨hmod, hc, st, hst, hstart, hrest⟩ := h
  refine ⟨ha.sTrigMod.trans hmod, ha.cTrigger.trans hc, st, List.mem_append_left _ hst,
    ha.sTrigger.trans hstart, ?_⟩
  by_cases heq : st = t
  · rw [if_pos heq] at hrest ⊢
    rw [List.erase_append_left _ ht]
    refine Rest.add ha hadded hrest fun hmem => hn ?_
    simp only [List.mem_append] at hmem ⊢
    exact hmem.imp_left (Or.imp_right List.mem_of_mem_erase)
  · rw [if_neg heq] at hrest ⊢
    rw [Ring.upTo_append hst]
    exact Rest.grow ha hadded hrest

theorem Passed.link (hadded : s₁.added = s.added + 1) (h : Passed s l) : Passed s₁ (l ++ [n]) := by
  obtain ⟨hmod, st, hst, hstart, hrest⟩ := h
  refine ⟨ha.sTrigMod.trans hmod, st, List.mem_append_left _ hst, ha.sTrigger.trans hstart, ?_⟩
  rw [Ring.upTo_append hst]
  exact Rest.grow ha hadded hrest

theorem Fired.link (hadded : s₁.added = s.added + 1) (h : Fired s l t) (hne : n ≠ t)
    (halone : ¬ (s.sTrigMod = true ∧ s.sTrigger = s.cTrigger)) (hn : n ∉ l ++ s.seen) :
    Fired s₁ (l ++ [n]) t := by
  obtain ⟨hmod, hc, hstart, hrest⟩ := h
  have herase : (l ++ [n]).erase t = l.erase t ++ [n] := by
    by_cases ht : t ∈ l
    · exact List.erase_append_left _ ht
    · rw [List.erase_append_right _ ht, List.erase_of_not_mem ht,
        List.erase_of_not_mem (by simpa using Ne.symm hne)]
  rw [Fired, herase]
  refine ⟨ha.sTrigMod.trans hmod, ha.cTrigger.trans hc, .inl ?_, ?_⟩
  · rcases hstart with ⟨st, hst, hstart⟩ | ⟨_, hstart⟩
    · exact ⟨st, List.mem_append_left _ hst, ha.sTrigger.trans hstart⟩
    · exact absurd ⟨hmod, hstart.trans hc.symm⟩ halone
  · refine Rest.add ha hadded hrest fun hmem => hn ?_
    simp only [List.nil_append, List.mem_append] at hmem ⊢
    exact hmem.imp_left List.mem_of_mem_erase

/-! A trigger that is taken out is not `sTrigger`, and what is due gets no longer. -/

variable (hadded : s₁.added = s.added) (hn : s.sTrigger ≠ some n)
include hadded hn

omit ha hadded in
theorem start_erase {st : TrigIx} (hst : st ∈ l) (hstart : s.sTrigger = some st) :
    n ≠ st ∧ st ∈ l.erase n := by
  have hne : st ≠ n := fun h => hn (h ▸ hstart)
  exact ⟨hne.symm, (List.mem_erase_of_ne hne).mpr hst⟩

theorem Going.unlink (h : Going s l hand t) : Going s₁ (l.erase n) hand t := by
  obtain ⟨hmod, hc, st, hst, hstart, hrest⟩ := h
  obtain ⟨hne, hmem⟩ := start_erase hn hst hstart
  refine ⟨ha.sTrigMod.trans hmod, ha.cTrigger.trans hc, st, hmem, ha.sTrigger.trans hstart, ?_⟩
  refine Left.mono (Rest.same ha hadded hrest) (List.Sublist.refl _) ?_
  by_cases heq : st = t
  · rw [if_pos heq, if_pos heq]
    exact List.erase_sublist.erase t
  · rw [if_neg heq, if_neg heq]
    exact Ring.upTo_erase_sublist hne l

theorem Passed.unlink (h : Passed s l) : Passed s₁ (l.erase n) := by
  obtain ⟨hmod, st, hst, hstart, hrest⟩ := h
  obtain ⟨hne, hmem⟩ := start_erase hn hst hstart
  refine ⟨ha.sTrigMod.trans hmod, st, hmem, ha.sTrigger.trans hstart, ?_⟩
  exact Left.mono (Rest.same ha hadded hrest) (List.Sublist.refl _) (Ring.upTo_erase_sublist hne l)

theorem Fired.unlink (h : Fired s l t) : Fired s₁ (l.erase n) t := by
  obtain ⟨hmod, hc, hstart, hrest⟩ := h
  rw [Fired, List.erase_comm]
  refine ⟨ha.sTrigMod.trans hmod, ha.cTrigger.trans hc, ?_, ?_⟩
  · rcases hstart with ⟨st, hst, hstart⟩ | ⟨hnil, hstart⟩
    · exact .inl ⟨st, (start_erase hn hst hstart).2, ha.sTrigger.trans hstart⟩
    · exact .inr ⟨by rw [hnil]; rfl, ha.sTrigger.trans hstart⟩
  · exact Left.mono (Rest.same ha hadded hrest) (List.Sublist.refl _) List.erase_sublist

end Aside

/-- An operation on the variables of the sweep. -/
def Op.ofSweep : Op → Bool
  | .start _ | .fetch | .advance | .examine _ | .fire _ | .move => true
  | _ => false

section Act
variable {ι : Type*} {s : State ι} {e : Event ι} {p p' : Pc} {op : Op} {n : TrigIx}
  (h : act s e p = some (op, p'))
include h

theorem act_ofSweep (hop : op.ofSweep) : ¬ p.ofCommand := by
  revert h
  fun_cases act s e p <;> intro h <;> cases h <;>
    simp_all [Op.ofSweep, Pc.ofCommand, Pc.ofHandler]

theorem act_unborn (hadds : p'.adds = some n) (hlacks : p'.lacks = some n) :
    (p.adds = some n ∧ p.lacks = some n) ∨ Makes s p op n := by
  revert h
  fun_cases act s e p <;> intro h <;> cases h <;> simp_all [Pc.adds, Pc.lacks, Makes]

theorem act_inserts (hop : op = .link n) : p.inserts ≠ none := by
  revert h
  fun_cases act s e p <;> intro h <;> cases h <;> simp_all [Pc.inserts]

theorem act_unlinks (hop : op = .unlink n) : p.unlinks = some n := by
  revert h
  fun_cases act s e p <;> intro h <;> cases h <;> simp_all [Pc.unlinks]

end Act

section Run
variable {ι : Type*} {s s₁ : State ι} {i : Option ι} {op : Op} (h : s.run i op = some s₁)
include h

theorem run_aside (hop : op.ofSweep = false) : Aside s s₁ := by
  revert h
  fun_cases State.run s i op <;> intro h <;> cases h <;>
    first | exact ⟨rfl, rfl, rfl, rfl, rfl, rfl⟩ | cases hop

theorem run_link {n : TrigIx} (hop : op = .link n) : s₁.added = s.added + 1 := by
  subst hop
  cases h
  rfl

theorem run_added (hop : op.ofSweep = false) (hlink : ∀ n, op ≠ .link n) : s₁.added = s.added := by
  revert h
  fun_cases State.run s i op <;> intro h <;> cases h <;>
    first | rfl | exact absurd rfl (hlink _) | cases hop

end Run

/-- Every place of the sweep, with what holds there of the triggers that have been examined. -/
structure Sweeping {ι : Type*} (s : State ι) (l : List TrigIx) : Prop where
  old : ∀ t ∈ s.seen, t < s.fresh
  unborn : ∀ i t, (s.pc i).adds = some t → (s.pc i).lacks = some t → t ∉ s.seen
  sweeps : (s.pc none).Sweeps s l

section Step
variable {ι : Type*} {s s₁ : State ι} {l : List TrigIx} {e : Event ι} {op : Op}
  {p' : Pc} (hi : Inv s l) (ho : Owner s) (hsw : Sweeping s l)
  (hact : act s e (s.pc e.thread) = some (op, p')) (hrun : s.run e.thread op = some s₁)
  (hcalm : Calm s e) (hth : e.thread ≠ none)
include hi ho hsw hact hrun hcalm hth

theorem sweeps_link {n : TrigIx} (hop : op = .link n) : (s.pc none).Sweeps s₁ (l ++ [n]) := by
  obtain ⟨hadds, hlacks, _, howns⟩ := act_link hact hop
  have ha : Aside s s₁ := run_aside hrun (by rw [hop]; rfl)
  have hadded := run_link hrun hop
  have hnl : n ∉ l := hi.lacks _ _ hlacks
  have hnseen : n ∉ s.seen := hsw.unborn _ _ hadds hlacks
  have haway : ¬ (s.pc none).owns := fun h => hth (ho.exclusive _ _ howns h)
  have hother : ∀ t, (s.pc none).deals = some t → n ≠ t := by
    rintro t ht rfl
    exact hth (hi.same_thread (Pc.deals_of_adds hadds) ht rfl)
  have halone := hcalm.alone hth
  have hhas := hi.has none
  have hhandler := ho.handler
  have hsweeps := hsw.sweeps
  revert haway hother halone hhas hhandler hsweeps
  cases s.pc none with
  | lock => exact fun _ _ _ _ _ hrest => Rest.grow ha hadded hrest
  | examine u t =>
    intro _ hother _ hhas _ hgoing
    have hne : n ≠ t := hother t rfl
    exact Going.link ha hadded hgoing (hhas t rfl) (by simp [hne, hnl, hnseen])
  | pay u t =>
    intro _ _ _ hhas _ hgoing
    exact Going.link ha hadded hgoing (hhas t rfl) (by simp [hnl, hnseen])
  | moveLock u t =>
    intro _ _ _ hhas _ hgoing
    exact Going.link ha hadded hgoing (hhas t rfl) (by simp [hnl, hnseen])
  | remLock u t =>
    rintro _ hother halone _ _ (hfired | ⟨hpassed, hne⟩)
    · exact .inl (Fired.link ha hadded hfired (hother t rfl) (halone rfl (act_inserts hact hop))
        (by simp [hnl, hnseen]))
    · exact .inr ⟨Passed.link ha hadded hpassed, ha.sTrigger.symm ▸ hne⟩
  | clear u t =>
    rintro _ hother halone _ _ (hfired | ⟨hpassed, hne⟩)
    · exact .inl (Fired.link ha hadded hfired (hother t rfl) (halone rfl (act_inserts hact hop))
        (by simp [hnl, hnseen]))
    · exact .inr ⟨Passed.link ha hadded hpassed, ha.sTrigger.symm ▸ hne⟩
  | relock u =>
    rintro _ _ halone _ _ (⟨t, hfreed, hfired⟩ | hpassed)
    · have hne : n ≠ t := by
        rintro rfl
        simp [(hi.deals _ _ (Pc.deals_of_adds hadds)).2.1] at hfreed
      exact .inl ⟨t, (run_freed hrun t).mpr (.inl hfreed), Fired.link ha hadded hfired hne
        (halone rfl (act_inserts hact hop)) (by simp [hnl, hnseen])⟩
    · exact .inr (Passed.link ha hadded hpassed)
  | _ => simp [Pc.owns, Pc.holdsStock, Pc.atLoop, Pc.ofHandler]

omit hi in
theorem sweeps_unlink {n : TrigIx} (hop : op = .unlink n) : (s.pc none).Sweeps s₁ (l.erase n) := by
  have howns := (act_unlink hact hop).2.2.2
  have ha : Aside s s₁ := run_aside hrun (by rw [hop]; rfl)
  have hadded : s₁.added = s.added := run_added hrun (by rw [hop]; rfl) (by simp [hop])
  have haway : ¬ (s.pc none).owns := fun h => hth (ho.exclusive _ _ howns h)
  have hstart := fun hin => hcalm.start hth hin n (act_unlinks hact hop)
  have hhandler := ho.handler
  have hsweeps := hsw.sweeps
  revert haway hstart hhandler hsweeps
  cases s.pc none with
  | lock => exact fun _ _ _ hrest => Rest.same ha hadded hrest
  | examine u t => exact fun _ hstart _ hgoing => Going.unlink ha hadded (hstart rfl) hgoing
  | pay u t => exact fun _ hstart _ hgoing => Going.unlink ha hadded (hstart rfl) hgoing
  | moveLock u t => exact fun _ hstart _ hgoing => Going.unlink ha hadded (hstart rfl) hgoing
  | remLock u t =>
    rintro _ hstart _ (hfired | ⟨hpassed, hne⟩)
    · exact .inl (Fired.unlink ha hadded (hstart rfl) hfired)
    · exact .inr ⟨Passed.unlink ha hadded (hstart rfl) hpassed, ha.sTrigger.symm ▸ hne⟩
  | clear u t =>
    rintro _ hstart _ (hfired | ⟨hpassed, hne⟩)
    · exact .inl (Fired.unlink ha hadded (hstart rfl) hfired)
    · exact .inr ⟨Passed.unlink ha hadded (hstart rfl) hpassed, ha.sTrigger.symm ▸ hne⟩
  | relock u =>
    rintro _ hstart _ (⟨t, hfreed, hfired⟩ | hpassed)
    · exact .inl ⟨t, (run_freed hrun t).mpr (.inl hfreed),
        Fired.unlink ha hadded (hstart rfl) hfired⟩
    · exact .inr (Passed.unlink ha hadded (hstart rfl) hpassed)
  | _ => simp [Pc.owns, Pc.holdsStock, Pc.atLoop, Pc.ofHandler]

end Step

/-- What a place of the sweep says is kept where the variables and the ring stay. -/
theorem Pc.Sweeps.frame {ι : Type*} {s s₁ : State ι} {l : List TrigIx} {p : Pc}
    (h : p.Sweeps s l) (ha : Aside s s₁) (hadded : s₁.added = s.added)
    (hfreed : ∀ t, s.freed t → s₁.freed t) : p.Sweeps s₁ l := by
  have hrest : ∀ hand due, Rest s₁ hand due = Rest s hand due := fun hand due => by
    rw [Rest, Rest, ha.iters, ha.started, ha.seen, hadded]
  have hgoing : ∀ hand t, Going s₁ l hand t = Going s l hand t := fun hand t => by
    simp only [Going, ha.sTrigger, ha.sTrigMod, ha.cTrigger, hrest]
  have hpassed : Passed s₁ l = Passed s l := by
    simp only [Passed, ha.sTrigger, ha.sTrigMod, hrest]
  have hfired : ∀ t, Fired s₁ l t = Fired s l t := fun t => by
    simp only [Fired, ha.sTrigger, ha.sTrigMod, ha.cTrigger, hrest]
  revert h
  cases p <;> simp only [Pc.Sweeps, ha.sTrigger, ha.sTrigMod, ha.cTrigger, hrest, hgoing, hpassed,
    hfired, imp_self]
  all_goals exact Or.imp_left fun ⟨t, hf, h⟩ => ⟨t, hfreed t hf, h⟩

/-- A step of a command handler. -/
theorem sweeps_other {ι : Type*} {s s₁ : State ι} {l : List TrigIx} {e : Event ι} {op : Op}
    {p' : Pc} (hi : Inv s l) (ho : Owner s) (hsw : Sweeping s l)
    (hact : act s e (s.pc e.thread) = some (op, p')) (hrun : s.run e.thread op = some s₁)
    (hcalm : Calm s e) (hth : e.thread ≠ none) : (s.pc none).Sweeps s₁ (op.list l) := by
  have hop : op.ofSweep = false := by
    rw [← Bool.not_eq_true]
    exact fun h => act_ofSweep hact h (ho.command _ hth)
  have hframe : (∀ n, op ≠ .link n) → (s.pc none).Sweeps s₁ l := fun hlink =>
    hsw.sweeps.frame (run_aside hrun hop) (run_added hrun hop hlink)
      fun t ht => (run_freed hrun t).mpr (.inl ht)
  cases op with
  | link n => exact sweeps_link hi ho hsw hact hrun hcalm hth rfl
  | unlink n => exact sweeps_unlink ho hsw hact hrun hcalm hth rfl
  | advance => cases hop
  | _ => exact hframe (by simp)

/-! ### Steps of the sweep -/

section Sweep
variable {ι : Type*} {s : State ι} {l : List TrigIx} {hand : List TrigIx} {c t : TrigIx}

theorem Going.passed (h : Going s l hand t) : Passed s l := by
  obtain ⟨hmod, _, st, hst, hstart, hrest⟩ := h
  refine ⟨hmod, st, hst, hstart, Left.mono hrest (List.nil_sublist _) ?_⟩
  split_ifs with heq
  · exact heq ▸ Ring.upTo_sublist_erase
  · exact List.Sublist.refl _

/-- At its start the sweep has the whole ring before it. -/
theorem starts (hl : ∀ t ∈ l, t < s.fresh) (hshows : s.ring.Shows l) :
    Left 0 ((s.ring.toList s.fresh).length + 0) [] [] l where
  room := by
    have hsub : l ⊆ List.range s.fresh := fun t ht => List.mem_range.mpr (hl t ht)
    have hlen : l.length ≤ s.fresh := by
      simpa using (hshows.nodup.subperm hsub).length_le
    rw [Ring.toList_of_shows hshows hlen, Nat.zero_add]
    exact le_rfl
  nodup := by simpa using hshows.nodup

/-- The cursor moves on from the trigger that comes into the hand. -/
theorem going_advance (h : Pc.advance.Sweeps s (c :: l)) (hc : s.cTrigger = some c)
    (hnd : (c :: l).Nodup) : Going s (l ++ [c]) [c] c := by
  obtain ⟨hmod, st, hst, hstart, c', hc', hrest⟩ := h
  obtain rfl : c = c' := Option.some.inj (hc.symm.trans hc')
  have hcl : c ∉ l := (List.nodup_cons.mp hnd).1
  refine ⟨hmod, hc, st, by simpa [or_comm] using hst, hstart, ?_⟩
  rw [Ring.round_cons, List.tail_cons] at hrest
  by_cases heq : st = c
  · rw [if_pos heq.symm] at hrest
    rwa [if_pos heq, List.erase_append_right _ hcl, List.erase_cons_head, List.append_nil]
  · rw [if_neg (Ne.symm heq)] at hrest
    rwa [if_neg heq, Ring.upTo_append ((List.mem_cons.mp hst).resolve_left heq)]

/-- `sTrigger` moves on from the trigger that has fired. -/
theorem fired_move (h : Going s l [] t) (hstart : s.sTrigger = s.cTrigger)
    (hshows : s.ring.Shows l) (ht : t ∈ l) :
    Fired { s with sTrigger := s.sTrigger.map s.ring.next, sTrigMod := true } l t := by
  obtain ⟨_, hc, st, hst, hst', hrest⟩ := h
  obtain rfl : st = t := Option.some.inj (hst'.symm.trans (hstart.trans hc))
  rw [if_pos rfl] at hrest
  refine ⟨rfl, hc, ?_, hrest⟩
  by_cases hone : l = [st]
  · right
    have hnext := hshows.next_mem ht
    rw [hone, List.mem_singleton] at hnext
    exact ⟨by simp [hone], by simp [hst', hnext]⟩
  · left
    refine ⟨s.ring.next st, ?_, by simp [hst']⟩
    exact (List.mem_erase_of_ne (hshows.next_ne ht hone)).mpr (hshows.next_mem ht)

/-- The test of the loop. -/
theorem sweeps_check (h : Pc.check.Sweeps s l) (hl : ∀ t ∈ l, s.freed t = false)
    (hshows : s.ring.Shows l) (hcurr : s.ring.curr ≠ none)
    (htest : s.sTrigger ≠ s.ring.curr ∨ s.sTrigMod = true) : Pc.fetch.Sweeps s l := by
  rcases h with ⟨t, hfreed, hmod, _, hstart, hrest⟩ | ⟨hmod, st, hst, hstart, hrest⟩
  · have ht : t ∉ l := fun ht => by simp [hl t ht] at hfreed
    rw [List.erase_of_not_mem ht] at hstart hrest
    rcases hstart with ⟨st, hst, hstart⟩ | ⟨rfl, _⟩
    · exact ⟨st, hst, hstart, Left.mono hrest (List.Sublist.refl _) Ring.round_sublist⟩
    · exact absurd hshows.curr hcurr
  · refine ⟨st, hst, hstart, ?_⟩
    have hne : s.sTrigger ≠ s.ring.curr := htest.resolve_right (by simp [hmod])
    rw [hshows.curr, hstart] at hne
    rwa [Ring.round, if_neg (Ne.symm hne)]

end Sweep

/-- A step of `trigger_handler`. -/
theorem sweeps_self {ι : Type*} {s s₁ : State ι} {l : List TrigIx} {e : Event ι} {op : Op}
    {p' : Pc} (hi : Inv s l) (ho : Owner s) (hsw : Sweeping s l)
    (hact : act s e (s.pc e.thread) = some (op, p')) (hrun : s.run e.thread op = some s₁)
    (hth : e.thread = none) : p'.Sweeps s₁ (op.list l) := by
  have hshows := hi.shows_of_owns ho.exclusive (i := e.thread)
  have hloop := hi.loop e.thread
  have hhas := hi.has e.thread
  have hhandler := ho.handler
  have hsweeps := hsw.sweeps
  have hlt : ∀ t ∈ l, t < s.fresh := fun t ht => (hi.linked t ht).1
  have hfreed : ∀ t ∈ l, s.freed t = false := fun t ht => (hi.linked t ht).2
  have hframe : ∀ (o : Op) (q : Pc), s.run e.thread o = some s₁ → o.ofSweep = false →
      (∀ n, o ≠ .link n) → q.Sweeps s l → q.Sweeps s₁ l := fun o q hrun hop hlink h =>
    h.frame (run_aside hrun hop) (run_added hrun hop hlink)
      fun t ht => (run_freed hrun t).mpr (.inl ht)
  rw [← hth] at hhandler hsweeps
  revert hact hrun hshows hloop hhas hhandler hsweeps
  fun_cases act s e (s.pc e.thread) <;>
    (intro hact hrun hshows hloop hhas hhandler hsweeps; cases hact) <;>
    -- the places that only pass on what they have, and those of a command handler
    try first
      | (cases hhandler; done)
      | exact hframe _ _ hrun rfl (by simp) hsweeps
  case case2 =>
    cases hrun
    exact ⟨Nat.zero_le _, List.nodup_nil⟩
  case case3 hcurr =>
    cases hrun
    have hl := hshows rfl rfl
    obtain ⟨c, hc⟩ := Option.ne_none_iff_exists'.mp (not_or.mp hcurr).1
    have hhead : l.head? = some c := hl.curr.symm.trans hc
    have hround : Ring.round c l = l := if_pos hhead
    refine ⟨c, List.mem_of_mem_head? hhead, hc, ?_⟩
    change Rest _ [] (Ring.round c l)
    rw [hround]
    exact starts hlt hl
  case case5 =>
    cases hrun
    have hl := hshows rfl rfl
    obtain ⟨st, hst, hstart, hrest⟩ := hsweeps
    cases l with
    | nil => exact absurd hl.curr hloop
    | cons c l =>
      rw [Ring.round_cons] at hrest
      refine ⟨rfl, st, hst, hstart, c, hl.curr, ?_⟩
      change Rest _ [c] (Ring.round st (c :: l)).tail
      rw [Ring.round_cons]
      exact Left.take hrest
  case case6 hcurr => exact absurd hcurr hloop.2
  case case7 c hcurr =>
    cases hrun
    have hl := hshows rfl rfl
    cases l with
    | nil => exact absurd hl.curr hloop.2
    | cons c l => exact ⟨c, going_advance hsweeps (hloop.1.trans hl.curr) hl.nodup⟩
  case case8 hnone =>
    obtain ⟨t, _, hsome⟩ := hloop
    simp [hnone] at hsome
  case case9 t hsome =>
    obtain ⟨t', hgoing⟩ := hsweeps
    obtain rfl : t' = t := Option.some.inj (hgoing.2.1.symm.trans hsome)
    exact hframe _ (.tryLock _ _) hrun rfl (by simp) hgoing
  case case11 => exact hframe _ .failUnlock hrun rfl (by simp) (Going.passed hsweeps)
  case case12 => exact hframe _ .check hrun rfl (by simp) (.inr hsweeps)
  case case14 =>
    cases hrun
    obtain ⟨hmod, hc, st, hst, hstart, hrest⟩ := hsweeps
    exact ⟨hmod, hc, st, hst, hstart, Left.examine hrest⟩
  case case15 =>
    cases hrun
    obtain ⟨hmod, hc, st, hst, hstart, hrest⟩ := hsweeps
    exact .inr (Going.passed ⟨hmod, hc, st, hst, hstart, Left.examine hrest⟩)
  case case16 =>
    cases hrun
    exact hsweeps
  case case18 u t =>
    have hl := hshows rfl rfl
    rw [State.run] at hrun
    split_ifs at hrun with hstart
    · cases hrun
      exact .inl (fired_move hsweeps hstart hl (hhas _ rfl))
    · cases hrun
      exact .inr ⟨Going.passed hsweeps, fun h => hstart (h.trans hsweeps.2.1.symm)⟩
  case case22 htest =>
    exact hframe _ .fetch hrun rfl (by simp)
      (sweeps_check hsweeps hfreed (hshows rfl rfl) htest.1 htest.2)
  case case23 =>
    refine hframe _ .done hrun rfl (by simp) ?_
    rcases hsweeps with ⟨t, _, _, _, _, hrest⟩ | ⟨_, st, _, _, hrest⟩
    · exact Left.mono hrest (List.Sublist.refl _) (List.nil_sublist _)
    · exact Left.mono hrest (List.Sublist.refl _) (List.nil_sublist _)
  case case26 u t =>
    have ha : Aside s s₁ := run_aside hrun rfl
    have hadded : s₁.added = s.added := run_added hrun rfl (by simp)
    rcases hsweeps with hfired | ⟨hpassed, hne⟩
    · left
      obtain ⟨hmod, hc, hstart, hrest⟩ := hfired
      have herase : (l.erase t).erase t = l.erase t :=
        List.erase_of_not_mem hi.nodup.not_mem_erase
      rw [Op.list, Fired, herase, ha.sTrigMod, ha.cTrigger, ha.sTrigger]
      exact ⟨hmod, hc, hstart, Rest.same ha hadded hrest⟩
    · exact .inr ⟨Passed.unlink ha hadded hne hpassed, ha.sTrigger.symm ▸ hne⟩
  case case29 u t _ =>
    have hnew : (Pc.clear u t).Sweeps s₁ l := hframe _ _ hrun rfl (by simp) hsweeps
    rcases hnew with hfired | ⟨hpassed, _⟩
    · exact .inl ⟨t, (run_freed hrun t).mpr (.inr rfl), hfired⟩
    · exact .inr hpassed
  case case30 hne => exact absurd hth hne

theorem run_seen {ι : Type*} {s s₁ : State ι} {i : Option ι} {op : Op} {t : TrigIx}
    (h : s.run i op = some s₁) (ht : t ∈ s₁.seen) : t ∈ s.seen ∨ op = .examine t := by
  revert h
  fun_cases State.run s i op <;> intro h <;> cases h <;>
    first | exact .inl ht | (simp at ht; done) | skip
  rcases List.mem_cons.mp ht with rfl | hold
  · exact .inr rfl
  · exact .inl hold

section Step
variable {ι : Type*} [DecidableEq ι] {s s₁ : State ι} {l : List TrigIx} {e : Event ι} {op : Op}
  {p' : Pc}

theorem sweeping_step (hi : Inv s l) (ho : Owner s) (hsw : Sweeping s l)
    (hact : act s e (s.pc e.thread) = some (op, p')) (hrun : s.run e.thread op = some s₁)
    (hcalm : Calm s e) : Sweeping (s₁.goto e.thread p') (op.list l) := by
  have hpc : (s₁.goto e.thread p').pc = Function.update s.pc e.thread p' := by
    simp [State.goto, run_pc hrun]
  have hle : s.fresh ≤ s₁.fresh := by
    rw [run_fresh hrun]
    cases op <;> simp [Op.fresh]
  have hseen : ∀ t ∈ s₁.seen, t ∈ s.seen ∨ ((s.pc e.thread).has = some t ∧ op = .examine t) := by
    intro t ht
    rcases run_seen hrun ht with hold | hop
    · exact .inl hold
    · exact .inr ⟨act_examine hact (.inl hop), hop⟩
  constructor
  case old =>
    intro t ht
    rcases hseen t ht with hold | ⟨hhas, _⟩
    · exact (hsw.old t hold).trans_le hle
    · exact (hi.deals _ _ (Pc.deals_of_has hhas)).1.trans_le hle
  case unborn =>
    intro i t hadds hlacks ht
    rw [hpc] at hadds hlacks
    have hfresh : t ∉ s.seen ∧ t ∉ l := by
      have hold : ∀ j, (s.pc j).adds = some t → (s.pc j).lacks = some t → t ∉ s.seen ∧ t ∉ l :=
        fun j hadds hlacks => ⟨hsw.unborn j t hadds hlacks, hi.lacks j t hlacks⟩
      by_cases hth : i = e.thread
      · rw [hth, Function.update_self] at hadds hlacks
        rcases act_unborn hact hadds hlacks with ⟨hadds, hlacks⟩ | ⟨rfl, _⟩
        · exact hold _ hadds hlacks
        · exact ⟨fun h => lt_irrefl _ (hsw.old _ h), fun h => lt_irrefl _ (hi.linked _ h).1⟩
      · rw [Function.update_of_ne hth] at hadds hlacks
        exact hold i hadds hlacks
    rcases hseen t ht with hold | ⟨hhas, _⟩
    · exact hfresh.1 hold
    · exact hfresh.2 (hi.has _ _ hhas)
  case sweeps =>
    have hnew : (Function.update s.pc e.thread p' none).Sweeps s₁ (op.list l) := by
      by_cases hth : e.thread = none
      · rw [hth, Function.update_self]
        exact sweeps_self hi ho hsw hact hrun hth
      · rw [Function.update_of_ne (Ne.symm hth)]
        exact sweeps_other hi ho hsw hact hrun hcalm hth
    rw [hpc]
    exact hnew.frame ⟨rfl, rfl, rfl, rfl, rfl, rfl⟩ rfl fun _ => id

/-- All invariants, along a run. -/
theorem exec_sweeping {es : List (Event ι)} (hal : Along step Calm init es)
    (hex : exec step init es = some s) : Owner s ∧ ∃ l, Inv s l ∧ Sweeping s l := by
  have hstep : ∀ (s : State ι) e s', (Owner s ∧ ∃ l, Inv s l ∧ Sweeping s l) → Calm s e →
      step s e = some s' → Owner s' ∧ ∃ l, Inv s' l ∧ Sweeping s' l := by
    rintro s e s' ⟨ho, l, hi, hsw⟩ hcalm hs
    obtain ⟨⟨op, p'⟩, hact, hs⟩ := Option.bind_eq_some_iff.mp hs
    obtain ⟨s₁, hrun, rfl⟩ := Option.map_eq_some_iff.mp hs
    exact ⟨owner_step ho hact hrun hcalm, _, inv_step hi ho.exclusive hact hrun,
      sweeping_step hi ho hsw hact hrun hcalm⟩
  have hinit : Sweeping (init : State ι) [] :=
    ⟨fun t ht => by simp [init] at ht, fun i t _ _ ht => by simp [init] at ht,
      ⟨Nat.zero_le _, List.nodup_nil⟩⟩
  exact exec_inv_along hstep es init s ⟨owner_init, [], inv_init, hinit⟩ hal hex

end Step

theorem Pc.Sweeps.rest {ι : Type*} {s : State ι} {l : List TrigIx} {p : Pc} (h : p.Sweeps s l) :
    Rest s [] [] := by
  have hmono : ∀ {hand due}, Rest s hand due → Rest s [] [] := fun h =>
    Left.mono h (List.nil_sublist _) (List.nil_sublist _)
  have hgoing : ∀ {hand t}, Going s l hand t → Rest s [] [] := by
    rintro _ _ ⟨_, _, _, _, _, hrest⟩
    exact hmono hrest
  have hpassed : Passed s l → Rest s [] [] := by
    rintro ⟨_, _, _, _, hrest⟩
    exact hmono hrest
  have hfired : ∀ {t}, Fired s l t → Rest s [] [] := by
    rintro _ ⟨_, _, _, hrest⟩
    exact hmono hrest
  revert h
  cases p with
  | fetch =>
    rintro ⟨_, _, _, hrest⟩
    exact hmono hrest
  | advance =>
    rintro ⟨_, _, _, _, _, _, hrest⟩
    exact hmono hrest
  | user =>
    rintro ⟨_, h⟩
    exact hgoing h
  | tryLock | gotUnlock | examine | pay | moveLock | move => exact hgoing
  | moveUnlock | remLock | remTest | remRing | clear =>
    rintro (h | ⟨h, _⟩)
    · exact hfired h
    · exact hpassed h
  | failUnlock => exact hpassed
  | relock | free | check =>
    rintro (⟨_, _, h⟩ | h)
    · exact hfired h
    · exact hpassed h
  | _ => exact id

/-! ### An iteration has no loop of its own -/

/-- The steps that are left of an iteration. -/
def Pc.rank : Pc → ℕ
  | .advance => 19
  | .user => 18
  | .tryLock _ _ => 17
  | .gotUnlock _ _ => 16
  | .examine _ _ => 15
  | .pay _ _ => 14
  | .moveLock _ _ => 13
  | .move _ _ => 12
  | .moveUnlock _ _ => 11
  | .remLock _ _ => 10
  | .remTest _ _ => 9
  | .remRing _ _ todo => 5 + todo.length
  | .clear _ _ => 4
  | .relock _ => 3
  | .free _ => 2
  | .failUnlock => 2
  | .check => 1
  | _ => 0

/-- The iterations that an operation starts. -/
def Op.turns : Op → ℕ
  | .fetch => 1
  | _ => 0

theorem length_unlinkStmts (r : Ring TrigIx) (t : TrigIx) : (r.unlinkStmts t).length ≤ 3 := by
  rw [Ring.unlinkStmts]
  split_ifs <;> simp

section Rank
variable {ι : Type*} {s s₁ : State ι} {e : Event ι} {op : Op} {p p' : Pc}

theorem act_rank (h : act s e p = some (op, p')) (hp : p.inSweep) :
    p'.rank + 1 ≤ p.rank + 20 * op.turns ∧ ∀ price, op ≠ .start price := by
  revert h
  fun_cases act s e p <;> intro h <;> cases h
  case case26 u t =>
    have hlen := length_unlinkStmts s.ring t
    simp only [Pc.rank, Op.turns]
    exact ⟨by omega, by simp⟩
  case case27 u t st todo =>
    simp only [Pc.rank, Op.turns, List.length_cons]
    exact ⟨by omega, by simp⟩
  all_goals simp_all [Pc.inSweep, Pc.ofHandler, Pc.rank, Op.turns]

theorem run_iters {i : Option ι} (h : s.run i op = some s₁) (hop : ∀ price, op ≠ .start price) :
    s₁.iters = s.iters + op.turns := by
  revert h
  fun_cases State.run s i op <;> intro h <;> cases h <;>
    first | rfl | exact absurd rfl (hop _)

variable [DecidableEq ι]

/-- A step of the sweep uses up one of the steps that are left, or starts an iteration. -/
theorem step_rank {s' : State ι} (ho : Owner s) (hin : (s.pc none).inSweep)
    (hs : step s e = some s') :
    (if e.thread = none then 1 else 0) + (s'.pc none).rank + 20 * s.iters ≤
      (s.pc none).rank + 20 * s'.iters := by
  obtain ⟨⟨op, p'⟩, hact, hs⟩ := Option.bind_eq_some_iff.mp hs
  obtain ⟨s₁, hrun, rfl⟩ := Option.map_eq_some_iff.mp hs
  have hpc : (s₁.goto e.thread p').pc none = Function.update s.pc e.thread p' none := by
    simp [State.goto, run_pc hrun]
  have hiters : (s₁.goto e.thread p').iters = s₁.iters := rfl
  rw [hpc, hiters]
  by_cases hth : e.thread = none
  · rw [hth] at hact hpc ⊢
    obtain ⟨hrank, hop⟩ := act_rank hact hin
    rw [run_iters hrun hop, Function.update_self, if_pos rfl]
    omega
  · have hop : op.ofSweep = false := by
      rw [← Bool.not_eq_true]
      exact fun h => act_ofSweep hact h (ho.command _ hth)
    rw [(run_aside hrun hop).iters, Function.update_of_ne (Ne.symm hth), if_neg hth]
    omega

theorem exec_rank : ∀ (es : List (Event ι)) (s s' : State ι), Owner s → Along step Calm s es →
    Along step (fun s _ => (s.pc none).inSweep = true) s es → exec step s es = some s' →
    es.countP (·.thread = none) + (s'.pc none).rank + 20 * s.iters ≤
      (s.pc none).rank + 20 * s'.iters := by
  intro es
  induction es with
  | nil =>
    intro s s' _ _ _ hex
    cases hex
    simp
  | cons e es ih =>
    intro s s' ho hal hin hex
    obtain ⟨s₁, hs, hrun⟩ := exec_cons_some hex
    obtain ⟨hcalm, hal⟩ := along_cons hal hs
    obtain ⟨hin₀, hin⟩ := along_cons hin hs
    have hfirst := step_rank ho hin₀ hs
    have ho₁ : Owner s₁ := by
      obtain ⟨⟨op, p'⟩, hact, hs⟩ := Option.bind_eq_some_iff.mp hs
      obtain ⟨s₂, hop, rfl⟩ := Option.map_eq_some_iff.mp hs
      exact owner_step ho hact hop hcalm
    have hrest := ih s₁ s' ho₁ hal hin hrun
    rw [List.countP_cons]
    simp only [decide_eq_true_eq]
    omega

end Rank

/-! ### The contract -/

/-- What is asked of the sweep in the state that a run reaches: it has followed no NULL pointer, nothing has been
    examined twice, there have been no more iterations than triggers, and from the head of the loop on, as long
    as it has not left the loop, it has made at most twenty steps for each of them. -/
structure Ends {ι : Type*} [DecidableEq ι] (es : List (Event ι)) (s : State ι) : Prop where
  sound : s.pc none ≠ .fault
  once : s.seen.Nodup
  bounded : s.iters ≤ s.started + s.added
  finishes : ∀ es₁ es₂ s₁, es = es₁ ++ es₂ → exec step init es₁ = some s₁ → s₁.pc none = .fetch →
    Along step (fun s _ => (s.pc none).inSweep = true) s₁ es₂ →
    es₂.countP (·.thread = none) ≤ 20 * (s.started + s.added)

section Contract
variable {ι : Type*} [DecidableEq ι]

/-- As long as the command handlers meet `Calm`, the sweep ends. -/
theorem sweep_ends {es : List (Event ι)} {s : State ι} (hal : Along step Calm init es)
    (hex : exec step init es = some s) : Ends es s := by
  obtain ⟨_, l, hi, hsw⟩ := exec_sweeping hal hex
  have hrest := hsw.sweeps.rest
  have hbound : s.iters ≤ s.started + s.added := hrest.room
  have hloop := hi.loop none
  refine ⟨fun hfault => ?_, by simpa using hrest.nodup, hbound, ?_⟩
  · rw [hfault] at hloop
    exact hloop
  rintro es₁ es₂ s₁ rfl h₁ hfetch hin
  obtain ⟨hal₁, hal₂⟩ := along_append hal h₁
  have h₂ : exec step s₁ es₂ = some s := by rwa [exec_append, h₁] at hex
  have hcount := exec_rank es₂ s₁ s (exec_sweeping hal₁ h₁).1 hal₂ hin h₂
  rw [hfetch, show Pc.fetch.rank = 0 from rfl] at hcount
  omega

end Contract

/-- Of two triggers the first one fires; while it is looked at a third one is added. -/
def addAndFire : List (Event Bool) :=
  steps (some false) 0 (.setAmount .b 100) 10 ++ steps (some false) 0 (.setTrigger .b 50) 3 ++
    steps (some true) 1 (.setAmount .b 100) 11 ++ steps none 0 .other 7 ++
    steps (some true) 1 (.setAmount .s 100) 11 ++ steps none 0 .other 23

theorem sweep_ends_addAndFire : ∃ s, exec step init addAndFire = some s ∧ s.pc none = .done ∧
    s.fires 0 = 1 ∧ s.seen = [1, 0] ∧ Ends addAndFire s := by
  have hrun : ∃ s ∈ exec step init addAndFire, s.pc none = .done ∧ s.fires 0 = 1 ∧
      s.seen = [1, 0] := by decide
  obtain ⟨s, hs, hdone, hfires, hseen⟩ := hrun
  exact ⟨s, hs, hdone, hfires, hseen, sweep_ends (by decide) hs⟩

/-- The triggers of two users, of which neither fires; the first one, where the sweep has started,
    is cancelled while the second one is looked at. -/
def cancelStart : List (Event Bool) :=
  steps (some false) 0 (.setAmount .b 100) 10 ++ steps (some true) 1 (.setAmount .b 100) 11 ++
    steps none 0 .other 16 ++ steps (some false) 0 (.cancel .b) 10 ++ steps none 0 .other 10

/-- The sweep looks at the second one again and again. -/
theorem cancelStart_endless : ¬ ∀ (es : List (Event Bool)) s,
    exec step init es = some s → Ends es s := by
  intro h
  have hrun : ∃ s ∈ exec step init cancelStart, s.started = 2 ∧ s.added = 0 ∧ s.iters = 3 := by
    decide
  obtain ⟨s, hs, hstarted, hadded, hiters⟩ := hrun
  have hbound := (h _ s hs).bounded
  omega

end TradeC.Locks
