import TradeC.Queues

/-! The queues are first in, first out, and nothing is lost or taken twice. -/

namespace TradeC.Queues
open Cells Run Threads

/-! ### The places -/

namespace Pc
variable {κ ρ : Type*}

/-- Between lock and unlock of the queue's mutex. -/
def holds : Pc κ ρ → Bool
  | .enqKey _ _ | .enqFields _ _ | .enqNext _ _ | .enqEnd _ _ | .enqPost | .enqUnlock => true
  | .deqTest | .deqTake | .deqFree _ | .deqUnlock | .deqNull => true
  | _ => false

/-- Past `sem_wait`, and has not taken its cell yet. -/
def waited : Pc κ ρ → Bool
  | .deqLock | .deqTest | .deqTake => true
  | _ => false

/-- How many cells the thread accounts for: the one it has a token for, or the one that it has linked
    and not posted yet. -/
def weight : Pc κ ρ → ℤ
  | .deqLock | .deqTest | .deqTake | .enqPost => 1
  | _ => 0

/-- In the middle of filling the last cell. -/
def fills : Pc κ ρ → Bool
  | .enqFields _ _ | .enqNext _ _ | .enqEnd _ _ => true
  | _ => false

/-- What the thread has done to the last cell so far, or knows of the first one. -/
def Tells {ι : Type*} (s : State ι κ ρ) (l : List (ℕ × Content κ ρ)) : Pc κ ρ → Prop
  | .enqKey _ _ => s.cell s.last = some ⟨.blank, none⟩
  | .enqFields k _ => s.cell s.last = some ⟨⟨some k, none⟩, none⟩
  | .enqNext k r => s.cell s.last = some ⟨.full (k, r), none⟩
  | .enqEnd k r => ∃ n, s.cell s.last = some ⟨.full (k, r), some n⟩ ∧
      s.cell n = some ⟨.blank, none⟩ ∧ n < s.fresh ∧ n ∉ l.map Prod.fst ∧ n ≠ s.last
  | .deqTest | .deqTake => ∃ v n, s.cell s.start = some ⟨.full v, some n⟩
  | .deqFree a => a ∉ l.map Prod.fst ∧ a ≠ s.last
  | .deqNull | .fault => False
  | _ => True

end Pc

namespace Op
variable {κ ρ : Type*}

def Mutex (op : Op κ ρ) (held held' : Bool) : Prop :=
  match op with
  | .lock => held = false ∧ held' = true
  | .unlock => held = true ∧ held' = false
  | .skip | .wait => held' = held
  | _ => held = true ∧ held' = true

/-- Tokens that the operation adds to the semaphore. -/
def tokens : Op κ ρ → ℤ
  | .wait => -1
  | .post => 1
  | _ => 0

/-- Cells that the operation adds to the chain. -/
def cells : Op κ ρ → ℤ
  | .moveEnd _ _ => 1
  | .take _ _ => -1
  | _ => 0

/-- The chain after the operation. -/
def list (last : ℕ) (l : List (ℕ × Content κ ρ)) : Op κ ρ → List (ℕ × Content κ ρ)
  | .moveEnd _ v => l ++ [(last, .full v)]
  | .take _ _ => l.tail
  | _ => l

end Op

/-! ### The steps that find what they expect -/

section Moves
variable {ι κ ρ : Type*}

/-- The steps of a thread when the first and the last cell are as its place says. -/
inductive Moves (s : State ι κ ρ) : Pc κ ρ → Op κ ρ → Pc κ ρ → Prop
  | enq (k : κ) (r : ρ) : Moves s .idle .skip (.enqLock k r)
  | deq : Moves s .idle .skip .deqWait
  | enqLock (k : κ) (r : ρ) : Moves s (.enqLock k r) .lock (.enqKey k r)
  | enqKey (k : κ) (r : ρ) :
      Moves s (.enqKey k r) (.write s.last ⟨⟨some k, none⟩, none⟩) (.enqFields k r)
  | enqFields (k : κ) (r : ρ) :
      Moves s (.enqFields k r) (.write s.last ⟨.full (k, r), none⟩) (.enqNext k r)
  | enqNext (k : κ) (r : ρ) :
      Moves s (.enqNext k r) (.calloc s.last ⟨.full (k, r), some s.fresh⟩) (.enqEnd k r)
  | enqEnd (k : κ) (r : ρ) (n : ℕ) (h : s.cell s.last = some ⟨.full (k, r), some n⟩) :
      Moves s (.enqEnd k r) (.moveEnd n (k, r)) .enqPost
  | enqPost : Moves s .enqPost .post .enqUnlock
  | enqUnlock : Moves s .enqUnlock .unlock .idle
  | deqWait : Moves s .deqWait .wait .deqLock
  | deqLock : Moves s .deqLock .lock .deqTest
  | deqTest : Moves s .deqTest .skip .deqTake
  | deqTake (v : κ × ρ) (n : ℕ) (h : s.cell s.start = some ⟨.full v, some n⟩) (p' : Pc κ ρ)
      (hp : p' = .deqFree s.start ∨ p' = .deqUnlock) : Moves s .deqTake (.take n (.full v)) p'
  | deqFree (a : ℕ) : Moves s (.deqFree a) (.free a) .deqUnlock
  | deqUnlock : Moves s .deqUnlock .unlock .idle

variable {q : Queue} {s : State ι κ ρ} {e : Event ι κ ρ} {p p' : Pc κ ρ} {op : Op κ ρ}
  {l : List (ℕ × Content κ ρ)}

/-- From a place that says what is there, no thread follows a NULL pointer or takes the early
    return, whatever the queue. -/
theorem act_moves (h : p.Tells s l) : Moves s p (act q s e p).1 (act q s e p).2 := by
  cases p with
  | idle =>
    unfold act
    split
    · exact .enq _ _
    · exact .deq
  | enqKey k r =>
    simp only [act, show s.cell s.last = _ from h]
    exact .enqKey k r
  | enqFields k r =>
    simp only [act, show s.cell s.last = _ from h]
    exact .enqFields k r
  | enqNext k r =>
    simp only [act, show s.cell s.last = _ from h]
    exact .enqNext k r
  | enqEnd k r =>
    obtain ⟨n, hlast, _⟩ := h
    simp only [act, hlast, Option.bind_some]
    exact .enqEnd k r n hlast
  | deqTest =>
    obtain ⟨v, n, hstart⟩ := h
    simp only [act, hstart, Content.full, Option.isNone_some]
    exact .deqTest
  | deqTake =>
    obtain ⟨v, n, hstart⟩ := h
    simp only [act, hstart]
    refine .deqTake v n hstart _ ?_
    split
    · exact .inl rfl
    · exact .inr rfl
  | deqNull => exact h.elim
  | fault => exact h.elim
  | enqLock k r => exact .enqLock k r
  | enqPost => exact .enqPost
  | enqUnlock => exact .enqUnlock
  | deqWait => exact .deqWait
  | deqLock => exact .deqLock
  | deqFree a => exact .deqFree a
  | deqUnlock => exact .deqUnlock

theorem Moves.mutex (h : Moves s p op p') : op.Mutex p.holds p'.holds := by
  cases h with
  | deqTake v n hstart p' hp => rcases hp with rfl | rfl <;> exact ⟨rfl, rfl⟩
  | _ => first | rfl | exact ⟨rfl, rfl⟩

/-- A thread gets a token for a cell by `wait` and gives one by `post`; it accounts for a cell that it
    has linked until it posts, and takes out the one that it has a token for. -/
theorem Moves.weight (h : Moves s p op p') : p'.weight + op.tokens = p.weight + op.cells := by
  cases h with
  | deqTake v n hstart p' hp => rcases hp with rfl | rfl <;> rfl
  | _ => rfl

end Moves

/-! ### What an operation does -/

namespace Op
variable {ι κ ρ : Type*} (s : State ι κ ρ) (i : ι)

def cell : Op κ ρ → ℕ → Option (Cell (Content κ ρ))
  | .write a c => Function.update s.cell a (some c)
  | .calloc a c => Function.update (Function.update s.cell a (some c)) s.fresh (some ⟨.blank, none⟩)
  | .free a => Function.update s.cell a none
  | _ => s.cell

def fresh : Op κ ρ → ℕ
  | .calloc _ _ => s.fresh + 1
  | _ => s.fresh

def start : Op κ ρ → ℕ
  | .take n _ => n
  | _ => s.start

def last : Op κ ρ → ℕ
  | .moveEnd n _ => n
  | _ => s.last

def busy : Op κ ρ → Option ι
  | .lock => some i
  | .unlock => none
  | _ => s.busy

def enqueued : Op κ ρ → List (κ × ρ)
  | .moveEnd _ v => s.enqueued ++ [v]
  | _ => s.enqueued

def dequeued : Op κ ρ → List (Content κ ρ)
  | .take _ c => s.dequeued ++ [c]
  | _ => s.dequeued

end Op

section Run
variable {ι κ ρ : Type*} {s s₁ : State ι κ ρ} {i : ι} {op : Op κ ρ} (h : s.run i op = some s₁)
include h

theorem run_pc : s₁.pc = s.pc := by
  revert h
  fun_cases State.run s i op <;> intro h <;> cases h <;> rfl

theorem run_cell : s₁.cell = op.cell s := by
  revert h
  fun_cases State.run s i op <;> intro h <;> cases h <;> rfl

theorem run_fresh : s₁.fresh = op.fresh s := by
  revert h
  fun_cases State.run s i op <;> intro h <;> cases h <;> rfl

theorem run_start : s₁.start = op.start s := by
  revert h
  fun_cases State.run s i op <;> intro h <;> cases h <;> rfl

theorem run_last : s₁.last = op.last s := by
  revert h
  fun_cases State.run s i op <;> intro h <;> cases h <;> rfl

theorem run_busy : s₁.busy = op.busy s i := by
  revert h
  fun_cases State.run s i op <;> intro h <;> cases h <;> rfl

theorem run_enqueued : s₁.enqueued = op.enqueued s := by
  revert h
  fun_cases State.run s i op <;> intro h <;> cases h <;> rfl

theorem run_dequeued : s₁.dequeued = op.dequeued s := by
  revert h
  fun_cases State.run s i op <;> intro h <;> cases h <;> rfl

theorem run_length : (s₁.length : ℤ) = s.length + op.tokens := by
  revert h
  fun_cases State.run s i op <;> intro h <;> cases h <;> simp [Op.tokens]
  omega

theorem run_lock (hop : op = .lock) : s.busy = none := by
  subst hop
  simpa [State.run] using congrArg Option.isSome h

end Run

/-! ### The invariant -/

section
variable {ι κ ρ : Type*} [Fintype ι]

/-- `l` is the queue: the cells from the first to, and without, the last one. -/
structure Inv (s : State ι κ ρ) (l : List (ℕ × Content κ ρ)) : Prop where
  guards : Guards s.pc (fun p => p.holds) s.busy
  chain : Chain s.cell s.start l s.last
  nodup : (s.last :: l.map Prod.fst).Nodup
  old : ∀ a ∈ s.last :: l.map Prod.fst, a < s.fresh
  blank : (∀ i, (s.pc i).fills = false) → s.cell s.last = some ⟨.blank, none⟩
  tells : ∀ i, (s.pc i).Tells s l
  values : s.enqueued.map .full = s.dequeued ++ l.map Prod.snd
  count : (s.length : ℤ) + ∑ i, (s.pc i).weight = l.length

theorem Pc.weight_nonneg (p : Pc κ ρ) : 0 ≤ p.weight := by
  cases p <;> simp [Pc.weight]

theorem Pc.weight_of_waited {p : Pc κ ρ} (h : p.waited) : p.weight = 1 := by
  cases p <;> simp_all [Pc.weight, Pc.waited]

namespace Inv
set_option linter.unusedSectionVars false
variable {s s₁ : State ι κ ρ} {l : List (ℕ × Content κ ρ)} (hi : Inv s l) {i : ι} {op : Op κ ρ}
  {p' : Pc κ ρ}
include hi

/-- A consumer past `sem_wait` has a cell to find. -/
theorem ne_nil (hw : (s.pc i).waited) : l ≠ [] := by
  rintro rfl
  have hcount := hi.count
  have hle := Finset.single_le_sum (f := fun j => (s.pc j).weight)
    (fun j _ => (s.pc j).weight_nonneg) (Finset.mem_univ i)
  rw [Pc.weight_of_waited hw] at hle
  simp only [List.length_nil, Nat.cast_zero] at hcount
  omega

/-- The first cell of a queue is filled. -/
theorem first (hl : l ≠ []) : ∃ v n, s.cell s.start = some ⟨.full v, some n⟩ := by
  obtain ⟨⟨a, c⟩, l, rfl⟩ := List.exists_cons_of_ne_nil hl
  obtain ⟨n, _, hcell, _⟩ := hi.chain.head
  have hmem : c ∈ s.enqueued.map Content.full := by
    rw [hi.values]
    simp
  obtain ⟨v, _, rfl⟩ := List.mem_map.mp hmem
  exact ⟨v, n, hcell⟩

theorem last_notMem : s.last ∉ l.map Prod.fst := (List.nodup_cons.mp hi.nodup).1

variable (hm : Moves s (s.pc i) op p') (hrun : s.run i op = some s₁)
include hm hrun

theorem step_chain : Chain s₁.cell s₁.start (op.list s.last l) s₁.last := by
  rw [run_cell hrun, run_start hrun, run_last hrun]
  have hchain := hi.chain
  have hlast := hi.last_notMem
  have htells := hi.tells i
  have hne : (s.pc i).waited → l ≠ [] := hi.ne_nil
  generalize s.pc i = p at *
  cases hm with
  | enqKey k r => exact hchain.update hlast _
  | enqFields k r => exact hchain.update hlast _
  | enqNext k r =>
    refine (hchain.update hlast _).update (fun hmem => ?_) _
    exact lt_irrefl _ (hi.old _ (List.mem_cons_of_mem _ hmem))
  | enqEnd k r n hcell => exact hchain.snoc hcell
  | deqTake v n hcell p' hp =>
    obtain ⟨⟨a, c⟩, l, rfl⟩ := List.exists_cons_of_ne_nil (hne rfl)
    obtain ⟨n', _, hcell', hrest⟩ := hchain.head
    rw [hcell] at hcell'
    cases hcell'
    exact hrest
  | deqFree a => exact hchain.update htells.1 _
  | _ => exact hchain

theorem step_nodup : (s₁.last :: (op.list s.last l).map Prod.fst).Nodup := by
  rw [run_last hrun]
  have hnodup := hi.nodup
  have htells := hi.tells i
  generalize s.pc i = p at *
  cases hm with
  | enqEnd k r n hcell =>
    obtain ⟨n', hcell', _, _, hfar, hne⟩ := htells
    rw [hcell] at hcell'
    cases hcell'
    have hperm : (n :: (l ++ [(s.last, Content.full (k, r))]).map Prod.fst).Perm
        (n :: s.last :: l.map Prod.fst) := by
      refine .cons n ?_
      rw [List.map_append]
      exact List.perm_append_singleton _ _
    exact hperm.nodup_iff.mpr (List.nodup_cons.mpr ⟨by simp [hfar, hne], hnodup⟩)
  | deqTake v n hcell p' hp =>
    refine hnodup.sublist (.cons_cons _ ?_)
    exact (List.tail_sublist l).map Prod.fst
  | _ => exact hnodup

theorem step_old (a : ℕ) (ha : a ∈ s₁.last :: (op.list s.last l).map Prod.fst) :
    a < s₁.fresh := by
  rw [run_last hrun] at ha
  rw [run_fresh hrun]
  have hold := hi.old
  have htells := hi.tells i
  generalize s.pc i = p at *
  cases hm with
  | enqNext k r => exact Nat.lt_succ_of_lt (hold a ha)
  | enqEnd k r n hcell =>
    obtain ⟨n', hcell', _, hlt, _⟩ := htells
    rw [hcell] at hcell'
    cases hcell'
    simp only [Op.list, Op.last, List.map_append, List.mem_cons, List.mem_append] at ha
    rcases ha with rfl | ha | ha
    · exact hlt
    · exact hold a (List.mem_cons_of_mem _ ha)
    · exact hold a (by simp_all)
  | deqTake v n hcell p' hp =>
    rcases List.mem_cons.mp ha with rfl | ha
    · exact hold _ List.mem_cons_self
    · exact hold a (List.mem_cons_of_mem _ ((List.tail_sublist l).map Prod.fst |>.subset ha))
  | _ => exact hold a ha

theorem step_values : s₁.enqueued.map .full = s₁.dequeued ++ (op.list s.last l).map Prod.snd := by
  rw [run_enqueued hrun, run_dequeued hrun]
  have hvalues := hi.values
  have hne : (s.pc i).waited → l ≠ [] := hi.ne_nil
  generalize s.pc i = p at *
  cases hm with
  | enqEnd k r n hcell => simp [Op.enqueued, Op.dequeued, Op.list, hvalues]
  | deqTake v n hcell p' hp =>
    obtain ⟨⟨a, c⟩, l, rfl⟩ := List.exists_cons_of_ne_nil (hne rfl)
    obtain ⟨n', _, hcell', _⟩ := hi.chain.head
    rw [hcell] at hcell'
    cases hcell'
    simp only [Op.enqueued, Op.dequeued, Op.list, hvalues, List.map_cons, List.tail_cons,
      List.append_assoc, List.singleton_append]
    rfl
  | _ => exact hvalues

variable [DecidableEq ι]

theorem step_guards : Guards (Function.update s.pc i p') (fun p => p.holds) s₁.busy := by
  have htable := hm.mutex
  have hg := hi.guards
  rw [run_busy hrun]
  cases op with
  | lock =>
    rw [run_lock hrun rfl] at hg
    exact hg.lock htable.2
  | unlock => exact hg.unlock htable.1 (by simp [htable.2])
  | skip => exact hg.skip (by rw [show p'.holds = _ from htable])
  | wait => exact hg.skip (by rw [show p'.holds = _ from htable])
  | _ => exact hg.skip (by rw [htable.1, htable.2])

/-- A thread without the mutex leaves the cells and the pointers alone. -/
theorem away (hown : (s.pc i).holds = false) : s₁.cell = s.cell ∧ s₁.start = s.start ∧
    s₁.last = s.last ∧ s₁.fresh = s.fresh ∧ op.list s.last l = l := by
  have htable := hm.mutex
  rw [hown] at htable
  rw [run_cell hrun, run_start hrun, run_last hrun, run_fresh hrun]
  cases op with
  | skip => exact ⟨rfl, rfl, rfl, rfl, rfl⟩
  | lock => exact ⟨rfl, rfl, rfl, rfl, rfl⟩
  | wait => exact ⟨rfl, rfl, rfl, rfl, rfl⟩
  | _ => simp [Op.Mutex] at htable

theorem step_count :
    (s₁.length : ℤ) + ∑ j, (Function.update s.pc i p' j).weight = (op.list s.last l).length := by
  have hlen : ((op.list s.last l).length : ℤ) = l.length + op.cells := by
    have hne : (s.pc i).waited → l ≠ [] := hi.ne_nil
    generalize s.pc i = p at *
    cases hm with
    | enqEnd k r n hcell => simp [Op.list, Op.cells]
    | deqTake v n hcell p' hp =>
      obtain ⟨c, l, rfl⟩ := List.exists_cons_of_ne_nil (hne rfl)
      simp [Op.list, Op.cells]
    | _ => simp [Op.list, Op.cells]
  rw [sum_place (Finset.mem_univ i) Pc.weight, run_length hrun, hlen]
  have hweight := hm.weight
  have hcount := hi.count
  linarith only [hweight, hcount]

/-- The thread that takes the mutex finds the last cell blank. -/
theorem blank_of_lock (hop : op = .lock) : s.cell s.last = some ⟨.blank, none⟩ := by
  refine hi.blank fun j => ?_
  have hg := hi.guards
  rw [run_lock hrun hop] at hg
  have hfree := hg.free j
  generalize s.pc j = p at *
  cases p <;> simp_all [Pc.holds, Pc.fills]

theorem step_blank (hall : ∀ j, (Function.update s.pc i p' j).fills = false) :
    s₁.cell s₁.last = some ⟨.blank, none⟩ := by
  have hself : p'.fills = false := by simpa using hall i
  have hblank : (s.pc i).fills = false → s.cell s.last = some ⟨.blank, none⟩ := fun hp =>
    hi.blank fun j => by
      by_cases hj : j = i
      · rwa [hj]
      · simpa [Function.update_of_ne hj] using hall j
  rw [run_cell hrun, run_last hrun]
  have htells := hi.tells i
  generalize s.pc i = p at *
  cases hm with
  | enqKey k r => simp [Pc.fills] at hself
  | enqFields k r => simp [Pc.fills] at hself
  | enqNext k r => simp [Pc.fills] at hself
  | enqEnd k r n hcell =>
    obtain ⟨n', hcell', hblank', _⟩ := htells
    rw [hcell] at hcell'
    cases hcell'
    exact hblank'
  | deqFree a =>
    obtain ⟨_, hne⟩ := htells
    change Function.update s.cell a none s.last = _
    rw [Function.update_of_ne (Ne.symm hne)]
    exact hblank rfl
  | _ => exact hblank rfl

/-- What the thread knows at its new place. -/
theorem tells_self : p'.Tells s₁ (op.list s.last l) := by
  have hcell := run_cell hrun
  have hstart := run_start hrun
  have hlast := run_last hrun
  have hfresh := run_fresh hrun
  have htells := hi.tells i
  have hblank := hi.blank_of_lock hm hrun
  have hfirst : (s.pc i).waited → ∃ v n, s.cell s.start = some ⟨.full v, some n⟩ :=
    fun hw => hi.first (hi.ne_nil hw)
  have hold := hi.old
  have hnodup := hi.nodup
  have hne : (s.pc i).waited → l ≠ [] := hi.ne_nil
  generalize s.pc i = p at *
  cases hm with
  | enqLock k r =>
    change s₁.cell s₁.last = _
    rw [hcell, hlast]
    exact hblank rfl
  | enqKey k r =>
    change s₁.cell s₁.last = _
    rw [hcell, hlast]
    exact Function.update_self ..
  | enqFields k r =>
    change s₁.cell s₁.last = _
    rw [hcell, hlast]
    exact Function.update_self ..
  | enqNext k r =>
    have hlt := hold _ List.mem_cons_self
    refine ⟨s.fresh, ?_, ?_, ?_, fun hmem => ?_, ?_⟩
    · rw [hcell, hlast]
      change Function.update (Function.update s.cell s.last _) s.fresh _ s.last = _
      rw [Function.update_of_ne hlt.ne, Function.update_self]
    · rw [hcell, Op.cell, Function.update_self]
    · rw [hfresh]
      exact Nat.lt_succ_self _
    · exact lt_irrefl _ (hold _ (List.mem_cons_of_mem _ hmem))
    · rw [hlast]
      exact hlt.ne'
  | deqLock =>
    obtain ⟨v, n, h⟩ := hfirst rfl
    exact ⟨v, n, by rw [hcell, hstart]; exact h⟩
  | deqTest =>
    obtain ⟨v, n, h⟩ := hfirst rfl
    exact ⟨v, n, by rw [hcell, hstart]; exact h⟩
  | deqTake v n h p' hp =>
    obtain ⟨c, l, rfl⟩ := List.exists_cons_of_ne_nil (hne rfl)
    obtain ⟨_, hc, _⟩ := hi.chain.head
    rcases hp with rfl | rfl
    · obtain ⟨hlast', hl⟩ := List.nodup_cons.mp hnodup
      rw [List.map_cons, hc] at hl hlast'
      refine ⟨(List.nodup_cons.mp hl).1, ?_⟩
      rw [hlast]
      intro heq
      exact hlast' (heq ▸ List.mem_cons_self)
    · trivial
  | _ => trivial

/-- The others know what they knew: who holds the mutex holds it alone. -/
theorem step_tells (j : ι) :
    (Function.update s.pc i p' j).Tells s₁ (op.list s.last l) := by
  by_cases hj : j = i
  · rw [hj, Function.update_self]
    exact hi.tells_self hm hrun
  rw [Function.update_of_ne hj]
  have htells := hi.tells j
  by_cases hown : (s.pc j).holds
  · have hfree : (s.pc i).holds = false := by
      by_contra h
      exact hj (hi.guards.excl hown (by simpa using h))
    obtain ⟨hcell, hstart, hlast, hfresh, hl⟩ := hi.away hm hrun hfree
    rw [hl]
    revert htells
    generalize s.pc j = p at *
    cases p <;> simp only [Pc.Tells, hcell, hstart, hlast, hfresh, imp_self]
  · revert htells hown
    generalize s.pc j = p at *
    cases p <;> simp [Pc.Tells, Pc.holds]

theorem step : Inv (s₁.goto i p') (op.list s.last l) := by
  have hpc : (s₁.goto i p').pc = Function.update s.pc i p' := by
    simp [State.goto, run_pc hrun]
  constructor
  case guards => exact hpc ▸ (hi.step_guards hm hrun :)
  case chain => exact (hi.step_chain hm hrun :)
  case nodup => exact (hi.step_nodup hm hrun :)
  case old => exact (hi.step_old hm hrun :)
  case blank => exact hpc ▸ (hi.step_blank hm hrun :)
  case tells =>
    rw [hpc]
    intro j
    have htells := hi.step_tells hm hrun j
    revert htells
    cases Function.update s.pc i p' j <;> exact id
  case values => exact (hi.step_values hm hrun :)
  case count => exact hpc ▸ (hi.step_count hm hrun :)

end Inv

theorem inv_init : Inv (init : State ι κ ρ) [] where
  guards := .none fun i => by simp [init, Pc.holds]
  chain := rfl
  nodup := List.nodup_singleton 0
  old a ha := by simp_all [init]
  blank _ := rfl
  tells _ := trivial
  values := rfl
  count := by simp [init, Pc.weight]

/-! ### Runs -/

variable [DecidableEq ι] {q : Queue} {s : State ι κ ρ}

theorem exec_queue {es : List (Event ι κ ρ)} (h : exec (step q) init es = some s) :
    ∃ l, Inv s l := by
  have hstep : ∀ (s : State ι κ ρ) e s', (∃ l, Inv s l) → step q s e = some s' →
      ∃ l, Inv s' l := by
    rintro s e s' ⟨l, hi⟩ hs
    obtain ⟨s₁, hrun, rfl⟩ := Option.map_eq_some_iff.mp hs
    exact ⟨_, hi.step (act_moves (hi.tells _)) hrun⟩
  exact exec_inv hstep es init s ⟨[], inv_init⟩ h

/-- What is asked of a queue. -/
structure Sound (s : State ι κ ρ) : Prop where
  fifo : s.dequeued <+: s.enqueued.map .full
  kept : (s.length : ℤ) + ∑ i, (s.pc i).weight = s.enqueued.length - s.dequeued.length
  filled : ∀ i, (s.pc i).waited → ∃ c k, s.cell s.start = some c ∧ c.value.key = some k
  early : ∀ i, s.pc i ≠ .deqNull ∧ s.pc i ≠ .fault

/-- In every run, of any number of threads and in any order of their steps: the values dequeued are a
    prefix of the values enqueued; the tokens of the semaphore and of the threads count the others;
    a consumer past `sem_wait` has a filled cell to find; the early return is not taken. -/
theorem queue_fifo {es : List (Event ι κ ρ)} (h : exec (Queues.step q) init es = some s) :
    Sound s := by
  obtain ⟨l, hi⟩ := exec_queue h
  have hlen := congrArg List.length hi.values
  simp only [List.length_map, List.length_append] at hlen
  constructor
  case fifo => exact ⟨_, hi.values.symm⟩
  case kept =>
    rw [hi.count]
    omega
  case filled =>
    intro i hw
    obtain ⟨v, n, hcell⟩ := hi.first (hi.ne_nil hw)
    exact ⟨_, v.1, hcell, rfl⟩
  case early =>
    intro i
    have htells := hi.tells i
    constructor
    · intro hp
      rw [hp] at htells
      exact htells
    · intro hp
      rw [hp] at htells
      exact htells

end

/-- A producer and a consumer of a log queue that starts empty: the consumer comes first and waits; of three lines it
    takes two, the second while the third is put in. -/
def handOver : List (Event Bool ℕ ℕ) :=
  let consumer (n : ℕ) : List (Event Bool ℕ ℕ) := List.replicate n ⟨true, .deq⟩
  let producer (n k r : ℕ) : List (Event Bool ℕ ℕ) := List.replicate n ⟨false, .enq k r⟩
  consumer 1 ++ producer 7 1 7 ++ consumer 1 ++ producer 1 1 7 ++ consumer 5 ++ producer 8 2 8 ++ producer 4 3 9 ++
    consumer 2 ++ producer 4 3 9 ++ consumer 3

theorem queue_fifo_handOver : ∃ s : State Bool ℕ ℕ,
    exec (step .loadBalancerLog) init handOver = some s ∧ s.dequeued.length = 2 ∧
      s.enqueued = [(1, 7), (2, 8), (3, 9)] ∧ Sound s := by
  have hrun : ∃ s ∈ exec (step .loadBalancerLog) (init : State Bool ℕ ℕ) handOver,
      s.dequeued.length = 2 ∧ s.enqueued = [(1, 7), (2, 8), (3, 9)] := by decide +kernel
  obtain ⟨s, hs, hlen, henq⟩ := hrun
  exact ⟨s, hs, hlen, henq, queue_fifo hs⟩

end TradeC.Queues
