import TradeC.LoadBalancer
import TradeC.Lib.Threads
import Mathlib.Algebra.Order.BigOperators.Group.Finset
import Mathlib.Tactic.Linarith

/-! The rounds of `quote_handler` do not mix.

    Between two rounds every thread waits on `quoteStart`, and both semaphores are 0. That the fixed number
    of `sem_trywait` is enough comes from one bound: the posts left on `quoteFin` are at most the threads
    that have come back from `sem_post` and not begun to ask again. -/

namespace TradeC.LoadBalancer
open Run Threads

/-! ### The places -/

namespace TPc

/-- The places that hold the mutex of the thread's reply. -/
def holds : TPc → Bool
  | off | start | park | relock => false
  | _ => true

/-- The places of a new thread, up to its first wait. -/
def starting : TPc → Bool
  | start | setInit | top | release | park => true
  | _ => false

def started : TPc → Bool
  | top | release | park => true
  | _ => false

/-- The places between two rounds, while the threads are let go. -/
def opening : TPc → Bool
  | park | relock | spin => true
  | _ => false

/-- The places past `sem_wait(quoteStart)`, before go. -/
def passed : TPc → ℤ
  | relock | spin => 1
  | _ => 0

def running : TPc → Bool
  | off | start | setInit | relock => false
  | _ => true

/-- The places after a post, up to the next request. -/
def posted : TPc → ℤ
  | unlockReturned | top | release | park => 1
  | _ => 0

/-- The places in the middle of a request. -/
def asking : TPc → Bool
  | connect | send | recv .. | check .. | report | setID | postFin | unlockReturned => true
  | _ => false

def receiving : TPc → Bool
  | recv .. => true
  | _ => false

end TPc

namespace HPc

/-- The replies whose mutex the handler holds. -/
def holds (n t : ℕ) : HPc → Bool
  | create i | waitInit i | lockInit i | collect i => t < i
  | takeFin | deq | setRequest _ | drain _ | clear => t < n
  | unlock i => i ≤ t && t < n
  | probeUnlock i => t = i
  | post _ | poll | probe _ | setGo | waitFin | readID | store _ | ended => false

/-- Where `go` is set. -/
def going : HPc → Bool
  | waitFin | readID | store _ | collect _ | drain _ | clear | ended => true
  | _ => false

/-- Where threads may be asking. -/
def running : HPc → Bool
  | waitFin | readID | store _ | collect _ | ended => true
  | _ => false

end HPc

/-! ### The invariant of the barrier -/

section
variable (n : ℕ) (pc : ℕ → TPc) (quoteStart quoteFin : ℕ)

def Parked : Prop := ∀ t < n, pc t = .park

/-- The threads are let go: `m` have been, and each has its post, or has taken it. -/
structure Opening (m : ℕ) : Prop where
  place : ∀ t < n, (pc t).opening
  fin : quoteFin = 0
  start : quoteStart + ∑ t ∈ Finset.range n, (pc t).passed = m

/-- The threads are asking. -/
structure Running : Prop where
  place : ∀ t < n, (pc t).running
  start : quoteStart = 0
  fin : (quoteFin : ℤ) ≤ ∑ t ∈ Finset.range n, (pc t).posted

/-- Where the threads are, and what the semaphores count, at each place of the handler. -/
def Sync (init : Bool) : HPc → Prop
  | .create i => i ≤ n ∧ (∀ t < i, pc t = .park) ∧ (∀ t, i ≤ t → pc t = .off) ∧ quoteFin = 1 ∧
      quoteStart = 0
  | .waitInit i => i < n ∧ (∀ t < i, pc t = .park) ∧ (∀ t, i < t → pc t = .off) ∧ (pc i).starting ∧
      (init → (pc i).started) ∧ quoteFin = 1 ∧ quoteStart = 0
  | .lockInit i => i < n ∧ (∀ t < i, pc t = .park) ∧ (∀ t, i < t → pc t = .off) ∧ (pc i).started ∧
      quoteFin = 1 ∧ quoteStart = 0
  | .takeFin => Parked n pc ∧ quoteFin = 1 ∧ quoteStart = 0
  | .deq | .setRequest _ | .unlock _ | .clear => Parked n pc ∧ quoteFin = 0 ∧ quoteStart = 0
  | .post i => i ≤ n ∧ Opening n pc quoteStart quoteFin i
  | .poll => Opening n pc quoteStart quoteFin n
  | .probe i => i ≤ n ∧ (∀ t < i, pc t = .spin) ∧ Opening n pc quoteStart quoteFin n
  | .probeUnlock i => i < n ∧ (∀ t < i, pc t = .spin) ∧ (pc i = .park ∨ pc i = .relock) ∧
      Opening n pc quoteStart quoteFin n
  | .setGo => (∀ t < n, pc t = .spin) ∧ Opening n pc quoteStart quoteFin n
  | .waitFin | .readID | .store _ | .ended => Running n pc quoteStart quoteFin
  | .collect i => i ≤ n ∧ (∀ t < i, pc t = .park) ∧ Running n pc quoteStart quoteFin
  | .drain i => i ≤ n ∧ Parked n pc ∧ quoteFin ≤ n - i ∧ quoteStart = 0

end

structure Inv (n : ℕ) (s : State) : Prop where
  sync : Sync n s.pc s.quoteStart s.quoteFin s.init s.handler
  off : ∀ t, n ≤ t → s.pc t = .off
  busy : ∀ t, s.busy t = ((s.pc t).holds || s.handler.holds n t)
  go : s.go = s.handler.going

section
variable {n : ℕ} {pc : ℕ → TPc} {quoteStart quoteFin fin' : ℕ} {init : Bool} {h : HPc} {t : ℕ}
  {p p' : TPc}

theorem posted_nonneg (p : TPc) : 0 ≤ p.posted := by cases p <;> simp [TPc.posted]

theorem posted_le (p : TPc) : p.posted ≤ 1 := by cases p <;> simp [TPc.posted]

/-- Where all threads are at one kind of place, its count is known. -/
theorem sum_const {f : TPc → ℤ} {c : ℤ} (hf : ∀ t < n, f (pc t) = c) :
    ∑ t ∈ Finset.range n, f (pc t) = n * c := by
  rw [Finset.sum_congr rfl fun t ht => hf t (Finset.mem_range.mp ht), Finset.sum_const,
    Finset.card_range, nsmul_eq_mul]

/-- The bound on the posts that are left. -/
theorem Running.le (hr : Running n pc quoteStart quoteFin) : quoteFin ≤ n := by
  have hsum : ∑ t ∈ Finset.range n, (pc t).posted ≤ ∑ t ∈ Finset.range n, (1 : ℤ) :=
    Finset.sum_le_sum fun t _ => posted_le (pc t)
  have hfin := hr.fin
  rw [Finset.sum_const, Finset.card_range, nsmul_eq_mul, mul_one] at hsum
  omega

/-- A thread moves while the threads ask: no more posts come than places after a post. -/
theorem Running.move (hr : Running n pc quoteStart quoteFin) (ht : t < n) (hp : p'.running)
    (hfin : fin' = 0 ∨ (fin' : ℤ) + (pc t).posted ≤ quoteFin + p'.posted) :
    Running n (Function.update pc t p') quoteStart fin' where
  place u hu := by
    by_cases hut : u = t
    · subst hut
      rwa [Function.update_self]
    · rw [Function.update_of_ne hut]
      exact hr.place u hu
  start := hr.start
  fin := by
    rcases hfin with rfl | hfin
    · exact Finset.sum_nonneg fun u _ => posted_nonneg _
    · rw [sum_place (Finset.mem_range.mpr ht)]
      have := hr.fin
      omega

theorem Sync.isRunning (hs : Sync n pc quoteStart quoteFin init h) (hh : h.running) :
    Running n pc quoteStart quoteFin := by
  cases h <;> first | exact hs | exact hs.2.2 | cases hh

/-- A thread that does not wait moves while the threads ask. -/
theorem Sync.runMove (hs : Sync n pc quoteStart quoteFin init h) (hh : h.running) (ht : t < n)
    (hnot : pc t ≠ .park) (hp : p'.running)
    (hfin : fin' = 0 ∨ (fin' : ℤ) + (pc t).posted ≤ quoteFin + p'.posted) :
    Sync n (Function.update pc t p') quoteStart fin' init h := by
  have hr := (hs.isRunning hh).move ht hp hfin
  cases h with
  | waitFin | readID | store | ended => exact hr
  | collect i =>
    refine ⟨hs.1, fun u hu => ?_, hr⟩
    have hut : u ≠ t := fun h => hnot (h ▸ hs.2.1 u hu)
    rw [Function.update_of_ne hut]
    exact hs.2.1 u hu
  | _ => cases hh

/-- Where threads are let go. -/
def HPc.opening : HPc → Bool
  | post _ | poll | probe _ | probeUnlock _ | setGo => true
  | _ => false

/-- What a place of a thread tells about the place of the handler. -/
theorem Sync.at (hs : Sync n pc quoteStart quoteFin init h) (ht : t < n) :
    pc t = .park ∨ pc t = .off ∨ h = .waitInit t ∧ (pc t).starting ∨
      h = .lockInit t ∧ (pc t).started ∨ h.opening ∧ (pc t).opening ∨ h.running ∧ (pc t).running := by
  cases h with
  | create i =>
    rcases lt_or_ge t i with h | h
    · exact .inl (hs.2.1 t h)
    · exact .inr (.inl (hs.2.2.1 t h))
  | waitInit i =>
    rcases lt_trichotomy t i with h | rfl | h
    · exact .inl (hs.2.1 t h)
    · exact .inr (.inr (.inl ⟨rfl, hs.2.2.2.1⟩))
    · exact .inr (.inl (hs.2.2.1 t h))
  | lockInit i =>
    rcases lt_trichotomy t i with h | rfl | h
    · exact .inl (hs.2.1 t h)
    · exact .inr (.inr (.inr (.inl ⟨rfl, hs.2.2.2.1⟩)))
    · exact .inr (.inl (hs.2.2.1 t h))
  | takeFin | deq | setRequest | unlock | clear => exact .inl (hs.1 t ht)
  | drain i => exact .inl (hs.2.1 t ht)
  | post i => exact .inr (.inr (.inr (.inr (.inl ⟨rfl, hs.2.place t ht⟩))))
  | poll => exact .inr (.inr (.inr (.inr (.inl ⟨rfl, hs.place t ht⟩))))
  | probe i => exact .inr (.inr (.inr (.inr (.inl ⟨rfl, hs.2.2.place t ht⟩))))
  | probeUnlock i => exact .inr (.inr (.inr (.inr (.inl ⟨rfl, hs.2.2.2.place t ht⟩))))
  | setGo => exact .inr (.inr (.inr (.inr (.inl ⟨rfl, hs.2.place t ht⟩))))
  | waitFin | readID | store | ended => exact .inr (.inr (.inr (.inr (.inr ⟨rfl, hs.place t ht⟩))))
  | collect i => exact .inr (.inr (.inr (.inr (.inr ⟨rfl, hs.2.2.place t ht⟩))))

/-- A thread in the middle of a request asks. -/
theorem Sync.running_of_asking (hs : Sync n pc quoteStart quoteFin init h) (ht : t < n)
    (hp : (pc t).asking) : h.running := by
  rcases hs.at ht with hat | hat | ⟨-, hat⟩ | ⟨-, hat⟩ | ⟨-, hat⟩ | ⟨hrun, -⟩
  · simp [hat, TPc.asking] at hp
  · simp [hat, TPc.asking] at hp
  · revert hp hat
    cases pc t <;> simp [TPc.asking, TPc.starting]
  · revert hp hat
    cases pc t <;> simp [TPc.asking, TPc.started]
  · revert hp hat
    cases pc t <;> simp [TPc.asking, TPc.opening]
  · exact hrun

/-- A new thread is one that the handler waits for. -/
theorem Sync.handler_of_new (hs : Sync n pc quoteStart quoteFin init h) (ht : t < n)
    (hp : pc t = .start ∨ pc t = .setInit) : h = .waitInit t := by
  rcases hs.at ht with hat | hat | ⟨hwait, -⟩ | ⟨-, hat⟩ | ⟨-, hat⟩ | ⟨-, hat⟩
  case inr.inr.inl => exact hwait
  all_goals rcases hp with hp | hp <;> simp [hp, TPc.started, TPc.opening, TPc.running] at hat

/-- A thread at the top of its loop is new, or asks. -/
theorem Sync.handler_of_top (hs : Sync n pc quoteStart quoteFin init h) (ht : t < n)
    (hp : pc t = .top ∨ pc t = .release) : h = .waitInit t ∨ h = .lockInit t ∨ h.running := by
  rcases hs.at ht with hat | hat | ⟨hwait, -⟩ | ⟨hlock, -⟩ | ⟨-, hat⟩ | ⟨hrun, -⟩
  case inr.inr.inl => exact .inl hwait
  case inr.inr.inr.inl => exact .inr (.inl hlock)
  case inr.inr.inr.inr.inr => exact .inr (.inr hrun)
  all_goals rcases hp with hp | hp <;> simp [hp, TPc.opening] at hat

/-- A thread that sees go asks. -/
theorem Sync.running_of_spin (hs : Sync n pc quoteStart quoteFin init h) (ht : t < n)
    (hp : pc t = .spin) (hgo : h.going) : h.running := by
  cases h with
  | waitFin | readID | store | ended | collect => rfl
  | drain i =>
    have hpark := hs.2.1 t ht
    simp [hp] at hpark
  | clear =>
    have hpark := hs.1 t ht
    simp [hp] at hpark
  | _ => cases hgo

/-- A new thread moves. -/
theorem Sync.newMove (hs : Sync n pc quoteStart quoteFin init h) {init' : Bool}
    (hh : h = .waitInit t ∨ h = .lockInit t) (hp : p'.starting)
    (hstarted : p'.started ∨ h = .waitInit t ∧ init' = false) :
    Sync n (Function.update pc t p') quoteStart quoteFin init' h := by
  have hlt : (∀ u < t, pc u = .park) → ∀ u < t, Function.update pc t p' u = .park := fun h u hu => by
    rw [Function.update_of_ne hu.ne]
    exact h u hu
  have hgt : (∀ u, t < u → pc u = .off) → ∀ u, t < u → Function.update pc t p' u = .off := fun h u hu => by
    rw [Function.update_of_ne hu.ne']
    exact h u hu
  rcases hh with rfl | rfl
  · refine ⟨hs.1, hlt hs.2.1, hgt hs.2.2.1, by rwa [Function.update_self], fun hinit => ?_, hs.2.2.2.2.2⟩
    rw [Function.update_self]
    rcases hstarted with hstarted | ⟨-, hfalse⟩
    · exact hstarted
    · rw [hfalse] at hinit
      cases hinit
  · refine ⟨hs.1, hlt hs.2.1, hgt hs.2.2.1, ?_, hs.2.2.2.2⟩
    rw [Function.update_self]
    rcases hstarted with hstarted | ⟨hwait, -⟩
    · exact hstarted
    · cases hwait

/-- A thread is let go, or takes its mutex. -/
theorem Opening.move {m start' : ℕ} (ho : Opening n pc quoteStart quoteFin m) (ht : t < n)
    (hp : p'.opening) (hstart : (start' : ℤ) + p'.passed = quoteStart + (pc t).passed) :
    Opening n (Function.update pc t p') start' quoteFin m where
  place u hu := by
    by_cases hut : u = t
    · subst hut
      rwa [Function.update_self]
    · rw [Function.update_of_ne hut]
      exact ho.place u hu
  fin := ho.fin
  start := by
    rw [sum_place (Finset.mem_range.mpr ht)]
    have := ho.start
    omega

theorem Sync.opening_of_start (hs : Sync n pc quoteStart quoteFin init h) (hstart : quoteStart ≠ 0) :
    h.opening := by
  cases h with
  | post | poll | probe | probeUnlock | setGo => rfl
  | create i => exact absurd hs.2.2.2.2 hstart
  | waitInit i => exact absurd hs.2.2.2.2.2.2 hstart
  | lockInit i => exact absurd hs.2.2.2.2.2 hstart
  | takeFin | deq | setRequest | unlock | clear => exact absurd hs.2.2 hstart
  | drain i => exact absurd hs.2.2.2 hstart
  | waitFin | readID | store | ended => exact absurd hs.start hstart
  | collect i => exact absurd hs.2.2.start hstart

theorem Sync.opening_of_relock (hs : Sync n pc quoteStart quoteFin init h) (ht : t < n)
    (hp : pc t = .relock) : h.opening := by
  rcases hs.at ht with hat | hat | ⟨-, hat⟩ | ⟨-, hat⟩ | ⟨hopen, -⟩ | ⟨-, hat⟩
  case inr.inr.inr.inr.inl => exact hopen
  all_goals simp [hp, TPc.starting, TPc.started, TPc.running] at hat

theorem Sync.openMove {start' : ℕ} (hs : Sync n pc quoteStart quoteFin init h) (hh : h.opening)
    (ht : t < n) (hnot : pc t ≠ .spin) (hp : p'.opening)
    (hstart : (start' : ℤ) + p'.passed = quoteStart + (pc t).passed)
    (hheld : h ≠ .probeUnlock t ∨ p' = .relock) :
    Sync n (Function.update pc t p') start' quoteFin init h := by
  have hspin : ∀ {i}, (∀ u < i, pc u = .spin) → ∀ u < i, Function.update pc t p' u = .spin :=
    fun h u hu => by
      have hut : u ≠ t := fun heq => hnot (heq ▸ h u hu)
      rw [Function.update_of_ne hut]
      exact h u hu
  cases h with
  | post i => exact ⟨hs.1, hs.2.move ht hp hstart⟩
  | poll => exact Opening.move hs ht hp hstart
  | probe i => exact ⟨hs.1, hspin hs.2.1, hs.2.2.move ht hp hstart⟩
  | probeUnlock i =>
    refine ⟨hs.1, hspin hs.2.1, ?_, hs.2.2.2.move ht hp hstart⟩
    by_cases hi : i = t
    · subst hi
      rw [Function.update_self]
      exact .inr (hheld.resolve_left fun h => h rfl)
    · rw [Function.update_of_ne hi]
      exact hs.2.2.1
  | setGo => exact absurd (hs.1 t ht) hnot
  | _ => cases hh

/-! ### The steps of the threads -/

section
variable {s s' : State}

theorem busy_move {busy : ℕ → Bool} {held : ℕ → Bool} (hb : ∀ u, busy u = ((pc u).holds || held u))
    (hp : p'.holds = (pc t).holds) (u : ℕ) :
    busy u = ((Function.update pc t p' u).holds || held u) := by
  by_cases hu : u = t
  · subst hu
    rw [Function.update_self, hp, hb]
  · rw [Function.update_of_ne hu, hb]

theorem busy_set {busy : ℕ → Bool} {held : ℕ → Bool} (hb : ∀ u, busy u = ((pc u).holds || held u))
    {b : Bool} (hp : b = (p'.holds || held t)) (u : ℕ) :
    Function.update busy t b u = ((Function.update pc t p' u).holds || held u) := by
  by_cases hu : u = t
  · subst hu
    rw [Function.update_self, Function.update_self, hp]
  · rw [Function.update_of_ne hu, Function.update_of_ne hu, hb]

theorem Inv.lt (hi : Inv n s) (hp : s.pc t ≠ .off) : t < n := by
  by_contra hlt
  exact hp (hi.off t (by omega))

/-- A step of a thread that leaves the handler where it is. -/
theorem Inv.of_move (hi : Inv n s) (ht : t < n) (hpc : s'.pc = Function.update s.pc t p')
    (hh : s'.handler = s.handler) (hgo : s'.go = s.go)
    (hsync : Sync n s'.pc s'.quoteStart s'.quoteFin s'.init s.handler)
    (hbusy : ∀ u, s'.busy u = ((Function.update s.pc t p' u).holds || s.handler.holds n u)) :
    Inv n s' where
  sync := hh ▸ hsync
  off u hu := by
    rw [hpc, Function.update_of_ne (by omega)]
    exact hi.off u hu
  busy u := by
    rw [hpc, hh]
    exact hbusy u
  go := by rw [hgo, hh, hi.go]

/-- A step of a thread that asks, without its mutex. -/
theorem Inv.ask (hi : Inv n s) (ht : t < n) (hrun : s.handler.running) (hnot : s.pc t ≠ .park)
    (hpc : s'.pc = Function.update s.pc t p') (hp : p'.running) (hholds : p'.holds = (s.pc t).holds)
    (hfin : s'.quoteFin = 0 ∨ (s'.quoteFin : ℤ) + (s.pc t).posted ≤ s.quoteFin + p'.posted)
    (hbusy : s'.busy = s.busy) (hh : s'.handler = s.handler) (hgo : s'.go = s.go)
    (hstart : s'.quoteStart = s.quoteStart) (hinit : s'.init = s.init) : Inv n s' := by
  refine hi.of_move ht hpc hh hgo ?_ fun u => by rw [hbusy]; exact busy_move hi.busy hholds u
  rw [hpc, hstart, hinit]
  exact hi.sync.runMove hrun ht hnot hp hfin

theorem holds_new (h : s.handler = .waitInit t ∨ s.handler = .lockInit t) : s.handler.holds n t = false := by
  rcases h with h | h <;> simp [h, HPc.holds]

/-- The handler does not hold the mutex of a thread that asks and does not wait. -/
theorem Inv.held_running (hi : Inv n s) (hrun : s.handler.running) (hnot : s.pc t ≠ .park) :
    s.handler.holds n t = false := by
  have hsync := hi.sync
  cases hh : s.handler with
  | collect i =>
    rw [hh] at hsync
    have hle : ¬ t < i := fun h => hnot (hsync.2.1 t h)
    simp [HPc.holds, hle]
  | waitFin | readID | store | ended => rfl
  | _ =>
    rw [hh] at hrun
    cases hrun

/-- A step in the middle of a request. -/
theorem Inv.asking (hi : Inv n s) (ht : t < n) (hask : (s.pc t).asking)
    (hpc : s'.pc = Function.update s.pc t p') (hp : p'.running) (hholds : p'.holds)
    (hfin : s'.quoteFin = 0 ∨ (s'.quoteFin : ℤ) + (s.pc t).posted ≤ s.quoteFin + p'.posted)
    (hbusy : s'.busy = s.busy) (hh : s'.handler = s.handler) (hgo : s'.go = s.go)
    (hstart : s'.quoteStart = s.quoteStart) (hinit : s'.init = s.init) : Inv n s' := by
  have hplace : s.pc t ≠ .park ∧ (s.pc t).holds := by
    revert hask
    cases s.pc t <;> simp [TPc.asking, TPc.holds]
  exact hi.ask ht (hi.sync.running_of_asking ht hask) hplace.1 hpc hp (by rw [hholds, hplace.2]) hfin
    hbusy hh hgo hstart hinit

theorem Inv.thread {before : Char} {net : Option (List Char)} (hi : Inv n s)
    (hstep : threadStep before s t net = some s') : Inv n s' := by
  have ht : t < n := hi.lt fun hoff => by simp [threadStep, hoff] at hstep
  have hs := hi.sync
  cases hp : s.pc t with
  | off =>
    simp only [threadStep, hp] at hstep
    cases hstep
  | start =>
    simp only [threadStep, hp] at hstep
    split_ifs at hstep
    cases hstep
    have hwait := hs.handler_of_new ht (.inl hp)
    have hinit : s.init = false := by
      rw [hwait] at hs
      have hstarted := hs.2.2.2.2.1
      simpa [hp, TPc.started] using hstarted
    refine hi.of_move ht rfl rfl rfl (hs.newMove (.inl hwait) rfl (.inr ⟨hwait, hinit⟩)) ?_
    exact busy_set hi.busy rfl
  | setInit =>
    simp only [threadStep, hp] at hstep
    cases hstep
    have hwait := hs.handler_of_new ht (.inr hp)
    refine hi.of_move ht rfl rfl rfl (hs.newMove (.inl hwait) rfl (.inl rfl)) ?_
    exact busy_move hi.busy (by rw [hp]; rfl)
  | top =>
    simp only [threadStep, hp] at hstep
    cases hstep
    rcases hs.handler_of_top ht (.inl hp) with hnew | hnew | hrun
    · have hfin : s.quoteFin = 1 := by
        rw [hnew] at hs
        exact hs.2.2.2.2.2.1
      rw [if_neg (by omega)]
      refine hi.of_move ht rfl rfl rfl (hs.newMove (.inl hnew) rfl (.inl rfl)) ?_
      exact busy_move hi.busy (by rw [hp]; rfl)
    · have hfin : s.quoteFin = 1 := by
        rw [hnew] at hs
        exact hs.2.2.2.2.1
      rw [if_neg (by omega)]
      refine hi.of_move ht rfl rfl rfl (hs.newMove (.inr hnew) rfl (.inl rfl)) ?_
      exact busy_move hi.busy (by rw [hp]; rfl)
    · split_ifs with hfin
      -- a thread asks again only where no post is left
      · exact hi.ask ht hrun (by simp [hp]) rfl rfl (by rw [hp]; rfl) (.inl hfin) rfl rfl rfl rfl rfl
      · exact hi.ask ht hrun (by simp [hp]) rfl rfl (by rw [hp]; rfl) (.inr (by rw [hp]; rfl)) rfl rfl
          rfl rfl rfl
  | release =>
    simp only [threadStep, hp] at hstep
    cases hstep
    have hheld : s.handler.holds n t = false := by
      rcases hs.handler_of_top ht (.inr hp) with hnew | hnew | hrun
      · exact holds_new (.inl hnew)
      · exact holds_new (.inr hnew)
      · exact hi.held_running hrun (by simp [hp])
    refine hi.of_move ht rfl rfl rfl ?_ (busy_set hi.busy (by rw [hheld]; rfl))
    rcases hs.handler_of_top ht (.inr hp) with hnew | hnew | hrun
    · exact hs.newMove (.inl hnew) rfl (.inl rfl)
    · exact hs.newMove (.inr hnew) rfl (.inl rfl)
    · exact hs.runMove hrun ht (by simp [hp]) rfl (.inr (by rw [hp]; rfl))
  | park =>
    simp only [threadStep, hp] at hstep
    split_ifs at hstep with hstart
    cases hstep
    have hopen := hs.opening_of_start hstart
    refine hi.of_move ht rfl rfl rfl ?_ (busy_move hi.busy (by rw [hp]; rfl))
    refine hs.openMove hopen ht (by simp [hp]) rfl ?_ (.inr rfl)
    simp only [hp, TPc.passed, State.goto]
    omega
  | relock =>
    simp only [threadStep, hp] at hstep
    split_ifs at hstep with hbusy
    cases hstep
    have hopen := hs.opening_of_relock ht hp
    have hfree : s.handler.holds n t = false := by
      rw [hi.busy t, hp] at hbusy
      simpa [TPc.holds] using hbusy
    refine hi.of_move ht rfl rfl rfl ?_ (busy_set hi.busy rfl)
    refine hs.openMove hopen ht (by simp [hp]) rfl (by simp [hp, TPc.passed, State.goto, State.setBusy])
      (.inl fun h => ?_)
    rw [h] at hfree
    simp [HPc.holds] at hfree
  | spin =>
    simp only [threadStep, hp] at hstep
    cases hstep
    split_ifs with hgo
    · have hrun := hs.running_of_spin ht hp (hi.go ▸ hgo)
      exact hi.ask ht hrun (by simp [hp]) rfl rfl (by rw [hp]; rfl) (.inr (by rw [hp]; rfl)) rfl rfl rfl
        rfl rfl
    · exact hi
  | connect =>
    simp only [threadStep, hp] at hstep
    cases hstep
    split_ifs
    · exact hi.asking ht (by rw [hp]; rfl) rfl rfl rfl (.inr (by rw [hp]; rfl)) rfl rfl rfl rfl rfl
    · exact hi.asking ht (by rw [hp]; rfl) rfl rfl rfl (.inr (by simp [hp, State.goto, TPc.posted])) rfl rfl
        rfl rfl rfl
  | send =>
    simp only [threadStep, hp] at hstep
    split at hstep
    · cases hstep
      exact hi.asking ht (by rw [hp]; rfl) rfl rfl rfl (.inr (by simp [hp, State.goto, TPc.posted])) rfl rfl
        rfl rfl rfl
    · obtain ⟨x, -, rfl⟩ := Option.map_eq_some_iff.mp hstep
      exact hi.asking ht (by rw [hp]; rfl) rfl rfl rfl (.inr (by rw [hp]; rfl)) rfl rfl rfl rfl rfl
  | recv count sent =>
    simp only [threadStep, hp] at hstep
    split at hstep
    · cases hstep
      exact hi.asking ht (by rw [hp]; rfl) rfl rfl rfl (.inr (by rw [hp]; rfl)) rfl rfl rfl rfl rfl
    · split_ifs at hstep
      cases hstep
      exact hi.asking ht (by rw [hp]; rfl) rfl rfl rfl (.inr (by rw [hp]; rfl)) rfl rfl rfl rfl rfl
  | check count sent =>
    simp only [threadStep, hp] at hstep
    cases hstep
    split_ifs
    · exact hi.asking ht (by rw [hp]; rfl) rfl rfl rfl (.inr (by rw [hp]; rfl)) rfl rfl rfl rfl rfl
    · exact hi.asking ht (by rw [hp]; rfl) rfl rfl rfl (.inr (by simp [hp, State.goto, TPc.posted])) rfl rfl
        rfl rfl rfl
  | report =>
    simp only [threadStep, hp] at hstep
    cases hstep
    split_ifs
    · exact hi.asking ht (by rw [hp]; rfl) rfl rfl rfl (.inr (by simp [hp, State.goto, TPc.posted])) rfl rfl
        rfl rfl rfl
    · exact hi.asking ht (by rw [hp]; rfl) rfl rfl rfl (.inr (by rw [hp]; rfl)) rfl rfl rfl rfl rfl
  | setID =>
    simp only [threadStep, hp] at hstep
    cases hstep
    exact hi.asking ht (by rw [hp]; rfl) rfl rfl rfl (.inr (by rw [hp]; rfl)) rfl rfl rfl rfl rfl
  | postFin =>
    simp only [threadStep, hp] at hstep
    cases hstep
    -- one more post, and one more place after a post
    exact hi.asking ht (by rw [hp]; rfl) rfl rfl rfl (.inr (by simp [hp, State.goto, TPc.posted])) rfl rfl
      rfl rfl rfl
  | unlockReturned =>
    simp only [threadStep, hp] at hstep
    cases hstep
    exact hi.asking ht (by rw [hp]; rfl) rfl rfl rfl (.inr (by rw [hp]; rfl)) rfl rfl rfl rfl rfl

/-! ### The steps of the handler -/

theorem opening_parked (hpark : Parked n pc) : Opening n pc 0 0 0 where
  place t ht := by
    rw [hpark t ht]
    rfl
  fin := rfl
  start := by
    rw [sum_const (f := TPc.passed) (c := 0) fun t ht => by rw [hpark t ht]; rfl]
    simp

/-- All threads are past the wait: every post on `quoteStart` has been taken. -/
theorem Opening.running (ho : Opening n pc quoteStart quoteFin n) (hspin : ∀ t < n, pc t = .spin) :
    Running n pc quoteStart quoteFin where
  place t ht := by
    rw [hspin t ht]
    rfl
  start := by
    have hsum := ho.start
    rw [sum_const (f := TPc.passed) (c := 1) fun t ht => by rw [hspin t ht]; rfl] at hsum
    omega
  fin := by
    rw [ho.fin]
    exact Finset.sum_nonneg fun t _ => posted_nonneg _

theorem Running.take (hr : Running n pc quoteStart quoteFin) : Running n pc quoteStart (quoteFin - 1) where
  place := hr.place
  start := hr.start
  fin := by
    have := hr.fin
    omega

/-- A thread that the handler finds with its mutex free waits. -/
theorem park_of_running {p : TPc} (hrun : p.running) (hfree : p.holds = false) : p = .park := by
  revert hrun hfree
  cases p <;> simp [TPc.running, TPc.holds]

theorem park_of_started {p : TPc} (hstarted : p.started) (hfree : p.holds = false) : p = .park := by
  revert hstarted hfree
  cases p <;> simp [TPc.started, TPc.holds]

theorem opening_free {p : TPc} (hopen : p.opening) (hfree : p.holds = false) : p = .park ∨ p = .relock := by
  revert hopen hfree
  cases p <;> simp [TPc.opening, TPc.holds]

theorem opening_held {p : TPc} (hopen : p.opening) (hheld : p.holds) : p = .spin := by
  revert hopen hheld
  cases p <;> simp [TPc.opening, TPc.holds]

theorem forall_lt_succ {P : ℕ → Prop} {i : ℕ} (h : ∀ t < i, P t) (hi : P i) : ∀ t < i + 1, P t := by
  intro t ht
  rcases Nat.lt_succ_iff_lt_or_eq.mp ht with ht | rfl
  · exact h t ht
  · exact hi

/-- The handler locks or unlocks one mutex. -/
theorem busy_handler {busy held held' : ℕ → Bool} {i : ℕ}
    (hb : ∀ t, busy t = ((pc t).holds || held t)) {b : Bool} (hi : b = ((pc i).holds || held' i))
    (hne : ∀ t, t ≠ i → held' t = held t) (t : ℕ) :
    Function.update busy i b t = ((pc t).holds || held' t) := by
  by_cases ht : t = i
  · subst ht
    rw [Function.update_self, hi]
  · rw [Function.update_of_ne ht, hb, hne t ht]

/-- A step of the handler alone. -/
theorem Inv.of_handler (hi : Inv n s) (hpc : s'.pc = s.pc)
    (hsync : Sync n s.pc s'.quoteStart s'.quoteFin s'.init s'.handler)
    (hbusy : ∀ t, s'.busy t = ((s.pc t).holds || s'.handler.holds n t))
    (hgo : s'.go = s'.handler.going) : Inv n s' where
  sync := hpc ▸ hsync
  off t ht := hpc ▸ hi.off t ht
  busy t := hpc ▸ hbusy t
  go := hgo

theorem Inv.handler {x : Request} (hi : Inv n s) (hstep : handlerStep n s x = some s') : Inv n s' := by
  have hs := hi.sync
  have hb := hi.busy
  have hg := hi.go
  cases hh : s.handler with
  | create i =>
    simp only [handlerStep, hh] at hstep hs hb hg
    obtain ⟨hle, hpark, hoff, hfin, hstart⟩ := hs
    split_ifs at hstep with hlt
    · cases hstep
      have hsync : Sync n (Function.update s.pc i .start) s.quoteStart s.quoteFin false (.waitInit i) := by
        refine ⟨hlt, fun t ht => ?_, fun t ht => ?_, ?_, fun h => ?_, hfin, hstart⟩
        · rw [Function.update_of_ne ht.ne]
          exact hpark t ht
        · rw [Function.update_of_ne ht.ne']
          exact hoff t ht.le
        · rw [Function.update_self]
          rfl
        · cases h
      refine ⟨hsync, fun t ht => ?_, busy_move hb ?_, hg⟩
      · dsimp only
        rw [Function.update_of_ne (by omega)]
        exact hi.off t ht
      · rw [hoff i le_rfl]
        rfl
    · cases hstep
      obtain rfl : i = n := by omega
      exact hi.of_handler rfl ⟨hpark, hfin, hstart⟩ hb hg
  | waitInit i =>
    simp only [handlerStep, hh] at hstep hs hb hg
    cases hstep
    split_ifs with hinit
    · exact hi.of_handler rfl ⟨hs.1, hs.2.1, hs.2.2.1, hs.2.2.2.2.1 hinit, hs.2.2.2.2.2⟩ hb hg
    · exact hi
  | lockInit i =>
    simp only [handlerStep, hh] at hstep hs hb hg
    obtain ⟨hlt, hpark, hoff, hstarted, hcount⟩ := hs
    split_ifs at hstep with hbusy
    cases hstep
    have hfree : (s.pc i).holds = false := by
      rw [hb i] at hbusy
      simpa [HPc.holds] using hbusy
    refine hi.of_handler rfl ⟨hlt, forall_lt_succ hpark (park_of_started hstarted hfree),
      fun t ht => hoff t ht, hcount⟩ (busy_handler hb ?_ fun t ht => ?_) hg
    · simp [HPc.holds]
    · simp only [HPc.holds, decide_eq_decide]
      omega
  | takeFin =>
    simp only [handlerStep, hh] at hstep hs hb hg
    split_ifs at hstep
    cases hstep
    exact hi.of_handler rfl ⟨hs.1, by simp [hs.2.1], hs.2.2⟩ hb hg
  | deq =>
    simp only [handlerStep, hh] at hstep hs hb hg
    cases hstep
    exact hi.of_handler rfl hs hb hg
  | setRequest y =>
    simp only [handlerStep, hh] at hstep hs hb hg
    cases hstep
    exact hi.of_handler rfl hs (fun t => by simpa [HPc.holds] using hb t) hg
  | unlock i =>
    simp only [handlerStep, hh] at hstep hs hb hg
    split_ifs at hstep with hlt
    · cases hstep
      refine hi.of_handler rfl hs (busy_handler hb ?_ fun t ht => ?_) hg
      · rw [hs.1 i hlt]
        simp [TPc.holds, HPc.holds]
      · simp only [HPc.holds]
        congr 1
        rw [decide_eq_decide]
        omega
    · cases hstep
      refine hi.of_handler rfl ⟨Nat.zero_le n, ?_⟩ (fun t => ?_) hg
      · rw [hs.2.1, hs.2.2]
        exact opening_parked hs.1
      · rw [hb]
        simp [HPc.holds]
        omega
  | post i =>
    simp only [handlerStep, hh] at hstep hs hb hg
    split_ifs at hstep with hlt
    · cases hstep
      refine hi.of_handler rfl ⟨hlt, hs.2.place, hs.2.fin, ?_⟩ hb hg
      have := hs.2.start
      push_cast
      omega
    · cases hstep
      obtain rfl : i = n := by have := hs.1; omega
      exact hi.of_handler rfl hs.2 hb hg
  | poll =>
    simp only [handlerStep, hh] at hstep hs hb hg
    cases hstep
    split_ifs
    · exact hi.of_handler rfl ⟨Nat.zero_le n, fun t ht => by omega, hs⟩ hb hg
    · exact hi
  | probe i =>
    simp only [handlerStep, hh] at hstep hs hb hg
    obtain ⟨hle, hspin, hopen⟩ := hs
    split_ifs at hstep with hlt hbusy
    · cases hstep
      have hheld : (s.pc i).holds := by
        rw [hb i] at hbusy
        simpa [HPc.holds] using hbusy
      exact hi.of_handler rfl ⟨hlt, forall_lt_succ hspin (opening_held (hopen.place i hlt) hheld), hopen⟩ hb
        hg
    · cases hstep
      have hfree : (s.pc i).holds = false := by
        rw [hb i] at hbusy
        simpa [HPc.holds] using hbusy
      refine hi.of_handler rfl ⟨hlt, hspin, opening_free (hopen.place i hlt) hfree, hopen⟩
        (busy_handler hb ?_ fun t ht => ?_) hg
      · simp [HPc.holds]
      · simpa [HPc.holds] using ht
    · cases hstep
      obtain rfl : i = n := by omega
      exact hi.of_handler rfl ⟨hspin, hopen⟩ hb hg
  | probeUnlock i =>
    simp only [handlerStep, hh] at hstep hs hb hg
    obtain ⟨hlt, hspin, hfree, hopen⟩ := hs
    cases hstep
    refine hi.of_handler rfl ⟨hlt.le, hspin, hopen⟩ (busy_handler hb ?_ fun t ht => ?_) hg
    · rcases hfree with hfree | hfree <;> rw [hfree] <;> rfl
    · simpa [HPc.holds] using ht
  | setGo =>
    simp only [handlerStep, hh] at hstep hs hb hg
    cases hstep
    exact hi.of_handler rfl (hs.2.running hs.1) hb rfl
  | waitFin =>
    simp only [handlerStep, hh] at hstep hs hb hg
    split_ifs at hstep
    cases hstep
    exact hi.of_handler rfl (Running.take hs) hb hg
  | readID =>
    simp only [handlerStep, hh] at hstep hs hb hg
    cases hstep
    exact hi.of_handler rfl hs hb hg
  | store r =>
    simp only [handlerStep, hh] at hstep hs hb hg
    split_ifs at hstep
    · cases hstep
      exact hi.of_handler rfl hs hb hg
    · obtain ⟨y, -, rfl⟩ := Option.map_eq_some_iff.mp hstep
      refine hi.of_handler rfl ⟨Nat.zero_le n, fun t ht => by omega, hs⟩ (fun t => ?_) hg
      rw [hb]
      simp [HPc.holds]
  | collect i =>
    simp only [handlerStep, hh] at hstep hs hb hg
    obtain ⟨hle, hpark, hrun⟩ := hs
    split_ifs at hstep with hlt hbusy
    · cases hstep
      have hfree : (s.pc i).holds = false := by
        rw [hb i] at hbusy
        simpa [HPc.holds] using hbusy
      refine hi.of_handler rfl ⟨hlt, forall_lt_succ hpark (park_of_running (hrun.place i hlt) hfree), hrun⟩
        (busy_handler hb ?_ fun t ht => ?_) hg
      · simp [HPc.holds]
      · simp only [HPc.holds, decide_eq_decide]
        omega
    · cases hstep
      obtain rfl : i = n := by omega
      exact hi.of_handler rfl ⟨Nat.zero_le i, hpark, hrun.le, hrun.start⟩ hb hg
  | drain i =>
    simp only [handlerStep, hh] at hstep hs hb hg
    obtain ⟨hle, hpark, hfin, hstart⟩ := hs
    split_ifs at hstep with hlt
    · cases hstep
      exact hi.of_handler rfl ⟨hlt, hpark, by simp only; omega, hstart⟩ hb hg
    · cases hstep
      exact hi.of_handler rfl ⟨hpark, by simp only; omega, hstart⟩ hb hg
  | clear =>
    simp only [handlerStep, hh] at hstep hs hb hg
    cases hstep
    exact hi.of_handler rfl hs hb rfl
  | ended =>
    simp only [handlerStep, hh] at hstep
    cases hstep

end

end

/-! ### The invariant of the requests and the replies -/

/-- The request is the one that the round was for. -/
def Of (taken : List Request) (x : ℕ × Request) : Prop := 0 < x.1 ∧ taken[x.1 - 1]? = some x.2

/-- It is that of the round now. -/
def Current (s : State) (x : ℕ × Request) : Prop :=
  x.1 = s.taken.length ∧ s.taken.getLast? = some x.2

/-- The reply of a thread was received for the request of this round. -/
def Fresh (s : State) (t : ℕ) : Prop := ∃ x, (s.reply t).sent = some x ∧ Current s x

def Sent (s : State) (t : ℕ) : TPc → Prop
  | .recv _ x | .check _ x => Current s x
  | .report | .setID => Fresh s t
  | .postFin => Fresh s s.threadReturnedID
  | _ => True

def Kept (s : State) : HPc → Prop
  | .waitFin => 0 < s.quoteFin → Fresh s s.threadReturnedID
  | .readID => Fresh s s.threadReturnedID
  | .store r => Fresh s r
  | .setRequest x => s.taken.getLast? = some x
  | _ => True

structure Data (s : State) : Prop where
  request : (∀ x, s.handler ≠ .setRequest x) → s.request = s.taken.getLast?
  kept : Kept s s.handler
  place : ∀ t, Sent s t (s.pc t)
  sends : ∀ x ∈ s.sends, Of s.taken x
  cache : ∀ a c, s.cache a = some c →
    ∃ x, c.reply.sent = some (c.round, x) ∧ Of s.taken (c.round, x) ∧ x.quoteAddress = a

section
variable {n : ℕ} {s s' : State} {t : ℕ} {p' : TPc}

theorem Current.of {x : ℕ × Request} (h : Current s x) : Of s.taken x := by
  obtain ⟨hround, hlast⟩ := h
  have hne : s.taken ≠ [] := by
    rintro hnil
    rw [hnil] at hlast
    cases hlast
  rw [List.getLast?_eq_getElem?] at hlast
  exact ⟨hround ▸ List.length_pos_iff.mpr hne, hround ▸ hlast⟩

theorem Of.append {taken : List Request} {x : ℕ × Request} (h : Of taken x) (y : Request) :
    Of (taken ++ [y]) x := by
  refine ⟨h.1, ?_⟩
  obtain ⟨hlt, -⟩ := List.getElem?_eq_some_iff.mp h.2
  rw [List.getElem?_append_left hlt]
  exact h.2

theorem fresh_of_eq (ht : s'.taken = s.taken) (hr : s'.reply = s.reply) (h : Fresh s t) : Fresh s' t := by
  unfold Fresh Current at h ⊢
  rwa [ht, hr]

theorem current_of_eq {x : ℕ × Request} (ht : s'.taken = s.taken) (h : Current s x) : Current s' x := by
  unfold Current at h ⊢
  rwa [ht]

theorem Sent.mono {p : TPc} (ht : s'.taken = s.taken) (hfresh : ∀ u, Fresh s u → Fresh s' u)
    (hid : Fresh s s.threadReturnedID → Fresh s' s'.threadReturnedID) (h : Sent s t p) :
    Sent s' t p := by
  cases p with
  | recv | check => exact current_of_eq ht h
  | report | setID => exact hfresh t h
  | postFin => exact hid h
  | _ => trivial

/-- A thread moves, and no reply gets worse. -/
theorem Data.of_move (hd : Data s) (hpc : s'.pc = Function.update s.pc t p')
    (hh : s'.handler = s.handler) (ht : s'.taken = s.taken) (hreq : s'.request = s.request)
    (hc : s'.cache = s.cache) (hsends : ∀ x ∈ s'.sends, Of s.taken x)
    (hfresh : ∀ u, Fresh s u → Fresh s' u)
    (hid : Fresh s s.threadReturnedID → Fresh s' s'.threadReturnedID)
    (hfin : s'.quoteFin = s.quoteFin ∨ Fresh s' s'.threadReturnedID) (hp : Sent s' t p') : Data s' where
  request hne := by
    rw [hreq, ht]
    exact hd.request (hh ▸ hne)
  kept := by
    have hkept := hd.kept
    rw [hh]
    cases hplace : s.handler with
    | waitFin =>
      rw [hplace] at hkept
      intro hpos
      rcases hfin with hfin | hfin
      · exact hid (hkept (hfin ▸ hpos))
      · exact hfin
    | readID =>
      rw [hplace] at hkept
      exact hid hkept
    | store r =>
      rw [hplace] at hkept
      exact hfresh r hkept
    | setRequest x =>
      rw [hplace] at hkept
      exact (congrArg List.getLast? ht).trans hkept
    | _ => trivial
  place u := by
    rw [hpc]
    by_cases hu : u = t
    · subst hu
      rwa [Function.update_self]
    · rw [Function.update_of_ne hu]
      exact (hd.place u).mono ht hfresh hid
  sends x hx := ht ▸ hsends x hx
  cache a c hslot := ht ▸ hd.cache a c (hc ▸ hslot)

/-- A thread moves, and leaves the replies and their count. -/
theorem Data.move (hd : Data s) (hpc : s'.pc = Function.update s.pc t p') (hh : s'.handler = s.handler)
    (ht : s'.taken = s.taken) (hreq : s'.request = s.request) (hc : s'.cache = s.cache)
    (hsends : s'.sends = s.sends) (hr : s'.reply = s.reply)
    (hid : s'.threadReturnedID = s.threadReturnedID) (hfin : s'.quoteFin = s.quoteFin)
    (hp : Sent s t p') : Data s' := by
  have hfresh : ∀ u, Fresh s u → Fresh s' u := fun u => fresh_of_eq ht hr
  have hids : Fresh s s.threadReturnedID → Fresh s' s'.threadReturnedID := fun h => hid ▸ hfresh _ h
  exact hd.of_move hpc hh ht hreq hc (fun x hx => hd.sends x (hsends ▸ hx)) hfresh hids (.inl hfin)
    (hp.mono ht hfresh hids)

/-- No reply of no bytes is received: the quote server does not close a connection before it has sent
    something. -/
def Answers (s : State) : Event → Prop
  | .handler _ => True
  | .thread t net => (s.pc t).receiving → net ≠ some []

instance (s : State) : ∀ e, Decidable (Answers s e)
  | .handler _ => .isTrue trivial
  | .thread t net => inferInstanceAs (Decidable ((s.pc t).receiving = true → net ≠ some []))

/-- Between a send and its reply no round begins. -/
theorem Inv.not_setRequest (hi : Inv n s) (ht : t < n) (hask : (s.pc t).asking) (x : Request) :
    s.handler ≠ .setRequest x := by
  intro hh
  have hrun := hi.sync.running_of_asking ht hask
  rw [hh] at hrun
  cases hrun

theorem Data.thread {before : Char} {net : Option (List Char)} (hi : Inv n s) (hd : Data s)
    (hok : Answers s (.thread t net)) (hstep : threadStep before s t net = some s') : Data s' := by
  have ht : t < n := hi.lt fun hoff => by simp [threadStep, hoff] at hstep
  have hsent := hd.place t
  cases hp : s.pc t with
  | off =>
    simp only [threadStep, hp] at hstep
    cases hstep
  | start | relock =>
    simp only [threadStep, hp] at hstep
    split_ifs at hstep
    cases hstep
    exact hd.move rfl rfl rfl rfl rfl rfl rfl rfl rfl trivial
  | setInit | release | unlockReturned =>
    simp only [threadStep, hp] at hstep
    cases hstep
    exact hd.move rfl rfl rfl rfl rfl rfl rfl rfl rfl trivial
  | top | connect =>
    simp only [threadStep, hp] at hstep
    cases hstep
    refine hd.move rfl rfl rfl rfl rfl rfl rfl rfl rfl ?_
    split_ifs <;> trivial
  | park =>
    simp only [threadStep, hp] at hstep
    split_ifs at hstep
    cases hstep
    exact hd.move rfl rfl rfl rfl rfl rfl rfl rfl rfl trivial
  | spin =>
    simp only [threadStep, hp] at hstep
    cases hstep
    split_ifs
    · exact hd.move rfl rfl rfl rfl rfl rfl rfl rfl rfl trivial
    · exact hd
  | send =>
    simp only [threadStep, hp] at hstep
    split at hstep
    · cases hstep
      exact hd.move rfl rfl rfl rfl rfl rfl rfl rfl rfl trivial
    · obtain ⟨x, hx, rfl⟩ := Option.map_eq_some_iff.mp hstep
      have hcurrent : Current s (s.taken.length, x) := by
        refine ⟨rfl, ?_⟩
        rw [← hd.request (hi.not_setRequest ht (by rw [hp]; rfl)), hx]
      refine hd.of_move rfl rfl rfl rfl rfl (fun y hy => ?_) (fun u h => h) id (.inl rfl) hcurrent
      rcases List.mem_append.mp hy with hy | hy
      · exact hd.sends y hy
      · rw [List.mem_singleton.mp hy]
        exact hcurrent.of
  | recv count sent =>
    rw [hp] at hsent
    simp only [threadStep, hp] at hstep
    split at hstep
    · cases hstep
      exact hd.move rfl rfl rfl rfl rfl rfl rfl rfl rfl hsent
    · rename_i bytes
      have hbytes : bytes ≠ [] := fun hnil => hok (by rw [hp]; rfl) (by rw [hnil])
      split_ifs at hstep
      cases hstep
      have hnew : Fresh ((s.setReply before t sent bytes).goto t .report) t := by
        refine ⟨sent, ?_, hsent⟩
        simp [State.setReply, State.goto, hbytes]
      have hfresh : ∀ u, Fresh s u → Fresh ((s.setReply before t sent bytes).goto t .report) u := by
        intro u hu
        by_cases hut : u = t
        · rw [hut]
          exact hnew
        · obtain ⟨x, hx, hcurrent⟩ := hu
          refine ⟨x, ?_, hcurrent⟩
          simpa [State.setReply, State.goto, hut] using hx
      exact hd.of_move rfl rfl rfl rfl rfl hd.sends hfresh (hfresh _) (.inl rfl) hnew
  | check count sent =>
    rw [hp] at hsent
    simp only [threadStep, hp] at hstep
    cases hstep
    refine hd.move rfl rfl rfl rfl rfl rfl rfl rfl rfl ?_
    split_ifs
    · exact hsent
    · trivial
  | report =>
    rw [hp] at hsent
    simp only [threadStep, hp] at hstep
    cases hstep
    split_ifs
    · exact hd.move rfl rfl rfl rfl rfl rfl rfl rfl rfl trivial
    · exact hd.move rfl rfl rfl rfl rfl rfl rfl rfl rfl hsent
  | setID =>
    rw [hp] at hsent
    simp only [threadStep, hp] at hstep
    cases hstep
    exact hd.of_move rfl rfl rfl rfl rfl hd.sends (fun u h => h) (fun _ => hsent) (.inl rfl) hsent
  | postFin =>
    rw [hp] at hsent
    simp only [threadStep, hp] at hstep
    cases hstep
    exact hd.of_move rfl rfl rfl rfl rfl hd.sends (fun u h => h) (fun h => h) (.inr hsent) trivial

/-- The handler moves, and no thread asks or has a reply to tell of. -/
theorem Data.of_handler (hd : Data s) (hpc : ∀ u, Sent s' u (s'.pc u))
    (ht : s'.taken = s.taken) (hreq : s'.request = s.request) (hc : s'.cache = s.cache)
    (hsends : s'.sends = s.sends) (hset : ∀ x, s.handler ≠ .setRequest x) (hkept : Kept s' s'.handler) :
    Data s' where
  request _ := by rw [hreq, ht, hd.request hset]
  kept := hkept
  place := hpc
  sends x hx := ht ▸ hd.sends x (hsends ▸ hx)
  cache a c hslot := ht ▸ hd.cache a c (hc ▸ hslot)

theorem sent_parked (hi : Inv n s) (hpark : Parked n s.pc) (u : ℕ) : Sent s' u (s.pc u) := by
  rcases lt_or_ge u n with hu | hu
  · rw [hpark u hu]
    trivial
  · rw [hi.off u hu]
    trivial

theorem Data.handler {x : Request} (hi : Inv n s) (hd : Data s) (hstep : handlerStep n s x = some s') :
    Data s' := by
  have hs := hi.sync
  have hkept := hd.kept
  have hset : ∀ {h : HPc}, s.handler = h → (∀ x, h ≠ .setRequest x) → ∀ x, s.handler ≠ .setRequest x :=
    fun hh hne x => hh ▸ hne x
  cases hh : s.handler with
  | create i =>
    simp only [handlerStep, hh] at hstep
    split_ifs at hstep
    · cases hstep
      refine hd.of_handler (fun u => ?_) rfl rfl rfl rfl (hset hh fun _ => by simp) trivial
      dsimp only
      by_cases hu : u = i
      · subst hu
        rw [Function.update_self]
        trivial
      · rw [Function.update_of_ne hu]
        exact hd.place u
    · cases hstep
      exact hd.of_handler hd.place rfl rfl rfl rfl (hset hh fun _ => by simp) trivial
  | waitInit i | poll =>
    simp only [handlerStep, hh] at hstep
    cases hstep
    split_ifs
    · exact hd.of_handler hd.place rfl rfl rfl rfl (hset hh fun _ => by simp) trivial
    · exact hd
  | lockInit i =>
    simp only [handlerStep, hh] at hstep
    split_ifs at hstep
    cases hstep
    exact hd.of_handler hd.place rfl rfl rfl rfl (hset hh fun _ => by simp) trivial
  | takeFin =>
    simp only [handlerStep, hh] at hstep
    split_ifs at hstep
    cases hstep
    exact hd.of_handler hd.place rfl rfl rfl rfl (hset hh fun _ => by simp) trivial
  | deq =>
    simp only [handlerStep, hh] at hstep hs
    cases hstep
    -- the round is a new one, and all threads wait
    refine ⟨fun hne => absurd rfl (hne x), List.getLast?_concat, sent_parked (s := s) hi hs.1,
      fun y hy => (hd.sends y hy).append x, fun a c hslot => ?_⟩
    obtain ⟨y, hsent, hof, haddr⟩ := hd.cache a c hslot
    exact ⟨y, hsent, hof.append x, haddr⟩
  | setRequest y =>
    simp only [handlerStep, hh] at hstep hkept
    cases hstep
    exact ⟨fun _ => hkept.symm, trivial, hd.place, hd.sends, hd.cache⟩
  | unlock i | post i | drain i =>
    simp only [handlerStep, hh] at hstep
    split_ifs at hstep
    · cases hstep
      exact hd.of_handler hd.place rfl rfl rfl rfl (hset hh fun _ => by simp) trivial
    · cases hstep
      exact hd.of_handler hd.place rfl rfl rfl rfl (hset hh fun _ => by simp) trivial
  | probe i =>
    simp only [handlerStep, hh] at hstep
    split_ifs at hstep
    · cases hstep
      exact hd.of_handler hd.place rfl rfl rfl rfl (hset hh fun _ => by simp) trivial
    · cases hstep
      exact hd.of_handler hd.place rfl rfl rfl rfl (hset hh fun _ => by simp) trivial
    · cases hstep
      exact hd.of_handler hd.place rfl rfl rfl rfl (hset hh fun _ => by simp) trivial
  | probeUnlock i | clear =>
    simp only [handlerStep, hh] at hstep
    cases hstep
    exact hd.of_handler hd.place rfl rfl rfl rfl (hset hh fun _ => by simp) trivial
  | setGo =>
    simp only [handlerStep, hh] at hstep hs
    cases hstep
    refine hd.of_handler hd.place rfl rfl rfl rfl (hset hh fun _ => by simp) fun hpos => ?_
    exact absurd hs.2.fin hpos.ne'
  | waitFin =>
    simp only [handlerStep, hh] at hstep hkept
    split_ifs at hstep with hfin
    cases hstep
    exact hd.of_handler hd.place rfl rfl rfl rfl (hset hh fun _ => by simp) (hkept (by omega))
  | readID =>
    simp only [handlerStep, hh] at hstep hkept
    cases hstep
    exact hd.of_handler hd.place rfl rfl rfl rfl (hset hh fun _ => by simp) hkept
  | store r =>
    simp only [handlerStep, hh] at hstep hkept
    split_ifs at hstep
    · cases hstep
      exact hd.of_handler hd.place rfl rfl rfl rfl (hset hh fun _ => by simp) trivial
    · obtain ⟨y, hy, rfl⟩ := Option.map_eq_some_iff.mp hstep
      have hreq := hd.request (hset hh fun _ => by simp)
      refine ⟨fun _ => hreq, trivial, hd.place, hd.sends, fun a c hslot => ?_⟩
      dsimp only at hslot
      by_cases ha : a = y.quoteAddress
      · subst ha
        rw [Function.update_self] at hslot
        cases hslot
        obtain ⟨z, hsent, hcurrent⟩ := hkept
        obtain rfl : z = (s.taken.length, y) := by
          refine Prod.ext hcurrent.1 ?_
          have hlast := hcurrent.2
          rw [← hreq, hy] at hlast
          exact (Option.some.inj hlast).symm
        exact ⟨y, hsent, hcurrent.of, rfl⟩
      · rw [Function.update_of_ne ha] at hslot
        exact hd.cache a c hslot
  | collect i =>
    simp only [handlerStep, hh] at hstep
    split_ifs at hstep
    · cases hstep
      exact hd.of_handler hd.place rfl rfl rfl rfl (hset hh fun _ => by simp) trivial
    · cases hstep
      exact hd.of_handler hd.place rfl rfl rfl rfl (hset hh fun _ => by simp) trivial
  | ended =>
    simp only [handlerStep, hh] at hstep
    cases hstep

end

/-! ### Rounds -/

/-- Between two rounds both semaphores are 0 and no thread is in the middle of a request; every send was
    of the request of its round; and what is in a slot was received for the request of the round that it
    was stored in, which was for that slot. -/
structure Separate (n : ℕ) (s : State) : Prop where
  start : s.handler = .deq → s.quoteStart = 0 ∧ s.quoteFin = 0 ∧ ∀ t < n, (s.pc t).asking = false
  sends : ∀ x ∈ s.sends, Of s.taken x
  cache : ∀ a c, s.cache a = some c →
    ∃ x, c.reply.sent = some (c.round, x) ∧ Of s.taken (c.round, x) ∧ x.quoteAddress = a

theorem inv_initial (n : ℕ) : Inv n initial where
  sync := ⟨Nat.zero_le n, fun t ht => absurd ht (Nat.not_lt_zero t), fun _ _ => rfl, rfl, rfl⟩
  off _ _ := rfl
  busy _ := rfl
  go := rfl

theorem data_initial : Data initial where
  request _ := rfl
  kept := trivial
  place _ := trivial
  sends x hx := by cases hx
  cache a c hslot := by cases hslot

theorem rounds_do_not_mix {n : ℕ} {before : Char} {es : List Event} {s : State}
    (hrun : exec (step n before) initial es = some s)
    (hok : Along (step n before) Answers initial es) : Separate n s := by
  have hstep : ∀ s e s', Inv n s ∧ Data s → Answers s e → step n before s e = some s' →
      Inv n s' ∧ Data s' := by
    rintro s (x | ⟨t, net⟩) s' ⟨hi, hd⟩ hanswers hstep
    · exact ⟨hi.handler hstep, hd.handler hi hstep⟩
    · exact ⟨hi.thread hstep, hd.thread hi hanswers hstep⟩
  obtain ⟨hi, hd⟩ := exec_inv_along hstep es initial s ⟨inv_initial n, data_initial⟩ hok hrun
  refine ⟨fun hdeq => ?_, hd.sends, hd.cache⟩
  have hsync := hi.sync
  rw [hdeq] at hsync
  exact ⟨hsync.2.2, hsync.2.1, fun t ht => by rw [hsync.1 t ht]; rfl⟩

/-! ### A reply of no bytes -/

def quoteABC : Request := ⟨"ABC,aaaaaaaaaa\r\n".toList, 0⟩
def quoteABB : Request := ⟨"ABB,aaaaaaaaaa\r\n".toList, 1⟩

def replyABC : List Char := "10.00,ABC,aaaaaaaaaa,1,key\n".toList
def replyABB : List Char := "20.00,ABB,aaaaaaaaaa,2,key\n".toList

def threadSteps (t k : ℕ) : List Event := List.replicate k (.thread t none)

def handlerSteps (x : Request) (k : ℕ) : List Event := List.replicate k (.handler x)

/-- The threads are created one after the other. -/
def beginRounds (x : Request) : List Event :=
  (List.range maxRequests).flatMap (fun i => .handler x :: threadSteps i 4 ++ handlerSteps x 2) ++
    handlerSteps x 2

/-- A round in which the first thread gets these bytes and the others cannot connect. -/
def aRound (x : Request) (bytes : List Char) : List Event :=
  handlerSteps x (2 * maxRequests + 4) ++
    (List.range maxRequests).flatMap (threadSteps · 2) ++ handlerSteps x (maxRequests + 3) ++
    .thread 0 none :: List.replicate 2 (.thread 0 (some [])) ++ .thread 0 (some bytes) ::
    threadSteps 0 6 ++ (List.range' 1 (maxRequests - 1)).flatMap (threadSteps · 4) ++
    handlerSteps x (2 * maxRequests + 6)

theorem rounds_do_not_mix_two : ∃ s,
    exec (step maxRequests nul) initial
      (beginRounds quoteABC ++ aRound quoteABC replyABC ++ aRound quoteABB replyABB) = some s ∧
    Separate maxRequests s := by
  have hrun : (exec (step maxRequests nul) initial
      (beginRounds quoteABC ++ aRound quoteABC replyABC ++ aRound quoteABB replyABB)).isSome := by
    decide +kernel
  obtain ⟨s, hs⟩ := Option.isSome_iff_exists.mp hrun
  exact ⟨s, hs, rounds_do_not_mix hs (by decide +kernel)⟩

/-- The quote server closes the connection of the second round, and the reply of the first is stored for
    its request. -/
theorem closed_stores_stale : ∃ s,
    exec (step maxRequests nul) initial
      (beginRounds quoteABC ++ aRound quoteABC replyABC ++ aRound quoteABB []) = some s ∧
    (s.cache 1).map (fun c => (c.round, c.reply.reply, c.reply.sent)) =
      some (2, "10.00,ABC,aaaaaaaaaa,1,key".toList, some (1, quoteABC)) ∧ ¬ Separate maxRequests s := by
  have hrun : (exec (step maxRequests nul) initial
      (beginRounds quoteABC ++ aRound quoteABC replyABC ++ aRound quoteABB [])).map
        (fun s => (s.cache 1).map fun c => (c.round, c.reply.reply, c.reply.sent)) =
      some (some (2, "10.00,ABC,aaaaaaaaaa,1,key".toList, some (1, quoteABC))) := by decide +kernel
  obtain ⟨s, hs, hslot⟩ := Option.map_eq_some_iff.mp hrun
  refine ⟨s, hs, hslot, fun hsep => ?_⟩
  obtain ⟨c, hc, heq⟩ := Option.map_eq_some_iff.mp hslot
  obtain ⟨x, hsent, -⟩ := hsep.cache 1 c hc
  simp only [Prod.mk.injEq] at heq
  rw [heq.2.2, heq.1] at hsent
  exact absurd hsent (by simp)

end TradeC.LoadBalancer
