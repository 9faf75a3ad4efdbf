import TradeC.Locks
import TradeC.Lib.Run
import TradeC.Lib.Threads

/-! A trigger is consumed once.

    `Inv` is what holds as long as one thread at a time is at the ring (`Exclusive`). That thread is
    the owner of the stock's mutex, as long as every trylock of the sweep finds the user's mutex
    free: after a failed trylock the sweep goes on with the mutex given back. -/

namespace TradeC.Locks
open Run Threads

/-! ### What a place holds -/

namespace Pc

/-- Between a lock and an unlock of the stock's mutex. -/
def holdsStock : Pc → Bool
  | .first | .leave | .move _ _ | .moveUnlock _ _ | .free _ => true
  | .remTest _ _ | .remRing _ _ _ | .addTest _ _ | .addRing _ _ _ => true
  | _ => false

/-- Where the loop comes to with the stock's mutex, but after a failed trylock without it. -/
def atLoop : Pc → Bool
  | .fetch | .advance | .user | .tryLock _ _ | .failUnlock | .gotUnlock _ _ | .check | .done => true
  | .fault => true
  | _ => false

/-- At the ring of the stock. -/
def owns (p : Pc) : Bool := p.holdsStock || p.atLoop

/-- The user whose mutex the thread holds. -/
def holdsUser : Pc → Option UserIx
  | .gotUnlock u _ | .examine u _ | .pay u _ | .moveLock u _ | .move u _ | .moveUnlock u _ => some u
  | .relock u | .free u => some u
  | .remLock u _ | .remTest u _ | .remRing u _ _ | .clear u _ => some u
  | .command u | .addLock u _ | .addTest u _ | .addRing u _ _ | .setSlot u _ | .finish u => some u
  | _ => none

/-- The trigger that the thread deals with, whose user's mutex it holds. -/
def deals : Pc → Option TrigIx
  | .gotUnlock _ t | .examine _ t | .pay _ t | .moveLock _ t | .move _ t | .moveUnlock _ t => some t
  | .remLock _ t | .remTest _ t | .remRing _ t _ | .clear _ t => some t
  | .addLock _ n | .addTest _ n | .addRing _ n _ | .setSlot _ n => some n
  | _ => none

/-- It is in the ring. -/
def has : Pc → Option TrigIx
  | .gotUnlock _ t | .examine _ t | .pay _ t | .moveLock _ t | .move _ t | .moveUnlock _ t => some t
  | .remLock _ t | .remTest _ t | .addRing _ t _ | .setSlot _ t => some t
  | _ => none

/-- It is not in the ring. -/
def lacks : Pc → Option TrigIx
  | .remRing _ t _ | .clear _ t | .addLock _ t | .addTest _ t => some t
  | _ => none

/-- It is in its slot. -/
def keeps : Pc → Option TrigIx
  | .gotUnlock _ t | .examine _ t | .pay _ t | .moveLock _ t | .move _ t | .moveUnlock _ t => some t
  | .remLock _ t | .remTest _ t | .remRing _ t _ | .clear _ t => some t
  | _ => none

/-- It is new. -/
def adds : Pc → Option TrigIx
  | .addLock _ n | .addTest _ n | .addRing _ n _ | .setSlot _ n => some n
  | _ => none

/-- It is new, and in the ring. -/
def links : Pc → Option TrigIx
  | .addRing _ n _ | .setSlot _ n => some n
  | _ => none

/-- It has been taken out of the ring. -/
def removes : Pc → Option TrigIx
  | .remRing _ t _ | .clear _ t => some t
  | _ => none

/-- It has been cancelled or fired. -/
def consumes : Pc → Option TrigIx
  | .moveLock _ t | .move _ t | .moveUnlock _ t => some t
  | .remLock _ t | .remTest _ t | .remRing _ t _ | .clear _ t => some t
  | _ => none

/-- What is still to be done of a change of the ring. -/
def todo : Pc → Option (List (Ring.Stmt TrigIx))
  | .remRing _ _ todo | .addRing _ _ todo => some todo
  | _ => none

end Pc

/-! ### What a step does to what its thread holds -/

namespace Op

def Users (op : Op) (held held' : Option UserIx) : Prop :=
  match op with
  | .lockUser u => held = none ∧ held' = some u
  | .unlockUser u => held = some u ∧ held' = none
  | _ => held' = held

def Stock (op : Op) (held held' : Bool) : Prop :=
  match op with
  | .lockStock => held = false ∧ held' = true
  | .unlockStock => held = true ∧ held' = false
  | _ => held' = held

def Todo (r : Ring TrigIx) (op : Op) (todo todo' : Option (List (Ring.Stmt TrigIx))) : Prop :=
  match op with
  | .link n => todo = none ∧ todo' = some (r.insertStmts n)
  | .unlink t => todo = none ∧ todo' = some (r.unlinkStmts t)
  | .ring st => ∃ rest, todo = some (st :: rest) ∧ todo' = some rest
  | .unlockStock => (todo = none ∨ todo = some []) ∧ todo' = none
  | _ => todo = none ∧ todo' = none

/-- The ring after an operation. -/
def list (l : List TrigIx) : Op → List TrigIx
  | .link n => l ++ [n]
  | .unlink t => l.erase t
  | .advance => l.tail ++ l.head?.toList
  | _ => l

end Op

section Act
variable {ι : Type*} {s : State ι} {e : Event ι} {p p' : Pc} {op : Op} {t : TrigIx}

/-- A thread turns to a trigger, by the trylock of its user or by `getTrigger`. -/
def Turns (s : State ι) (p : Pc) (op : Op) (t : TrigIx) : Prop :=
  (∃ u, p = .tryLock u t ∧ op = .lockUser u) ∨
    ∃ u ty, p = .command u ∧ s.slot u ty = some t ∧ op = .refund t

/-- A thread makes a trigger. -/
def Makes (s : State ι) (p : Pc) (op : Op) (t : TrigIx) : Prop :=
  t = s.fresh ∧ ∃ u ty prc, p = .command u ∧ s.slot u ty = none ∧ op = .alloc ⟨u, ty, prc, 0⟩

variable (h : act s e p = some (op, p'))
include h

theorem act_users : op.Users p.holdsUser p'.holdsUser := by
  revert h
  fun_cases act s e p <;> intro h <;> cases h <;> simp [Op.Users, Pc.holdsUser]

theorem act_todo : op.Todo s.ring p.todo p'.todo := by
  revert h
  fun_cases act s e p <;> intro h <;> cases h <;> simp [Op.Todo, Pc.todo]

theorem act_deals (ht : p'.deals = some t) : p.deals = some t ∨ Turns s p op t ∨ Makes s p op t := by
  revert h
  fun_cases act s e p <;> intro h <;> cases h <;> simp_all [Pc.deals, Turns, Makes]
  exact ⟨_, ‹_›⟩

theorem act_has (ht : p'.has = some t) :
    (p.has = some t ∧ ∀ t', op ≠ .unlink t') ∨ op = .link t ∨ Turns s p op t := by
  revert h
  fun_cases act s e p <;> intro h <;> cases h <;> simp_all [Pc.has, Turns]
  exact ⟨_, ‹_›⟩

theorem act_lacks (ht : p'.lacks = some t) :
    (p.lacks = some t ∧ ∀ n, op ≠ .link n) ∨ op = .unlink t ∨ Makes s p op t := by
  revert h
  fun_cases act s e p <;> intro h <;> cases h <;> simp_all [Pc.lacks, Makes]

theorem act_keeps (ht : p'.keeps = some t) :
    (p.keeps = some t ∧ (∀ n, op ≠ .setSlot n) ∧ ∀ t', op ≠ .clearSlot t') ∨ Turns s p op t := by
  revert h
  fun_cases act s e p <;> intro h <;> cases h <;> simp_all [Pc.keeps, Turns]
  exact ⟨_, ‹_›⟩

theorem act_adds (ht : p'.adds = some t) :
    (p.adds = some t ∧ (∀ n, op ≠ .setSlot n) ∧ ∀ t', op ≠ .clearSlot t') ∨ Makes s p op t := by
  revert h
  fun_cases act s e p <;> intro h <;> cases h <;> simp_all [Pc.adds, Makes]

theorem act_links (ht : p.links = some t) : p'.links = some t ∨ op = .setSlot t := by
  revert h
  fun_cases act s e p <;> intro h <;> cases h <;> simp_all [Pc.links]

theorem act_removes (ht : p.removes = some t) : p'.removes = some t ∨ op = .clearSlot t := by
  revert h
  fun_cases act s e p <;> intro h <;> cases h <;> simp_all [Pc.removes]

theorem act_consumes (ht : p.consumes = some t) :
    (p'.consumes = some t ∧ (∀ t', op ≠ .fire t') ∧ ∀ t', op ≠ .refund t') ∨ op = .clearSlot t := by
  revert h
  fun_cases act s e p <;> intro h <;> cases h <;> simp_all [Pc.consumes]

theorem act_consumed (ht : p'.consumes = some t) :
    p.consumes = some t ∨ (p.consumes = none ∧ (op = .fire t ∨ op = .refund t)) := by
  revert h
  fun_cases act s e p <;> intro h <;> cases h <;> simp_all [Pc.consumes]

/-! Which operation a thread does where. -/

theorem act_link (hop : op = .link t) :
    p.adds = some t ∧ p.lacks = some t ∧ p'.links = some t ∧ p.owns := by
  revert h
  fun_cases act s e p <;> intro h <;> cases h <;>
    simp_all [Pc.adds, Pc.lacks, Pc.links, Pc.owns, Pc.holdsStock]

theorem act_unlink (hop : op = .unlink t) :
    p.has = some t ∧ p.keeps = some t ∧ p'.removes = some t ∧ p.owns := by
  revert h
  fun_cases act s e p <;> intro h <;> cases h <;>
    simp_all [Pc.has, Pc.keeps, Pc.removes, Pc.owns, Pc.holdsStock]

theorem act_setSlot (hop : op = .setSlot t) : p.adds = some t ∧ p.has = some t ∧ p'.deals = none := by
  revert h
  fun_cases act s e p <;> intro h <;> cases h <;> simp_all [Pc.adds, Pc.has, Pc.deals]

theorem act_clearSlot (hop : op = .clearSlot t) :
    p.keeps = some t ∧ p.lacks = some t ∧ p.consumes = some t ∧ p'.deals = none := by
  revert h
  fun_cases act s e p <;> intro h <;> cases h <;>
    simp_all [Pc.keeps, Pc.lacks, Pc.consumes, Pc.deals]

theorem act_advance (hop : op = .advance) : p = .advance ∧ p' = .user ∧ s.ring.curr ≠ none := by
  revert h
  fun_cases act s e p <;> intro h <;> cases h <;> simp_all

theorem act_fetch (hop : op = .fetch) : p = .fetch ∧ p' = .advance := by
  revert h
  fun_cases act s e p <;> intro h <;> cases h <;> simp_all

theorem act_fire (hop : op = .fire t) :
    p.deals = some t ∧ p.consumes = none ∧ p'.consumes = some t := by
  revert h
  fun_cases act s e p <;> intro h <;> cases h <;> simp_all [Pc.deals, Pc.consumes]

theorem act_refund (hop : op = .refund t) : p.consumes = none ∧ p'.consumes = some t ∧
    Turns s p op t := by
  revert h
  fun_cases act s e p <;> intro h <;> cases h <;> simp_all [Pc.consumes, Turns]
  exact ⟨_, ‹_›⟩

end Act

namespace Pc
variable {p : Pc} {t : TrigIx}

theorem deals_of_has (h : p.has = some t) : p.deals = some t := by
  cases p <;> simp_all [has, deals]

theorem deals_of_lacks (h : p.lacks = some t) : p.deals = some t := by
  cases p <;> simp_all [lacks, deals]

theorem deals_of_keeps (h : p.keeps = some t) : p.deals = some t := by
  cases p <;> simp_all [keeps, deals]

theorem deals_of_adds (h : p.adds = some t) : p.deals = some t := by
  cases p <;> simp_all [adds, deals]

theorem adds_of_links (h : p.links = some t) : p.adds = some t := by
  cases p <;> simp_all [links, adds]

theorem keeps_of_removes (h : p.removes = some t) : p.keeps = some t := by
  cases p <;> simp_all [removes, keeps]

theorem keeps_of_consumes (h : p.consumes = some t) : p.keeps = some t := by
  cases p <;> simp_all [consumes, keeps]

theorem holdsUser_of_deals (h : p.deals = some t) : p.holdsUser ≠ none := by
  cases p <;> simp_all [deals, holdsUser]

theorem owns_of_todo (h : p.todo ≠ none) : p.owns := by
  cases p <;> simp_all [todo, owns, holdsStock]

end Pc

/-! ### What an operation does -/

namespace Op
variable {ι : Type*} (s : State ι) (i : Option ι)

def stockBusy : Op → Option (Option ι)
  | .lockStock => some i
  | .unlockStock => none
  | _ => s.stockBusy

def busy (u : UserIx) : Op → Option (Option ι)
  | .lockUser u' => if u = u' then some i else s.busy u
  | .unlockUser u' => if u = u' then none else s.busy u
  | _ => s.busy u

def slot (u : UserIx) (ty : TType) : Op → Option TrigIx
  | .setSlot n => if (s.obj n).userObj = u ∧ (s.obj n).type = ty then some n else s.slot u ty
  | .clearSlot t => if (s.obj t).userObj = u ∧ (s.obj t).type = ty then none else s.slot u ty
  | _ => s.slot u ty

def ptrs : Op → Ring TrigIx
  | .ring st => s.ring.exec st
  | .advance => s.ring.advance
  | _ => s.ring

def cTrigger : Op → Option TrigIx
  | .fetch => s.ring.curr
  | _ => s.cTrigger

def fresh : Op → TrigIx
  | .alloc _ => s.fresh + 1
  | _ => s.fresh

/-- How often the operation cancels or fires `t`. -/
def uses (t : TrigIx) : Op → ℕ
  | .fire t' => if t = t' then 1 else 0
  | .refund t' => if t = t' then 1 else 0
  | _ => 0

variable {op : Op} {t : TrigIx}

theorem uses_eq_one (h : op = .fire t ∨ op = .refund t) : op.uses t = 1 := by
  rcases h with rfl | rfl <;> simp [uses]

theorem uses_eq_zero (h : ¬ (op = .fire t ∨ op = .refund t)) : op.uses t = 0 := by
  cases op <;> simp_all [uses, eq_comm]

end Op

section Run
variable {ι : Type*} {s s₁ : State ι} {i : Option ι} {op : Op} (h : s.run i op = some s₁)
include h

theorem run_pc : s₁.pc = s.pc := by
  revert h
  fun_cases State.run s i op <;> intro h <;> cases h <;> rfl

theorem run_stockBusy : s₁.stockBusy = op.stockBusy s i := by
  revert h
  fun_cases State.run s i op <;> intro h <;> cases h <;> rfl

theorem run_busy (u : UserIx) : s₁.busy u = op.busy s i u := by
  revert h
  fun_cases State.run s i op <;> intro h <;> cases h <;>
    simp [Function.update_apply, Op.busy, State.setSlot]

theorem run_slot (u : UserIx) (ty : TType) : s₁.slot u ty = op.slot s u ty := by
  revert h
  fun_cases State.run s i op <;> intro h <;> cases h <;>
    simp only [Op.slot, State.setSlot, Function.update_apply]
  all_goals split_ifs <;> simp_all [eq_comm]

theorem run_ring : s₁.ring = op.ptrs s := by
  revert h
  fun_cases State.run s i op <;> intro h <;> cases h <;> rfl

theorem run_cTrigger : s₁.cTrigger = op.cTrigger s := by
  revert h
  fun_cases State.run s i op <;> intro h <;> cases h <;> rfl

theorem run_fresh : s₁.fresh = op.fresh s := by
  revert h
  fun_cases State.run s i op <;> intro h <;> cases h <;> rfl

/-- The user and the type of a trigger stay. -/
theorem run_obj {t : TrigIx} (ht : t < s.fresh) :
    (s₁.obj t).userObj = (s.obj t).userObj ∧ (s₁.obj t).type = (s.obj t).type := by
  revert h
  fun_cases State.run s i op <;> intro h <;> cases h <;>
    simp only [State.setSlot, Function.update_apply, and_self]
  · simp [ht.ne]
  · split_ifs <;> simp_all

theorem run_alloc {tr : Trig} (hop : op = .alloc tr) : s₁.obj s.fresh = tr := by
  subst hop
  cases h
  simp

theorem run_freed (t : TrigIx) : s₁.freed t = true ↔ s.freed t = true ∨ op = .clearSlot t := by
  revert h
  fun_cases State.run s i op <;> intro h <;> cases h <;>
    simp only [State.setSlot, Function.update_apply, reduceCtorEq, or_false]
  rename_i t'
  by_cases ht : t = t'
  · simp [ht]
  · simp [ht, Ne.symm ht]

theorem run_cancelled (t : TrigIx) :
    s₁.cancelled t = true ↔ s.cancelled t = true ∨ (op = .unlink t ∧ i ≠ none) := by
  revert h
  fun_cases State.run s i op <;> intro h <;> cases h <;>
    simp_all [State.setSlot, Function.update_apply]
  grind

theorem run_uses (t : TrigIx) : s₁.cancels t + s₁.fires t = s.cancels t + s.fires t + op.uses t := by
  revert h
  fun_cases State.run s i op <;> intro h <;> cases h <;>
    simp only [State.setSlot, Function.update_apply, Op.uses, add_zero]
  all_goals (split_ifs <;> simp_all; omega)

theorem run_lockUser {u : UserIx} (hop : op = .lockUser u) : s.busy u = none := by
  subst hop
  simp only [State.run, Option.ite_none_right_eq_some] at h
  exact h.1

theorem run_lockStock (hop : op = .lockStock) : s.stockBusy = none := by
  subst hop
  simp only [State.run, Option.ite_none_right_eq_some] at h
  exact h.1

end Run

/-! ### The invariant -/

section
variable {ι : Type*}

/-- What the places of the sweep rely on before it has locked a user. -/
def Pc.Loop (s : State ι) (l : List TrigIx) : Pc → Prop
  | .fetch => s.ring.curr ≠ none
  | .advance => s.cTrigger = s.ring.curr ∧ s.ring.curr ≠ none
  | .user => ∃ t ∈ l, s.cTrigger = some t
  | .tryLock u t => t ∈ l ∧ (s.obj t).userObj = u
  | .fault => False
  | _ => True

/-- One thread at a time is at the ring. -/
def Exclusive (s : State ι) : Prop := ∀ i j, (s.pc i).owns → (s.pc j).owns → i = j

/-- Freed, or on its way to it. -/
def Gone (s : State ι) (t : TrigIx) : Prop := s.freed t ∨ ∃ i, (s.pc i).consumes = some t

/-- `l` is the ring from its cursor on, once the change that a thread is in the middle of is done. -/
structure Inv (s : State ι) (l : List TrigIx) : Prop where
  users : ∀ u, Guards s.pc (fun p => p.holdsUser = some u) (s.busy u)
  pending : ∀ i todo, (s.pc i).todo = some todo → (todo.foldl Ring.exec s.ring).Shows l
  shows : (∀ i, (s.pc i).todo = none) → s.ring.Shows l
  linked : ∀ t ∈ l, t < s.fresh ∧ s.freed t = false
  listed : ∀ t ∈ l, s.slot (s.obj t).userObj (s.obj t).type = some t ∨ ∃ i, (s.pc i).links = some t
  slots : ∀ u ty t, s.slot u ty = some t → t < s.fresh ∧ s.freed t = false ∧
    (s.obj t).userObj = u ∧ (s.obj t).type = ty ∧ (t ∈ l ∨ ∃ i, (s.pc i).removes = some t)
  deals : ∀ i t, (s.pc i).deals = some t → t < s.fresh ∧ s.freed t = false ∧
    (s.pc i).holdsUser = some (s.obj t).userObj
  has : ∀ i t, (s.pc i).has = some t → t ∈ l
  lacks : ∀ i t, (s.pc i).lacks = some t → t ∉ l
  keeps : ∀ i t, (s.pc i).keeps = some t → s.slot (s.obj t).userObj (s.obj t).type = some t
  adds : ∀ i t, (s.pc i).adds = some t → s.slot (s.obj t).userObj (s.obj t).type = none
  loop : ∀ i, (s.pc i).Loop s l
  freed : ∀ t, s.freed t → t < s.fresh
  cancelled : ∀ t, s.cancelled t → t ∉ l ∧ t < s.fresh ∧
    (s.freed t ∨ ∃ i, i ≠ none ∧ (s.pc i).removes = some t)
  used : ∀ t, Gone s t → s.cancels t + s.fires t = 1
  unused : ∀ t, ¬ Gone s t → s.cancels t + s.fires t = 0

namespace Inv
variable {s : State ι} {l : List TrigIx} (hi : Inv s l) {i j : Option ι}
include hi

/-- Two threads deal with triggers of different users. -/
theorem same_thread {a b : TrigIx} (ha : (s.pc i).deals = some a) (hb : (s.pc j).deals = some b)
    (hu : (s.obj a).userObj = (s.obj b).userObj) : i = j :=
  (hi.users _).excl (hi.deals i a ha).2.2 (hu ▸ (hi.deals j b hb).2.2)

theorem shows_of_owns (hx : Exclusive s) (howns : (s.pc i).owns) (htodo : (s.pc i).todo = none) :
    s.ring.Shows l := hi.shows fun j => by
  by_contra hne
  obtain rfl := hx i j howns (Pc.owns_of_todo hne)
  exact hne htodo

theorem nodup : l.Nodup := by
  by_cases hnone : ∀ i, (s.pc i).todo = none
  · exact (hi.shows hnone).nodup
  · obtain ⟨i, hne⟩ := not_forall.mp hnone
    obtain ⟨todo, htodo⟩ := Option.ne_none_iff_exists'.mp hne
    exact (hi.pending i todo htodo).nodup

end Inv

/-! ### One step -/

theorem mem_of_mem_list {op : Op} {l : List TrigIx} {t : TrigIx} (ht : t ∈ op.list l) :
    t ∈ l ∨ op = .link t := by
  cases op with
  | link n => simpa [Op.list, eq_comm] using ht
  | unlink t' => exact .inl (List.mem_of_mem_erase ht)
  | advance =>
    cases l with
    | nil => simp [Op.list] at ht
    | cons c l => exact .inl (by simpa [Op.list, or_comm] using ht)
  | _ => exact .inl ht

theorem mem_list_of_mem {op : Op} {l : List TrigIx} {t : TrigIx} (ht : t ∈ l) :
    t ∈ op.list l ∨ op = .unlink t := by
  cases op with
  | link n => exact .inl (List.mem_append_left _ ht)
  | unlink t' =>
    by_cases h : t = t'
    · exact .inr (by rw [h])
    · exact .inl ((List.mem_erase_of_ne h).mpr ht)
  | advance =>
    cases l with
    | nil => simp at ht
    | cons c l => exact .inl (by simpa [Op.list, or_comm] using ht)
  | _ => exact .inl ht

section Step
set_option linter.unusedSectionVars false
variable [DecidableEq ι] {s s₁ : State ι} {l : List TrigIx} {e : Event ι} {op : Op} {p' : Pc}
  (hi : Inv s l) (hx : Exclusive s) (hact : act s e (s.pc e.thread) = some (op, p'))
  (hrun : s.run e.thread op = some s₁)
include hi hact hrun

theorem step_users (u : UserIx) :
    Guards (Function.update s.pc e.thread p') (fun p => p.holdsUser = some u) (s₁.busy u) := by
  have htable := act_users hact
  have hg := hi.users u
  rw [run_busy hrun]
  cases op with
  | lockUser u' =>
    obtain ⟨hnone, hsome⟩ := htable
    by_cases hu : u = u'
    · subst hu
      rw [run_lockUser hrun rfl] at hg
      simpa [Op.busy] using hg.lock hsome
    · simpa [Op.busy, hu] using hg.skip (by simp [hnone, hsome, Ne.symm hu])
  | unlockUser u' =>
    obtain ⟨hsome, hnone⟩ := htable
    by_cases hu : u = u'
    · subst hu
      simpa [Op.busy] using hg.unlock hsome (by simp [hnone])
    · simpa [Op.busy, hu] using hg.skip (by simp [hnone, hsome, Ne.symm hu])
  | _ => exact hg.skip (by rw [show p'.holdsUser = _ from htable])

/-- What a thread turns to is linked, in its slot, and its user's mutex is the thread's. -/
theorem turns_spec {t : TrigIx} (ht : Turns s (s.pc e.thread) op t) :
    t < s.fresh ∧ s.freed t = false ∧ t ∈ l ∧ s.slot (s.obj t).userObj (s.obj t).type = some t ∧
      p'.holdsUser = some (s.obj t).userObj := by
  have htable := act_users hact
  rcases ht with ⟨u, hp, rfl⟩ | ⟨u, ty, hp, hslot, rfl⟩
  · have hloop := hi.loop e.thread
    rw [hp] at hloop
    obtain ⟨hmem, hu⟩ := hloop
    obtain ⟨hlt, hfreed⟩ := hi.linked t hmem
    refine ⟨hlt, hfreed, hmem, (hi.listed t hmem).resolve_right ?_, by rw [htable.2, hu]⟩
    rintro ⟨j, hj⟩
    have hheld := (hi.deals j t (Pc.deals_of_adds (Pc.adds_of_links hj))).2.2
    have hg := hi.users u
    rw [run_lockUser hrun rfl] at hg
    exact hg.free j (hu ▸ hheld)
  · obtain ⟨hlt, hfreed, rfl, rfl, hmem⟩ := hi.slots u ty t hslot
    refine ⟨hlt, hfreed, hmem.resolve_right ?_, hslot, ?_⟩
    · rintro ⟨j, hj⟩
      have hheld := (hi.deals j t (Pc.deals_of_keeps (Pc.keeps_of_removes hj))).2.2
      obtain rfl := (hi.users _).excl hheld
        (show (s.pc e.thread).holdsUser = some (s.obj t).userObj by rw [hp]; rfl)
      rw [hp] at hj
      simp [Pc.removes] at hj
    · rw [show p'.holdsUser = _ from htable, hp]
      rfl

/-- Nobody else deals with the trigger of an operation. -/
theorem other_ne {a b : TrigIx} {j : Option ι} (hj : j ≠ e.thread)
    (ha : (s.pc e.thread).deals = some a) (hb : (s.pc j).deals = some b) :
    (s.obj b).userObj ≠ (s.obj a).userObj := fun hu => hj (hi.same_thread hb ha hu)

include hx in
theorem step_pending (j : Option ι) (todo : List (Ring.Stmt TrigIx))
    (hj : (Function.update s.pc e.thread p' j).todo = some todo) :
    (todo.foldl Ring.exec s₁.ring).Shows (op.list l) := by
  have htable := act_todo hact
  rw [run_ring hrun]
  by_cases hth : j = e.thread
  · subst hth
    rw [Function.update_self] at hj
    cases op with
    | link n =>
      obtain ⟨hnone, hsome⟩ := htable
      obtain ⟨hadds, hlacks, _, howns⟩ := act_link hact rfl
      have hshows := hi.shows_of_owns hx howns hnone
      have hn : n ∉ l := hi.lacks _ _ hlacks
      have hcurr : s.ring.curr ≠ some n := fun h => by
        rw [hshows.curr] at h
        exact hn (List.mem_of_mem_head? h)
      obtain rfl : _ = todo := Option.some.inj (hsome.symm.trans hj)
      simp only [Op.ptrs, Op.list]
      rw [Ring.exec_insertStmts _ hcurr]
      exact Ring.shows_insert hshows hn
    | unlink t =>
      obtain ⟨hnone, hsome⟩ := htable
      obtain ⟨hhas, _, _, howns⟩ := act_unlink hact rfl
      have hshows := hi.shows_of_owns hx howns hnone
      obtain rfl : _ = todo := Option.some.inj (hsome.symm.trans hj)
      simp only [Op.ptrs, Op.list]
      rw [Ring.exec_unlinkStmts]
      exact Ring.shows_unlink hshows (hi.has _ _ hhas)
    | ring st =>
      obtain ⟨rest, hold, hnew⟩ := htable
      obtain rfl : rest = todo := Option.some.inj (hnew.symm.trans hj)
      exact hi.pending _ _ hold
    | unlockStock => simp [htable.2] at hj
    | _ => simp [show p'.todo = none from htable.2] at hj
  · rw [Function.update_of_ne hth] at hj
    have hown : ¬ (s.pc e.thread).owns := fun howns =>
      hth (hx j e.thread (Pc.owns_of_todo (by simp [hj])) howns)
    have hpend := hi.pending j todo hj
    cases op with
    | link n => exact absurd (act_link hact rfl).2.2.2 hown
    | unlink t => exact absurd (act_unlink hact rfl).2.2.2 hown
    | ring st =>
      obtain ⟨rest, hold, _⟩ := htable
      exact absurd (Pc.owns_of_todo (by simp [hold])) hown
    | advance =>
      rw [(act_advance hact rfl).1] at hown
      exact absurd rfl hown
    | _ => exact hpend

include hx in
theorem step_shows (hall : ∀ j, (Function.update s.pc e.thread p' j).todo = none) :
    s₁.ring.Shows (op.list l) := by
  have htable := act_todo hact
  have hnew := hall e.thread
  rw [Function.update_self] at hnew
  rw [run_ring hrun]
  have hwhole : (s.pc e.thread).todo = none → s.ring.Shows l := fun hnone =>
    hi.shows fun j => by
      by_cases hth : j = e.thread
      · rw [hth, hnone]
      · simpa [Function.update_of_ne hth] using hall j
  cases op with
  | link n => simp [htable.2] at hnew
  | unlink t => simp [htable.2] at hnew
  | ring st =>
    obtain ⟨rest, hold, hrest⟩ := htable
    simp [hrest] at hnew
  | unlockStock =>
    rcases htable.1 with hnone | hnil
    · exact hwhole hnone
    · exact hi.pending _ _ hnil
  | advance =>
    have hshows := hwhole htable.1
    match l, hshows with
    | [], hshows => exact absurd hshows.curr (act_advance hact rfl).2.2
    | c :: l, hshows => exact Ring.shows_advance hshows
  | _ => exact hwhole htable.1

theorem step_linked (t : TrigIx) (ht : t ∈ op.list l) : t < s₁.fresh ∧ s₁.freed t = false := by
  have hle : s.fresh ≤ s₁.fresh := by
    rw [run_fresh hrun]
    cases op <;> simp [Op.fresh]
  rw [← Bool.not_eq_true, run_freed hrun]
  rcases mem_of_mem_list ht with hmem | rfl
  · obtain ⟨hlt, hfreed⟩ := hi.linked t hmem
    refine ⟨hlt.trans_le hle, ?_⟩
    rintro (h | hop)
    · simp [hfreed] at h
    · exact hi.lacks _ _ (act_clearSlot hact hop).2.1 hmem
  · obtain ⟨hlt, hfreed, _⟩ := hi.deals _ _ (Pc.deals_of_adds (act_link hact rfl).1)
    exact ⟨hlt.trans_le hle, by simp [hfreed]⟩

/-- The slot of a trigger's key changes only in the hands of the thread that deals with the key's
    user. -/
theorem slot_other {u : UserIx} {ty : TType}
    (hne : ∀ t, (s.pc e.thread).deals = some t → (s.obj t).userObj ≠ u) :
    s₁.slot u ty = s.slot u ty := by
  rw [run_slot hrun]
  cases op with
  | setSlot n =>
    have hn := hne n (Pc.deals_of_adds (act_setSlot hact rfl).1)
    simp [Op.slot, hn]
  | clearSlot t =>
    have ht := hne t (Pc.deals_of_keeps (act_clearSlot hact rfl).1)
    simp [Op.slot, ht]
  | _ => rfl

theorem slot_same {u : UserIx} {ty : TType} (hset : ∀ n, op ≠ .setSlot n)
    (hclear : ∀ t, op ≠ .clearSlot t) : s₁.slot u ty = s.slot u ty := by
  rw [run_slot hrun]
  cases op with
  | setSlot n => exact absurd rfl (hset n)
  | clearSlot t => exact absurd rfl (hclear t)
  | _ => rfl

theorem step_deals (j : Option ι) (t : TrigIx)
    (hj : (Function.update s.pc e.thread p' j).deals = some t) :
    t < s₁.fresh ∧ s₁.freed t = false ∧
      (Function.update s.pc e.thread p' j).holdsUser = some (s₁.obj t).userObj := by
  have hle : s.fresh ≤ s₁.fresh := by
    rw [run_fresh hrun]
    cases op <;> simp [Op.fresh]
  rw [← Bool.not_eq_true, run_freed hrun]
  by_cases hth : j = e.thread
  · subst hth
    rw [Function.update_self] at hj ⊢
    have hclear : ¬ op = .clearSlot t := fun hop => by
      simp [(act_clearSlot hact hop).2.2.2] at hj
    rcases act_deals hact hj with hold | hturns | ⟨rfl, u, ty, prc, hp, _, rfl⟩
    · obtain ⟨hlt, hfreed, hheld⟩ := hi.deals _ _ hold
      refine ⟨hlt.trans_le hle, by simp [hfreed, hclear], ?_⟩
      rw [(run_obj hrun hlt).1, ← hheld]
      have htable := act_users hact
      cases op with
      | lockUser u => simp [htable.1] at hheld
      | unlockUser u => exact absurd htable.2 (Pc.holdsUser_of_deals hj)
      | _ => exact htable
    · obtain ⟨hlt, hfreed, _, _, hheld⟩ := turns_spec hi hact hrun hturns
      exact ⟨hlt.trans_le hle, by simp [hfreed, hclear], by rw [(run_obj hrun hlt).1, hheld]⟩
    · refine ⟨by simp [run_fresh hrun, Op.fresh], ?_, ?_⟩
      · simpa using fun h => lt_irrefl _ (hi.freed _ h)
      · rw [run_alloc hrun rfl, show p'.holdsUser = _ from act_users hact, hp]
        rfl
  · rw [Function.update_of_ne hth] at hj ⊢
    obtain ⟨hlt, hfreed, hheld⟩ := hi.deals j t hj
    refine ⟨hlt.trans_le hle, ?_, by rw [(run_obj hrun hlt).1, hheld]⟩
    rintro (h | hop)
    · simp [hfreed] at h
    · have hdeals := Pc.deals_of_keeps (act_clearSlot hact hop).1
      exact other_ne hi hact hrun hth hdeals hj rfl

theorem step_has (j : Option ι) (t : TrigIx)
    (hj : (Function.update s.pc e.thread p' j).has = some t) : t ∈ op.list l := by
  by_cases hth : j = e.thread
  · subst hth
    rw [Function.update_self] at hj
    rcases act_has hact hj with ⟨hold, hop⟩ | rfl | hturns
    · exact (mem_list_of_mem (hi.has _ _ hold)).resolve_right (hop t)
    · simp [Op.list]
    · refine (mem_list_of_mem (turns_spec hi hact hrun hturns).2.2.1).resolve_right ?_
      rcases hturns with ⟨_, _, rfl⟩ | ⟨_, _, _, _, rfl⟩ <;> simp
  · rw [Function.update_of_ne hth] at hj
    refine (mem_list_of_mem (hi.has j t hj)).resolve_right fun hop => ?_
    have hdeals := Pc.deals_of_has (act_unlink hact hop).1
    exact other_ne hi hact hrun hth hdeals (Pc.deals_of_has hj) rfl

theorem step_lacks (j : Option ι) (t : TrigIx)
    (hj : (Function.update s.pc e.thread p' j).lacks = some t) : t ∉ op.list l := by
  intro hmem
  by_cases hth : j = e.thread
  · subst hth
    rw [Function.update_self] at hj
    rcases act_lacks hact hj with ⟨hold, hop⟩ | rfl | ⟨rfl, u, ty, prc, _, _, rfl⟩
    · exact hi.lacks _ _ hold ((mem_of_mem_list hmem).resolve_right (hop t))
    · exact hi.nodup.not_mem_erase hmem
    · exact lt_irrefl _ (hi.linked _ hmem).1
  · rw [Function.update_of_ne hth] at hj
    rcases mem_of_mem_list hmem with hold | hop
    · exact hi.lacks j t hj hold
    · have hdeals := Pc.deals_of_adds (act_link hact hop).1
      exact other_ne hi hact hrun hth hdeals (Pc.deals_of_lacks hj) rfl

theorem step_keeps (j : Option ι) (t : TrigIx)
    (hj : (Function.update s.pc e.thread p' j).keeps = some t) :
    s₁.slot (s₁.obj t).userObj (s₁.obj t).type = some t := by
  by_cases hth : j = e.thread
  · subst hth
    rw [Function.update_self] at hj
    rcases act_keeps hact hj with ⟨hold, hset, hclear⟩ | hturns
    · obtain ⟨hlt, _⟩ := hi.deals _ _ (Pc.deals_of_keeps hold)
      rw [(run_obj hrun hlt).1, (run_obj hrun hlt).2, slot_same hi hact hrun hset hclear]
      exact hi.keeps _ _ hold
    · obtain ⟨hlt, _, _, hslot, _⟩ := turns_spec hi hact hrun hturns
      rw [(run_obj hrun hlt).1, (run_obj hrun hlt).2, slot_same hi hact hrun, hslot]
      all_goals rcases hturns with ⟨_, _, rfl⟩ | ⟨_, _, _, _, rfl⟩ <;> simp
  · rw [Function.update_of_ne hth] at hj
    obtain ⟨hlt, _⟩ := hi.deals _ _ (Pc.deals_of_keeps hj)
    rw [(run_obj hrun hlt).1, (run_obj hrun hlt).2, slot_other hi hact hrun]
    · exact hi.keeps j t hj
    · exact fun t' ht' => (other_ne hi hact hrun hth ht' (Pc.deals_of_keeps hj)).symm

theorem step_adds (j : Option ι) (t : TrigIx)
    (hj : (Function.update s.pc e.thread p' j).adds = some t) :
    s₁.slot (s₁.obj t).userObj (s₁.obj t).type = none := by
  by_cases hth : j = e.thread
  · subst hth
    rw [Function.update_self] at hj
    rcases act_adds hact hj with ⟨hold, hset, hclear⟩ | ⟨rfl, u, ty, prc, _, hslot, rfl⟩
    · obtain ⟨hlt, _⟩ := hi.deals _ _ (Pc.deals_of_adds hold)
      rw [(run_obj hrun hlt).1, (run_obj hrun hlt).2, slot_same hi hact hrun hset hclear]
      exact hi.adds _ _ hold
    · rw [run_alloc hrun rfl, slot_same hi hact hrun (by simp) (by simp)]
      exact hslot
  · rw [Function.update_of_ne hth] at hj
    obtain ⟨hlt, _⟩ := hi.deals _ _ (Pc.deals_of_adds hj)
    rw [(run_obj hrun hlt).1, (run_obj hrun hlt).2, slot_other hi hact hrun]
    · exact hi.adds j t hj
    · exact fun t' ht' => (other_ne hi hact hrun hth ht' (Pc.deals_of_adds hj)).symm

theorem step_listed (t : TrigIx) (ht : t ∈ op.list l) :
    s₁.slot (s₁.obj t).userObj (s₁.obj t).type = some t ∨
      ∃ j, (Function.update s.pc e.thread p' j).links = some t := by
  rcases mem_of_mem_list ht with hmem | rfl
  · obtain ⟨hlt, hfreed⟩ := hi.linked t hmem
    rw [(run_obj hrun hlt).1, (run_obj hrun hlt).2]
    rcases hi.listed t hmem with hslot | ⟨j, hj⟩
    · left
      rw [run_slot hrun]
      cases op with
      | setSlot n =>
        obtain ⟨hadds, _, _⟩ := act_setSlot hact rfl
        rw [Op.slot, if_neg, hslot]
        rintro ⟨hu, hty⟩
        simp [← hu, ← hty, hi.adds _ _ hadds] at hslot
      | clearSlot t' =>
        obtain ⟨hkeeps, hlacks, _⟩ := act_clearSlot hact rfl
        rw [Op.slot, if_neg, hslot]
        rintro ⟨hu, hty⟩
        rw [← hu, ← hty, hi.keeps _ _ hkeeps, Option.some.injEq] at hslot
        exact hi.lacks _ _ hlacks (hslot ▸ hmem)
      | _ => exact hslot
    · by_cases hth : j = e.thread
      · subst hth
        rcases act_links hact hj with hnew | rfl
        · exact .inr ⟨e.thread, by rw [Function.update_self, hnew]⟩
        · exact .inl (by simp [run_slot hrun, Op.slot])
      · exact .inr ⟨j, by rw [Function.update_of_ne hth, hj]⟩
  · exact .inr ⟨e.thread, by rw [Function.update_self, (act_link hact rfl).2.2.1]⟩

theorem step_slots (u : UserIx) (ty : TType) (t : TrigIx) (hslot : s₁.slot u ty = some t) :
    t < s₁.fresh ∧ s₁.freed t = false ∧ (s₁.obj t).userObj = u ∧ (s₁.obj t).type = ty ∧
      (t ∈ op.list l ∨ ∃ j, (Function.update s.pc e.thread p' j).removes = some t) := by
  have hle : s.fresh ≤ s₁.fresh := by
    rw [run_fresh hrun]
    cases op <;> simp [Op.fresh]
  have hold : s.slot u ty = some t → op ≠ .clearSlot t →
      t < s₁.fresh ∧ s₁.freed t = false ∧ (s₁.obj t).userObj = u ∧ (s₁.obj t).type = ty ∧
        (t ∈ op.list l ∨ ∃ j, (Function.update s.pc e.thread p' j).removes = some t) := by
    intro hslot hop
    obtain ⟨hlt, hfreed, hu, hty, hmem⟩ := hi.slots u ty t hslot
    refine ⟨hlt.trans_le hle, ?_, by rw [(run_obj hrun hlt).1, hu],
      by rw [(run_obj hrun hlt).2, hty], ?_⟩
    · rw [← Bool.not_eq_true, run_freed hrun]
      simp [hfreed, hop]
    · rcases hmem with hmem | ⟨j, hj⟩
      · rcases mem_list_of_mem hmem with h | hun
        · exact .inl h
        · exact .inr ⟨e.thread, by rw [Function.update_self, (act_unlink hact hun).2.2.1]⟩
      · by_cases hth : j = e.thread
        · subst hth
          rcases act_removes hact hj with hnew | h
          · exact .inr ⟨e.thread, by rw [Function.update_self, hnew]⟩
          · exact absurd h hop
        · exact .inr ⟨j, by rw [Function.update_of_ne hth, hj]⟩
  rw [run_slot hrun] at hslot
  cases op with
  | setSlot n =>
    obtain ⟨hadds, hhas, _⟩ := act_setSlot hact rfl
    by_cases hkey : (s.obj n).userObj = u ∧ (s.obj n).type = ty
    · obtain rfl : n = t := by simpa [Op.slot, hkey] using hslot
      obtain ⟨hlt, hfreed, _⟩ := hi.deals _ _ (Pc.deals_of_adds hadds)
      refine ⟨hlt.trans_le hle, ?_, by rw [(run_obj hrun hlt).1, hkey.1],
        by rw [(run_obj hrun hlt).2, hkey.2], .inl (hi.has _ _ hhas)⟩
      rw [← Bool.not_eq_true, run_freed hrun]
      simp [hfreed]
    · exact hold (by simpa [Op.slot, hkey] using hslot) (by simp)
  | clearSlot t' =>
    obtain ⟨hkeeps, _, _⟩ := act_clearSlot hact rfl
    by_cases hkey : (s.obj t').userObj = u ∧ (s.obj t').type = ty
    · simp [Op.slot, hkey] at hslot
    · rw [Op.slot, if_neg hkey] at hslot
      refine hold hslot fun hop => hkey ?_
      obtain rfl : t' = t := by simpa using hop
      obtain ⟨_, _, hu, hty, _⟩ := hi.slots u ty _ hslot
      exact ⟨hu, hty⟩
  | _ => exact hold hslot (by simp)

/-- A thread that is not at the ring leaves it alone. -/
theorem away (hown : ¬ (s.pc e.thread).owns) :
    op.list l = l ∧ s₁.ring = s.ring ∧ s₁.cTrigger = s.cTrigger := by
  have htable := act_todo hact
  rw [run_ring hrun, run_cTrigger hrun]
  cases op with
  | link n => exact absurd (act_link hact rfl).2.2.2 hown
  | unlink t => exact absurd (act_unlink hact rfl).2.2.2 hown
  | ring st =>
    obtain ⟨rest, hold, _⟩ := htable
    exact absurd (Pc.owns_of_todo (by simp [hold])) hown
  | advance =>
    rw [(act_advance hact rfl).1] at hown
    exact absurd rfl hown
  | fetch =>
    rw [(act_fetch hact rfl).1] at hown
    exact absurd rfl hown
  | _ => exact ⟨rfl, rfl, rfl⟩

include hx in
theorem step_loop_self : p'.Loop s₁ (op.list l) := by
  have hloop := hi.loop e.thread
  have hshows := hi.shows_of_owns hx (i := e.thread)
  have hring := run_ring hrun
  have hc := run_cTrigger hrun
  revert hact hloop hshows hring hc hrun
  fun_cases act s e (s.pc e.thread) <;>
    (intro hact hrun hloop hshows hring hc; cases hact) <;> try trivial
  case case3 hcurr =>
    change s₁.ring.curr ≠ none
    rw [hring]
    exact (not_or.mp hcurr).1
  case case5 => exact ⟨by rw [hc, hring]; rfl, by rw [hring]; exact hloop⟩
  case case6 hcurr => exact hloop.2 hcurr
  case case7 c hcurr =>
    have hl := hshows rfl rfl
    match l, hl with
    | [], hl => exact absurd hl.curr hloop.2
    | c' :: l, hl =>
      refine ⟨c', by simp [Op.list], ?_⟩
      rw [hc]
      exact hloop.1.trans hl.curr
  case case8 hnone =>
    obtain ⟨t, _, hsome⟩ := hloop
    simp [hnone] at hsome
  case case9 t hsome =>
    obtain ⟨t', hmem, h⟩ := hloop
    obtain rfl : t' = t := Option.some.inj (h.symm.trans hsome)
    exact ⟨hmem, by cases hrun; rfl⟩
  case case22 hcurr =>
    change s₁.ring.curr ≠ none
    rw [hring]
    exact hcurr.1

include hx in
theorem step_loop (j : Option ι) : (Function.update s.pc e.thread p' j).Loop s₁ (op.list l) := by
  by_cases hth : j = e.thread
  · rw [hth, Function.update_self]
    exact step_loop_self hi hx hact hrun
  rw [Function.update_of_ne hth]
  have hloop := hi.loop j
  by_cases hown : (s.pc j).owns
  · obtain ⟨hl, hring, hc⟩ := away hi hact hrun fun h => hth (hx j e.thread hown h)
    rw [hl]
    revert hloop
    cases hp : s.pc j with
    | tryLock u t =>
      rintro ⟨hmem, hu⟩
      exact ⟨hmem, by rw [(run_obj hrun (hi.linked t hmem).1).1, hu]⟩
    | _ => simp only [Pc.Loop, hring, hc, imp_self]
  · revert hloop hown
    cases s.pc j <;> simp [Pc.Loop, Pc.owns, Pc.atLoop]

theorem step_freed (t : TrigIx) (ht : s₁.freed t) : t < s₁.fresh := by
  have hle : s.fresh ≤ s₁.fresh := by
    rw [run_fresh hrun]
    cases op <;> simp [Op.fresh]
  rcases (run_freed hrun t).mp ht with h | hop
  · exact (hi.freed t h).trans_le hle
  · have hdeals := Pc.deals_of_keeps (act_clearSlot hact hop).1
    exact (hi.deals _ _ hdeals).1.trans_le hle

theorem step_cancelled (t : TrigIx) (ht : s₁.cancelled t) :
    t ∉ op.list l ∧ t < s₁.fresh ∧ (s₁.freed t ∨
      ∃ j, j ≠ none ∧ (Function.update s.pc e.thread p' j).removes = some t) := by
  have hle : s.fresh ≤ s₁.fresh := by
    rw [run_fresh hrun]
    cases op <;> simp [Op.fresh]
  rcases (run_cancelled hrun t).mp ht with h | ⟨hop, hth⟩
  · obtain ⟨hmem, hlt, hgone⟩ := hi.cancelled t h
    refine ⟨fun hnew => ?_, hlt.trans_le hle, ?_⟩
    · rcases mem_of_mem_list hnew with hold | hop
      · exact hmem hold
      · obtain ⟨hadds, _, _⟩ := act_link hact hop
        obtain ⟨_, hfreed, hheld⟩ := hi.deals _ _ (Pc.deals_of_adds hadds)
        rcases hgone with hgone | ⟨j, _, hj⟩
        · simp [hfreed] at hgone
        · have hkeeps := hi.keeps _ _ (Pc.keeps_of_removes hj)
          simp [hi.adds _ _ hadds] at hkeeps
    · rcases hgone with hgone | ⟨j, hnone, hj⟩
      · exact .inl ((run_freed hrun t).mpr (.inl hgone))
      · by_cases hjth : j = e.thread
        · subst hjth
          rcases act_removes hact hj with hnew | hop
          · exact .inr ⟨e.thread, hnone, by rw [Function.update_self, hnew]⟩
          · exact .inl ((run_freed hrun t).mpr (.inr hop))
        · exact .inr ⟨j, hnone, by rw [Function.update_of_ne hjth, hj]⟩
  · obtain ⟨hhas, _, hremoves, _⟩ := act_unlink hact hop
    subst hop
    refine ⟨hi.nodup.not_mem_erase, ?_, .inr ⟨e.thread, hth, by rw [Function.update_self, hremoves]⟩⟩
    exact (hi.deals _ _ (Pc.deals_of_has hhas)).1.trans_le hle

theorem step_gone (t : TrigIx) : Gone (s₁.goto e.thread p') t ↔
    Gone s t ∨ op = .fire t ∨ op = .refund t := by
  have hpc : (s₁.goto e.thread p').pc = Function.update s.pc e.thread p' := by
    simp [State.goto, run_pc hrun]
  have hfreed : (s₁.goto e.thread p').freed = s₁.freed := rfl
  rw [Gone, hpc, hfreed, run_freed hrun]
  constructor
  · rintro ((h | hop) | ⟨j, hj⟩)
    · exact .inl (.inl h)
    · exact .inl (.inr ⟨_, (act_clearSlot hact hop).2.2.1⟩)
    · by_cases hth : j = e.thread
      · rw [hth, Function.update_self] at hj
        rcases act_consumed hact hj with hold | ⟨_, hop⟩
        · exact .inl (.inr ⟨_, hold⟩)
        · exact .inr hop
      · rw [Function.update_of_ne hth] at hj
        exact .inl (.inr ⟨j, hj⟩)
  · rintro ((h | ⟨j, hj⟩) | hop | hop)
    · exact .inl (.inl h)
    · by_cases hth : j = e.thread
      · subst hth
        rcases act_consumes hact hj with ⟨hnew, _⟩ | hop
        · exact .inr ⟨e.thread, by rw [Function.update_self, hnew]⟩
        · exact .inl (.inr hop)
      · exact .inr ⟨j, by rw [Function.update_of_ne hth, hj]⟩
    · exact .inr ⟨e.thread, by rw [Function.update_self, (act_fire hact hop).2.2]⟩
    · exact .inr ⟨e.thread, by rw [Function.update_self, (act_refund hact hop).2.1]⟩

/-- What is cancelled or fired has been neither before. -/
theorem not_gone {t : TrigIx} (hop : op = .fire t ∨ op = .refund t) : ¬ Gone s t := by
  have hspec : s.freed t = false ∧ (s.pc e.thread).consumes = none ∧
      (s.pc e.thread).holdsUser = some (s.obj t).userObj := by
    rcases hop with hop | hop
    · obtain ⟨hdeals, hnone, _⟩ := act_fire hact hop
      obtain ⟨_, hfreed, hheld⟩ := hi.deals _ _ hdeals
      exact ⟨hfreed, hnone, hheld⟩
    · obtain ⟨hnone, _, hturns⟩ := act_refund hact hop
      obtain ⟨_, hfreed, _, _, hheld⟩ := turns_spec hi hact hrun hturns
      have htable := act_users hact
      rw [hop] at htable
      exact ⟨hfreed, hnone, htable ▸ hheld⟩
  obtain ⟨hfreed, hnone, hheld⟩ := hspec
  rintro (h | ⟨j, hj⟩)
  · simp [hfreed] at h
  · have hdeals := Pc.deals_of_keeps (Pc.keeps_of_consumes hj)
    obtain rfl := (hi.users _).excl (hi.deals _ _ hdeals).2.2 hheld
    simp [hnone] at hj

theorem step_used (t : TrigIx) (ht : Gone (s₁.goto e.thread p') t) :
    s₁.cancels t + s₁.fires t = 1 := by
  rw [run_uses hrun]
  rcases (step_gone hi hact hrun t).mp ht with hold | hop
  · rw [hi.used t hold, Op.uses_eq_zero fun hop => not_gone hi hact hrun hop hold]
  · rw [hi.unused t (not_gone hi hact hrun hop), Op.uses_eq_one hop]

theorem step_unused (t : TrigIx) (ht : ¬ Gone (s₁.goto e.thread p') t) :
    s₁.cancels t + s₁.fires t = 0 := by
  rw [step_gone hi hact hrun, not_or] at ht
  rw [run_uses hrun, hi.unused t ht.1, Op.uses_eq_zero ht.2]

include hx in
theorem inv_step : Inv (s₁.goto e.thread p') (op.list l) := by
  have hpc : (s₁.goto e.thread p').pc = Function.update s.pc e.thread p' := by
    simp [State.goto, run_pc hrun]
  constructor
  case users => exact fun u => hpc ▸ (step_users hi hact hrun u :)
  case pending => exact hpc ▸ (step_pending hi hx hact hrun :)
  case shows => exact hpc ▸ (step_shows hi hx hact hrun :)
  case linked => exact (step_linked hi hact hrun :)
  case listed => exact hpc ▸ (step_listed hi hact hrun :)
  case slots => exact hpc ▸ (step_slots hi hact hrun :)
  case deals => exact hpc ▸ (step_deals hi hact hrun :)
  case has => exact hpc ▸ (step_has hi hact hrun :)
  case lacks => exact hpc ▸ (step_lacks hi hact hrun :)
  case keeps => exact hpc ▸ (step_keeps hi hact hrun :)
  case adds => exact hpc ▸ (step_adds hi hact hrun :)
  case loop =>
    rw [hpc]
    intro j
    have hloop := step_loop hi hx hact hrun j
    revert hloop
    cases Function.update s.pc e.thread p' j <;> exact id
  case freed => exact (step_freed hi hact hrun :)
  case cancelled => exact hpc ▸ (step_cancelled hi hact hrun :)
  case used => exact step_used hi hact hrun
  case unused => exact step_unused hi hact hrun

end Step

theorem init_pc [DecidableEq ι] (i : Option ι) : (init : State ι).pc i = .lock ∨ init.pc i = .idle := by
  cases i with
  | none => exact .inl rfl
  | some _ => exact .inr rfl

/-- At the start no thread holds anything. -/
theorem init_place [DecidableEq ι] {α : Type*} {f : Pc → Option α} (hlock : f .lock = none)
    (hidle : f .idle = none) (i : Option ι) : f (init.pc i) = none := by
  rcases init_pc i with h | h <;> simp [h, hlock, hidle]

theorem inv_init [DecidableEq ι] : Inv (init : State ι) [] where
  users u := .none fun i => by simp [init_place (f := Pc.holdsUser) rfl rfl]
  pending i todo h := by simp [init_place (f := Pc.todo) rfl rfl] at h
  shows _ := rfl
  linked t h := by simp at h
  listed t h := by simp at h
  slots u ty t h := by simp [init] at h
  deals i t h := by simp [init_place (f := Pc.deals) rfl rfl] at h
  has i t h := by simp [init_place (f := Pc.has) rfl rfl] at h
  lacks i t h := by simp
  keeps i t h := by simp [init_place (f := Pc.keeps) rfl rfl] at h
  adds i t h := by simp [init_place (f := Pc.adds) rfl rfl] at h
  loop i := by rcases init_pc i with h | h <;> simp [h, Pc.Loop]
  freed t h := by simp [init] at h
  cancelled t h := by simp [init] at h
  used t h := by
    rcases h with h | ⟨i, h⟩
    · simp [init] at h
    · simp [init_place (f := Pc.consumes) rfl rfl] at h
  unused t h := by simp [init]

/-! ### The mutex of the stock -/

/-- The user whose mutex the sweep tries. -/
def Pc.tries : Pc → Option UserIx
  | .tryLock u _ => some u
  | _ => none

/-- A trylock of the sweep finds the mutex free. -/
def TryFree (s : State ι) (e : Event ι) : Prop := ∀ u ∈ (s.pc e.thread).tries, s.busy u = none

instance decTryFree [DecidableEq ι] (s : State ι) (e : Event ι) : Decidable (TryFree s e) :=
  inferInstanceAs (Decidable (∀ u ∈ (s.pc e.thread).tries, s.busy u = none))

/-- The mutex is held where the ring is touched. -/
structure Mutex (s : State ι) : Prop where
  guards : Guards s.pc (fun p => p.owns) s.stockBusy
  tried : ∀ i, s.pc i ≠ .failUnlock

theorem Mutex.exclusive {s : State ι} (hm : Mutex s) : Exclusive s := fun _ _ => hm.guards.excl

section Step
variable {s s₁ : State ι} {e : Event ι} {op : Op} {p p' : Pc}

theorem act_owns (hact : act s e p = some (op, p')) (htry : ∀ u ∈ p.tries, s.busy u = none)
    (hp : p ≠ .failUnlock) : p' ≠ .failUnlock ∧ op.Stock p.owns p'.owns := by
  revert hact
  fun_cases act s e p <;> intro hact <;> cases hact <;>
    simp_all [Op.Stock, Pc.owns, Pc.holdsStock, Pc.atLoop, Pc.tries]

variable [DecidableEq ι]

theorem mutex_step (hm : Mutex s) (hact : act s e (s.pc e.thread) = some (op, p'))
    (hrun : s.run e.thread op = some s₁) (htry : TryFree s e) : Mutex (s₁.goto e.thread p') := by
  obtain ⟨hfail, htable⟩ := act_owns hact htry (hm.tried _)
  have hpc : (s₁.goto e.thread p').pc = Function.update s.pc e.thread p' := by
    simp [State.goto, run_pc hrun]
  have hbusy : (s₁.goto e.thread p').stockBusy = op.stockBusy s e.thread :=
    (run_stockBusy hrun :)
  refine ⟨?_, fun i => ?_⟩
  · rw [hpc, hbusy]
    have hg := hm.guards
    cases op with
    | lockStock =>
      rw [run_lockStock hrun rfl] at hg
      exact hg.lock htable.2
    | unlockStock => exact hg.unlock htable.1 (by simp [htable.2])
    | _ => exact hg.skip (by rw [show p'.owns = _ from htable])
  · rw [hpc]
    by_cases hth : i = e.thread
    · rwa [hth, Function.update_self]
    · rw [Function.update_of_ne hth]
      exact hm.tried i

theorem mutex_init : Mutex (init : State ι) where
  guards := .none fun i => by rcases init_pc i with h | h <;> rw [h] <;> decide
  tried i := by rcases init_pc i with h | h <;> rw [h] <;> decide

/-- Both invariants, along a run whose trylocks succeed. -/
theorem exec_consume {es : List (Event ι)} (hal : Along step TryFree init es)
    (hex : exec step init es = some s) : Mutex s ∧ ∃ l, Inv s l := by
  have hstep : ∀ (s : State ι) e s', (Mutex s ∧ ∃ l, Inv s l) → TryFree s e → step s e = some s' →
      Mutex s' ∧ ∃ l, Inv s' l := by
    rintro s e s' ⟨hm, l, hi⟩ htry hs
    obtain ⟨⟨op, p'⟩, hact, hs⟩ := Option.bind_eq_some_iff.mp hs
    obtain ⟨s₁, hrun, rfl⟩ := Option.map_eq_some_iff.mp hs
    exact ⟨mutex_step hm hact hrun htry, _, inv_step hi hm.exclusive hact hrun⟩
  exact exec_inv_along hstep es init s ⟨mutex_init, [], inv_init⟩ hal hex

end Step

/-! ### The contract -/

/-- Where `trigger_handler` reads or writes the pointers of the ring. -/
def Pc.touches : Pc → Bool
  | .first | .fetch | .advance | .check | .move _ _ | .remTest _ _ | .remRing _ _ (_ :: _) => true
  | _ => false

theorem Pc.owns_of_touches {p : Pc} (h : p.touches) : p.owns := by
  revert h
  fun_cases touches p <;> simp_all [owns, holdsStock, atLoop]

/-- What is asked of `trigger_handler` in a state, and of the triggers there. -/
structure Safe [DecidableEq ι] (s : State ι) : Prop where
  ring : (s.pc none).touches → s.stockBusy = some none
  unlock : ∀ e p, e.thread = none → act s e (s.pc none) = some (.unlockStock, p) →
    s.stockBusy = some none
  unlinked : ∀ e p t op, e.thread = none → op = .examine t ∨ op = .fire t →
    act s e (s.pc none) = some (op, p) → s.cancelled t = false
  once : ∀ t, s.cancels t + s.fires t ≤ 1
  released : ∀ t, s.freed t → s.cancels t + s.fires t = 1

section
variable {s : State ι} {l : List TrigIx}

theorem act_unlock {e : Event ι} {p p' : Pc} {op : Op} (hact : act s e p = some (op, p'))
    (hop : op = .unlockStock) : p.owns := by
  revert hact
  fun_cases act s e p <;> intro hact <;> cases hact <;>
    simp_all [Pc.owns, Pc.holdsStock, Pc.atLoop]

theorem act_examine {e : Event ι} {p p' : Pc} {op : Op} {t : TrigIx}
    (hact : act s e p = some (op, p')) (hop : op = .examine t ∨ op = .fire t) : p.has = some t := by
  revert hact
  fun_cases act s e p <;> intro hact <;> cases hact <;> simp_all [Pc.has]

variable [DecidableEq ι]

theorem Inv.safe (hi : Inv s l) (hm : Mutex s) : Safe s where
  ring h := (hm.guards none).mpr (Pc.owns_of_touches h)
  unlock e p _ hact := (hm.guards none).mpr (act_unlock hact rfl)
  unlinked e p t op _ hop hact := by
    have hmem := hi.has none t (act_examine hact hop)
    rw [← Bool.not_eq_true]
    exact fun h => (hi.cancelled t h).1 hmem
  once t := by
    by_cases h : Gone s t
    · exact (hi.used t h).le
    · rw [hi.unused t h]
      exact Nat.zero_le 1
  released t h := hi.used t (.inl h)

/-- As long as every trylock of the sweep finds its user's mutex free, `trigger_handler` is at the
    ring with the stock's mutex only, and a trigger is cancelled or fired once. -/
theorem consumed_once {es : List (Event ι)} (hal : Along step TryFree init es)
    (hex : exec step init es = some s) : Safe s := by
  obtain ⟨hm, l, hi⟩ := exec_consume hal hex
  exact hi.safe hm

end

/-- The steps of one thread while it runs one command. -/
def steps (i : Option Bool) (u : UserIx) (c : Command) (n : ℕ) : List (Event Bool) :=
  List.replicate n ⟨i, u, c, 10, 5⟩

/-- A user sets a buy trigger; the sweep fires it. -/
def setAndFire : List (Event Bool) :=
  steps (some true) 1 (.setAmount .b 100) 10 ++ steps (some true) 1 (.setTrigger .b 50) 3 ++
    steps none 0 .other 24

theorem consumed_once_setAndFire : ∃ s, exec step init setAndFire = some s ∧ s.freed 0 = true ∧
    s.fires 0 = 1 ∧ Safe s := by
  have hrun : ∃ s ∈ exec step init setAndFire, s.freed 0 = true ∧ s.fires 0 = 1 := by decide
  obtain ⟨s, hs, hfreed, hfires⟩ := hrun
  exact ⟨s, hs, hfreed, hfires, consumed_once (by decide) hs⟩

/-- Two users' triggers. The trylock of the first one fails, the sweep goes on without the mutex of
    the stock and takes up the second one, which is cancelled before its user's mutex is tried. -/
def cancelInWindow : List (Event Bool) :=
  steps (some false) 0 (.setAmount .b 100) 10 ++ steps (some true) 1 (.setAmount .b 100) 11 ++
    steps (some true) 1 (.setTrigger .b 50) 3 ++ steps none 0 .other 5 ++
    steps (some false) 0 .other 1 ++ steps none 0 .other 6 ++
    steps (some true) 1 (.cancel .b) 12 ++ steps none 0 .other 4

/-- The trigger is cancelled and fired. -/
theorem cancelInWindow_fires_cancelled : ¬ ∀ (es : List (Event Bool)) s,
    exec step init es = some s → Safe s := by
  intro h
  have hrun : ∃ s ∈ exec step init cancelInWindow, s.cancels 1 + s.fires 1 = 2 := by decide
  obtain ⟨s, hs, htwice⟩ := hrun
  have honce := (h _ s hs).once 1
  omega

end

end TradeC.Locks
