import TradeC.Lines
import TradeC.Tokens
import Mathlib.Data.Fintype.Sum
import Mathlib.Data.List.ReduceOption

/-! The commands of a user are executed in the order of the file, one at a time.

    A line goes through the queue of its thread, the connection, the handler of the connection and the
    queue of its user. `Conserved` says that for each user the commands taken so far, and those at these
    places, and the lines still to be read, are the lines of the file, in this order. -/

namespace TradeC.Work
open Run Threads
open Workload (Taken)

/-! ### On the way to a queue -/

namespace Pc

/-- What the thread is about to put in a queue. -/
def carries : Pc → Option (UserIx × Message)
  | .newLock u m | .newLink u m | .newUnlock u m | .newFound u m | .newFree u m => some (u, m)
  | .enqLock u m | .enqFill u m => some (u, m)
  | _ => none

/-- The new user that `getUser` does not find yet. -/
def hides : Pc → Option UserIx
  | .newLock u _ | .newLink u _ | .newUnlock u _ | .newFound u _ => some u
  | _ => none

/-- The user for whom a command is executed, or a trigger fired. -/
def works : Pc → Option UserIx
  | .deqCount u _ | .deqUnlock u _ | .command u _ | .fire u => some u
  | _ => none

theorem holdsUser_of_works {p : Pc} {u : UserIx} (h : p.works = some u) : p.holdsUser = some u := by
  cases p <;> simp_all [works, holdsUser]

end Pc

def Message.taken (m : Message) : Taken := ⟨m.transID, m.userCmd, m.comm⟩

def CommElem.taken (el : CommElem) : Taken := ⟨el.transID, el.userCmd, el.comm⟩

def Pc.bears (u : UserIx) (p : Pc) : List Taken :=
  (p.carries.filter (·.1 = u)).toList.map (·.2.taken)

namespace State
variable {ι : Type*} (s : State ι)

/-- The commands in the queue of `u`. -/
def queuedFor (u : UserIx) : List Taken := (s.user u).commList.cells.dropLast.map CommElem.taken

/-- With the one that thread `i` is about to put there. -/
def waiting (i : ι) (u : UserIx) : List Taken := s.queuedFor u ++ (s.pc i).bears u

/-- What the next step of thread `i` takes out of the queue of `u`. -/
def takes (i : ι) (u : UserIx) : List Taken :=
  if s.pc i = .deqTake u then (s.user u).commList.element.toList.map CommElem.taken else []

end State

section Act
variable {ι : Type*} {s : State ι} {e : Event ι} {p p' : Pc} {op : Op}
  (h : act s e p = some (op, p'))
include h

theorem act_carries (hp : p ≠ .recv) : (p'.carries = p.carries ∧ ∀ u m, op ≠ .fill u m) ∨
    ∃ u m, op = .fill u m ∧ p.carries = some (u, m) ∧ p'.carries = none := by
  revert h
  fun_cases act s e p <;> intro h <;> cases h <;> simp_all [Pc.carries]

theorem act_takes : (∃ u, p = .deqTake u ∧ op = .take u) ∨ ((∀ u, op ≠ .take u) ∧
    ∀ u, p = .deqTake u → (s.user u).commList.element = none) := by
  revert h
  fun_cases act s e p <;> intro h <;> cases h <;> simp_all

theorem act_create (hop : op = .create) : p = .recv := by
  revert h
  fun_cases act s e p <;> intro h <;> cases h <;> simp_all

theorem act_hides {u : UserIx} (hu : p.hides = some u) : p'.hides = some u ∨ op = .found u := by
  revert h
  fun_cases act s e p <;> intro h <;> cases h <;> simp_all [Pc.hides]

end Act

/-- The queue of `u` after an operation. -/
def Op.queuedFor {ι : Type*} (s : State ι) (u : UserIx) : Op → List Taken
  | .create => if u = s.fresh then [] else s.queuedFor u
  | .fill u' m => if u = u' then s.queuedFor u ++ [m.taken] else s.queuedFor u
  | .take u' => if u = u' then (s.queuedFor u).tail else s.queuedFor u
  | _ => s.queuedFor u

theorem step_cases {ι : Type*} [DecidableEq ι] {s s' : State ι} {e : Event ι}
    (h : step s e = some s') : ∃ op p' s₁, act s e (s.pc e.thread) = some (op, p') ∧
      s.run e.thread op = some s₁ ∧ s' = { s₁ with pc := Function.update s.pc e.thread p' } := by
  obtain ⟨⟨op, p'⟩, hact, h⟩ := Option.bind_eq_some_iff.mp h
  obtain ⟨s₁, hrun, rfl⟩ := Option.map_eq_some_iff.mp h
  exact ⟨op, p', s₁, hact, hrun, by rw [State.goto, run_pc hrun]⟩

section Step
variable {ι : Type*} [Fintype ι] {s s₁ : State ι} {l : List UserIx} (hi : Inv s l) {i : ι} {u : UserIx}
  {op : Op}
include hi

/-- A command that is taken is the first of its queue. -/
theorem Inv.queuedFor_take (hsome : (s.user u).commList.element.isSome) : s.queuedFor u =
    (s.user u).commList.element.toList.map CommElem.taken ++ (s.queuedFor u).tail := by
  obtain ⟨filled, hcells, hsock, -⟩ := hi.cells u
  rw [State.queuedFor, CommQueue.element, hcells, List.dropLast_concat]
  cases filled with
  | nil => simp [CommQueue.element, hcells, CommElem.calloc] at hsome
  | cons el rest =>
    rw [List.cons_append, List.head?_cons, Option.filter_some, if_pos (hsock el List.mem_cons_self)]
    rfl

theorem Inv.run_queuedFor (hrun : s.run i op = some s₁)
    (htake : op = .take u → (s.user u).commList.element.isSome) :
    s₁.queuedFor u = op.queuedFor s u := by
  obtain ⟨filled, hcells, -, -⟩ := hi.cells u
  have hbefore : s.queuedFor u = filled.map CommElem.taken := by
    rw [State.queuedFor, hcells, List.dropLast_concat]
  rw [State.queuedFor, run_cells hrun u]
  cases op with
  | create =>
    simp only [Op.cells, Op.queuedFor, hbefore]
    split_ifs <;> simp [hcells]
  | fill u' m =>
    simp only [Op.cells, Op.queuedFor, hbefore]
    split_ifs <;> simp [CommQueue.fill, hcells, CommElem.taken, Message.taken, CommElem.calloc]
  | take u' =>
    simp only [Op.cells, Op.queuedFor, hbefore]
    split_ifs with hu
    · subst hu
      have hsome := htake rfl
      cases filled with
      | nil => simp [CommQueue.element, hcells, CommElem.calloc] at hsome
      | cons el rest => rw [hcells, List.cons_append, List.tail_cons, List.dropLast_concat]; rfl
    · rw [hcells, List.dropLast_concat]
  | _ => simp only [Op.cells, Op.queuedFor, hbefore, hcells, List.dropLast_concat]

end Step

section Step
variable {ι : Type*} [DecidableEq ι] {s s' : State ι} {l : List UserIx} {e : Event ι}
  {i : ι} {u : UserIx}

/-! What a step leaves as it is. -/

theorem step_pc_other (h : step s e = some s') (hi : i ≠ e.thread) : s'.pc i = s.pc i := by
  obtain ⟨op, p', s₁, -, -, rfl⟩ := step_cases h
  exact Function.update_of_ne hi _ _

theorem step_fresh_le (h : step s e = some s') : s.fresh ≤ s'.fresh := by
  obtain ⟨op, p', s₁, -, hrun, rfl⟩ := step_cases h
  refine le_of_le_of_eq ?_ (run_fresh hrun).symm
  cases op with
  | create => exact Nat.le_succ _
  | _ => exact le_rfl

theorem step_uTree (h : step s e = some s') (hu : s.uTree u) : s'.uTree u := by
  obtain ⟨op, p', s₁, -, hrun, rfl⟩ := step_cases h
  exact (run_uTree hrun u).mpr (.inl hu)

theorem step_hides (h : step s e = some s') (hu : (s.pc i).hides = some u) :
    s'.uTree u ∨ (s'.pc i).hides = some u := by
  by_cases hie : i = e.thread
  · obtain ⟨op, p', s₁, hact, hrun, rfl⟩ := step_cases h
    rcases act_hides hact (hie ▸ hu) with hp | hop
    · exact .inr (by simpa [hie] using hp)
    · exact .inl ((run_uTree hrun u).mpr (.inr hop))
  · exact .inr (by rw [step_pc_other h hie, hu])

theorem step_carries {x : UserIx × Message} (h : step s e = some s') (hpast : s.pc e.thread ≠ .recv)
    (hx : (s'.pc i).carries = some x) : (s.pc i).carries = some x := by
  by_cases hie : i = e.thread
  · obtain ⟨op, p', s₁, hact, -, rfl⟩ := step_cases h
    simp only [hie, Function.update_self] at hx
    rcases act_carries hact hpast with ⟨hsame, -⟩ | ⟨u', m, -, -, hnone⟩
    · rw [hie, ← hsame, hx]
    · rw [hnone] at hx
      simp at hx
  · rw [← step_pc_other h hie, hx]

theorem step_recv (h : step s e = some s') (hrecv : s.pc e.thread = .recv) :
    ∃ op p' s₁, s.run e.thread op = some s₁ ∧
      s' = { s₁ with pc := Function.update s.pc e.thread p' } ∧
      ((∃ u, e.user = some u ∧ s.uTree u ∧ op = .skip ∧ p' = .enqLock u e.message) ∨
        (e.user = none ∧ op = .create ∧ p' = .newLock s.fresh e.message)) := by
  obtain ⟨op, p', s₁, hact, hrun, hs'⟩ := step_cases h
  refine ⟨op, p', s₁, hrun, hs', ?_⟩
  rw [hrecv] at hact
  simp only [act] at hact
  split at hact
  · rename_i u huser
    split_ifs at hact with hu
    cases hact
    exact .inl ⟨u, huser, hu, rfl, rfl⟩
  · rename_i huser
    cases hact
    exact .inr ⟨huser, rfl, rfl⟩

/-- The user for whom it takes a command is known, or made known. -/
theorem step_recv_user (h : step s e = some s') (hrecv : s.pc e.thread = .recv)
    (hu : u = e.user.getD s.fresh) : (s'.pc e.thread).carries = some (u, e.message) ∧
      (s'.uTree u ∨ (s'.pc e.thread).hides = some u) ∧ (e.user = none → u < s'.fresh) := by
  obtain ⟨op, p', s₁, hrun, rfl, hcase⟩ := step_recv h hrecv
  simp only [Function.update_self]
  rcases hcase with ⟨u', huser, htree, rfl, rfl⟩ | ⟨huser, rfl, rfl⟩
  · rw [huser, Option.getD_some] at hu
    exact ⟨hu ▸ rfl, .inl ((run_uTree hrun u).mpr (.inl (hu ▸ htree))), by simp [huser]⟩
  · rw [huser, Option.getD_none] at hu
    exact ⟨hu ▸ rfl, .inr (hu ▸ rfl), fun _ => hu ▸ (run_fresh hrun ▸ Nat.lt_succ_self _)⟩

variable [Fintype ι]

/-- Past `recv`, a command leaves the queue only as it is taken, and comes to it only from the thread
    that carries it. -/
theorem Inv.step_waiting (hi : Inv s l) (h : step s e = some s') (hpast : s.pc e.thread ≠ .recv)
    (hother : ∀ j, j ≠ i → (s.pc j).bears u = []) :
    s.waiting i u = s.takes e.thread u ++ s'.waiting i u := by
  obtain ⟨op, p', s₁, hact, hrun, rfl⟩ := step_cases h
  have htake : op = .take u → (s.user u).commList.element.isSome := fun hop => act_take hact hop
  have hqueue : s₁.queuedFor u = op.queuedFor s u := hi.run_queuedFor hrun htake
  have hafter : ({ s₁ with pc := Function.update s.pc e.thread p' } : State ι).waiting i u =
      op.queuedFor s u ++ (Function.update s.pc e.thread p' i).bears u := congrArg (· ++ _) hqueue
  have hbears : ∀ q, q.carries = (s.pc e.thread).carries →
      (Function.update s.pc e.thread q i).bears u = (s.pc i).bears u := by
    intro q hq
    by_cases hie : i = e.thread
    · rw [hie, Function.update_self, Pc.bears, hq, ← Pc.bears]
    · rw [Function.update_of_ne hie]
  rw [State.waiting, hafter]
  rcases act_carries hact hpast with ⟨hsame, hfill⟩ | ⟨u', m, rfl, hcarries, hnone⟩
  · rw [hbears p' hsame, State.takes, ← List.append_assoc]
    congr 1
    rcases act_takes hact with ⟨u', hp, rfl⟩ | ⟨hnot, hempty⟩
    · rw [hp]
      by_cases hu : u = u'
      · subst hu
        rw [if_pos rfl, Op.queuedFor, if_pos rfl]
        exact hi.queuedFor_take (htake rfl)
      · rw [if_neg (by simpa using Ne.symm hu), Op.queuedFor, if_neg hu, List.nil_append]
    · have htakes : (if s.pc e.thread = .deqTake u then
          (s.user u).commList.element.toList.map CommElem.taken else []) = [] := by
        split_ifs with hp
        · simp [hempty u hp]
        · rfl
      rw [htakes, List.nil_append]
      cases op with
      | create => exact absurd (act_create hact rfl) hpast
      | fill u' m => exact absurd rfl (hfill u' m)
      | take u' => exact absurd rfl (hnot u')
      | _ => rfl
  · have hp : s.takes e.thread u = [] := by
      rw [State.takes, if_neg]
      intro hp
      simp [hp, Pc.carries] at hcarries
    rw [hp, List.nil_append, Op.queuedFor]
    by_cases hu : u = u'
    · subst hu
      have hie : i = e.thread := by
        by_contra hie
        have hnil := hother e.thread (Ne.symm hie)
        simp [Pc.bears, hcarries] at hnil
      rw [if_pos rfl, hie, Function.update_self]
      simp [Pc.bears, hcarries, hnone]
    · rw [if_neg hu]
      congr 1
      by_cases hie : i = e.thread
      · rw [hie, Function.update_self]
        simp [Pc.bears, hcarries, hnone, Ne.symm hu]
      · rw [Function.update_of_ne hie]

/-- At `recv` a thread takes a command, for a user that it finds or for a new one. -/
theorem Inv.step_recv_self (hi : Inv s l) (h : step s e = some s') (hrecv : s.pc e.thread = .recv)
    (hu : u = e.user.getD s.fresh) :
    s'.waiting e.thread u = e.user.elim [] (s.waiting e.thread) ++ [e.message.taken] := by
  obtain ⟨op, p', s₁, hrun, rfl, hcase⟩ := step_recv h hrecv
  have hqueue : s₁.queuedFor u = op.queuedFor s u :=
    hi.run_queuedFor hrun (by rcases hcase with ⟨_, -, -, rfl, -⟩ | ⟨-, rfl, -⟩ <;> simp)
  have hafter : ({ s₁ with pc := Function.update s.pc e.thread p' } : State ι).waiting e.thread u =
      op.queuedFor s u ++ p'.bears u := by
    simp only [State.waiting, Function.update_self]
    exact congrArg (· ++ _) hqueue
  rw [hafter, hu]
  rcases hcase with ⟨u', huser, -, rfl, rfl⟩ | ⟨huser, rfl, rfl⟩ <;>
    simp [huser, hrecv, State.waiting, Op.queuedFor, Pc.bears, Pc.carries]

theorem Inv.step_recv_other (hi : Inv s l) (h : step s e = some s') (hrecv : s.pc e.thread = .recv)
    (hu : u ≠ e.user.getD s.fresh) : s'.waiting i u = s.waiting i u := by
  obtain ⟨op, p', s₁, hrun, rfl, hcase⟩ := step_recv h hrecv
  have hqueue : s₁.queuedFor u = op.queuedFor s u :=
    hi.run_queuedFor hrun (by rcases hcase with ⟨_, -, -, rfl, -⟩ | ⟨-, rfl, -⟩ <;> simp)
  have hsame : op.queuedFor s u = s.queuedFor u ∧ p'.bears u = (s.pc e.thread).bears u := by
    rw [hrecv]
    rcases hcase with ⟨u', huser, -, rfl, rfl⟩ | ⟨huser, rfl, rfl⟩
    · rw [huser, Option.getD_some] at hu
      exact ⟨rfl, by simp [Pc.bears, Pc.carries, Ne.symm hu]⟩
    · rw [huser, Option.getD_none] at hu
      exact ⟨if_neg hu, by simp [Pc.bears, Pc.carries, Ne.symm hu]⟩
  have hbears : (Function.update s.pc e.thread p' i).bears u = (s.pc i).bears u := by
    by_cases hie : i = e.thread
    · rw [hie, Function.update_self, hsame.2]
    · rw [Function.update_of_ne hie]
  rw [State.waiting, State.waiting, ← hbears, ← hsame.1]
  exact congrArg (· ++ _) hqueue

end Step

end TradeC.Work

namespace TradeC.Workload
open Run Threads

/-! ### The lines of a user -/

/-- The lines with their numbers. -/
def sent : ℤ → List Line → List (ℤ × Line)
  | _, [] => []
  | transID, l :: ls => (transID, l) :: sent (wrap64 (transID + 1)) ls

/-- A line, as a command handler takes it. -/
def Line.taken (x : ℤ × Line) : Taken := ⟨ld x.1, x.2.userCmd, x.2.data⟩

/-- The lines of a user. -/
def linesOf (u : UserID) (ls : List (ℤ × Line)) : List Taken :=
  (ls.filter fun x => x.2.userID = u.str).map Line.taken

section
variable {u : UserID}

theorem linesOf_append (ls ls' : List (ℤ × Line)) :
    linesOf u (ls ++ ls') = linesOf u ls ++ linesOf u ls' := by
  rw [linesOf, List.filter_append, List.map_append]
  rfl

theorem linesOf_cons (x : ℤ × Line) (ls : List (ℤ × Line)) :
    linesOf u (x :: ls) = linesOf u [x] ++ linesOf u ls := linesOf_append [x] ls

theorem linesOf_of_ne {x : ℤ × Line} (h : x.2.userID ≠ u.str) : linesOf u [x] = [] := by
  simp [linesOf, h]

end

/-! ### Where a line is -/

def SenderPc.holds : SenderPc → List CStr
  | .send m => [m]
  | _ => []

/-- The messages that the connection handler has not received yet, from the oldest on. -/
def Chan.pipe (c : Chan) : List CStr := c.toServer ++ c.sender.holds ++ c.commList.reduceOption

def ConnPc.cmd : ConnPc → Option ClientCmd
  | .recv => none
  | .sendRec cmd | .handle cmd => some cmd

/-- The command that the connection handler has for a user. -/
def ConnPc.stages (u : UserID) (p : ConnPc) : List Taken :=
  match p.cmd with
  | some (.command transID userCmd userID comm) =>
    if userID = u then [⟨transID, userCmd, comm⟩] else []
  | _ => []

/-- What the connection handler makes of a line is for its user. -/
theorem stages_clientCmd {p : ConnPc} {x : ℤ × Line} (hp : p.cmd = some (x.2.clientCmd (ld x.1)))
    (u : UserID) : p.stages u = linesOf u [x] := by
  have hlog : x.2.userID = u.str → ¬ (x.2.userCmd = "DUMPLOG".toList ∧
      (x.2.userID.head? = some '.' ∨ x.2.userID.head? = some '/')) := by
    rintro hu ⟨-, hhead⟩
    have hvalid := u.valid
    rw [← hu] at hvalid
    cases hx : x.2.userID with
    | nil => simp [hx] at hhead
    | cons c cs =>
      simp only [hx, validUserID, List.all_cons, Bool.and_eq_true] at hvalid
      simp only [hx, List.head?_cons, Option.some.injEq] at hhead
      rcases hhead with rfl | rfl
      · exact absurd hvalid.2.1 (by decide)
      · exact absurd hvalid.2.1 (by decide)
  rw [ConnPc.stages, hp, Line.clientCmd]
  by_cases hu : x.2.userID = u.str
  · rw [if_neg (hlog hu), dif_pos (by rw [hu]; exact u.valid)]
    have hu' : (⟨x.2.userID, by rw [hu]; exact u.valid⟩ : UserID) = u := by
      cases u
      simpa using hu
    simp [linesOf, hu, Line.taken]
  · rw [linesOf_of_ne hu]
    split_ifs with hlog' hvalid
    · rfl
    · have hne : (⟨x.2.userID, hvalid⟩ : UserID) ≠ u := fun h => hu (congrArg UserID.str h)
      simp [hne]
    · rfl

/-! ### The invariant -/

section
variable {κ : Type*}

/-- The user of an ID, at the server of its thread. -/
def State.Names (s : State κ) (u : UserID) (o : Option Work.UserIx) : Prop :=
  ∀ ix, s.userID (serverOf (userSort u.str)) ix = some u ↔ o = some ix

/-- The commands of a user in its queue, or on their way there. -/
def State.waits (s : State κ) (u : UserID) (o : Option Work.UserIx) : List Taken :=
  o.elim [] ((s.server (serverOf (userSort u.str))).waiting (.inl (userSort u.str)))

/-- A user has one name, is at the server of its thread, and `getUser` finds it unless the connection
    handler of the thread is about to make it known. -/
structure Named (server : ℕ → Work.State (Thread κ)) (userID : ℕ → Work.UserIx → Option UserID) :
    Prop where
  old : ∀ j ix u, userID j ix = some u → ix < (server j).fresh
  home : ∀ j ix u, userID j ix = some u → j = serverOf (userSort u.str)
  inj : ∀ j ix ix' u, userID j ix = some u → userID j ix' = some u → ix = ix'
  found : ∀ j ix u, userID j ix = some u →
    (server j).uTree ix ∨ ((server j).pc (.inl (userSort u.str))).hides = some ix
  carried : ∀ j i ix m, ((server j).pc i).carries = some (ix, m) →
    ∃ u, userID j ix = some u ∧ i = .inl (userSort u.str)

/-- The lines on a connection, or waiting for it. -/
structure Shows (v : Work.State (Thread κ)) (k : Fin NUM_THREADS) (c : Chan) (ls : List (ℤ × Line)) :
    Prop where
  pipe : c.pipe = ls.map fun x => x.2.bytes x.1
  sorted : ∀ x ∈ ls, userSort x.2.userID = k ∧ ∃ y, x.1 = wrap64 y
  staged : ∀ transID userCmd u comm, c.conn.cmd = some (.command transID userCmd u comm) →
    userSort u.str = k
  buf : c.buf.message.length = 5
  idle : c.conn ≠ .recv → v.pc (.inl k) = .recv

/-- For each user, what has been taken, then what is queued, with the connection handler, on the
    connection, and still in the file. -/
def Conserved (file : List Line) (s : State κ) (rest : List Line)
    (piped : Fin NUM_THREADS → List (ℤ × Line)) : Prop :=
  ∀ u o, s.Names u o → s.taken u ++ (s.waits u o ++ ((s.chan (userSort u.str)).conn.stages u ++
    (linesOf u (piped (userSort u.str)) ++ linesOf u (sent s.transID rest)))) = linesOf u (sent 1 file)

structure Inv [Fintype κ] (file : List Line) (s : State κ) (rest : List Line)
    (piped : Fin NUM_THREADS → List (ℤ × Line)) : Prop where
  server : ∀ j, ∃ l, Work.Inv (s.server j) l
  named : Named s.server s.userID
  wl : s.wl = rest.map Line.text
  transID : ∃ x, s.transID = wrap64 x
  shows : ∀ k, Shows (s.server (serverOf k)) k (s.chan k) (piped k)
  conserved : Conserved file s rest piped

theorem Named.exists_names {s : State κ} (hn : Named s.server s.userID) (u : UserID) : ∃ o, s.Names u o := by
  by_cases hu : ∃ ix, s.userID (serverOf (userSort u.str)) ix = some u
  · obtain ⟨ix, hix⟩ := hu
    refine ⟨some ix, fun ix' => ⟨fun h => congrArg some (hn.inj _ _ _ u hix h), fun h => ?_⟩⟩
    cases h
    exact hix
  · refine ⟨none, fun ix => ⟨fun h => absurd ⟨ix, h⟩ hu, fun h => by simp at h⟩⟩

/-! ### The steps on one connection -/

section Chan
variable [Fintype κ] {file rest : List Line} {s s' : State κ}
  {piped : Fin NUM_THREADS → List (ℤ × Line)} {k : Fin NUM_THREADS}

/-- A step that changes one connection and what is still to be read. -/
theorem Inv.setChan {c : Chan} {q : List (ℤ × Line)} {r : List Line} {x : ℤ}
    (hi : Inv file s rest piped) (closing : ℕ) (hs : Shows (s.server (serverOf k)) k c q)
    (hmove : ∀ u, userSort u.str = k →
      c.conn.stages u ++ (linesOf u q ++ linesOf u (sent (wrap64 x) r)) =
        (s.chan k).conn.stages u ++ (linesOf u (piped k) ++ linesOf u (sent s.transID rest)))
    (hother : ∀ u, userSort u.str ≠ k →
      linesOf u (sent (wrap64 x) r) = linesOf u (sent s.transID rest)) :
    Inv file { s.setChan k c with wl := r.map Line.text, transID := wrap64 x, closing } r
      (Function.update piped k q) where
  server := hi.server
  named := hi.named
  wl := rfl
  transID := ⟨x, rfl⟩
  shows k' := by
    by_cases hk : k' = k
    · subst hk
      simpa [State.setChan] using hs
    · simpa [State.setChan, hk] using hi.shows k'
  conserved u o ho := by
    have hc := hi.conserved u o ho
    by_cases hk : userSort u.str = k
    · subst hk
      simp only [State.setChan, Function.update_self]
      rw [hmove u rfl]
      exact hc
    · simp only [State.setChan, Function.update_of_ne hk, hother u hk]
      exact hc

/-- A step that moves lines along one connection. -/
theorem Inv.moveChan {c : Chan} {q : List (ℤ × Line)} (hi : Inv file s rest piped)
    (hs : Shows (s.server (serverOf k)) k c q)
    (hmove : ∀ u, c.conn.stages u ++ linesOf u q = (s.chan k).conn.stages u ++ linesOf u (piped k)) :
    Inv file (s.setChan k c) rest (Function.update piped k q) := by
  obtain ⟨x, hx⟩ := hi.transID
  have hset := hi.setChan (r := rest) (x := x) s.closing hs
    (fun u _ => by rw [← List.append_assoc, ← List.append_assoc, hmove u, hx]) fun u _ => by rw [hx]
  rw [← hx, ← hi.wl] at hset
  exact hset

/-- `main` reads a line. -/
theorem Inv.mainStep (hi : Inv file s rest piped) (h : mainStep s = some s') :
    ∃ rest' piped', Inv file s' rest' piped' := by
  have hwl := hi.wl
  unfold Workload.mainStep at h
  cases rest with
  | nil =>
    rw [hwl] at h
    simp only [List.map_nil] at h
    split_ifs at h with hclose
    cases h
    have hshow := hi.shows ⟨s.closing, hclose⟩
    obtain ⟨x, hx⟩ := hi.transID
    have hset := hi.setChan (r := []) (x := x) (s.closing + 1)
      (c := { s.chan ⟨s.closing, hclose⟩ with
        commList := (s.chan ⟨s.closing, hclose⟩).commList ++ [none] })
      ⟨by simpa [Chan.pipe, List.reduceOption_append] using hshow.pipe, hshow.sorted, hshow.staged,
        hshow.buf, hshow.idle⟩ (fun u hu => rfl) fun u _ => rfl
    rw [← hx, ← hwl] at hset
    exact ⟨_, _, hset⟩
  | cons l rest =>
    rw [hwl] at h
    simp only [List.map_cons, l.readLine_text, Option.map_some, Option.some.injEq] at h
    subst h
    have hshow := hi.shows (userSort l.userID)
    obtain ⟨x, hx⟩ := hi.transID
    refine ⟨rest, _, hi.setChan (q := piped (userSort l.userID) ++ [(s.transID, l)]) s.closing
      ⟨?_, ?_, hshow.staged, hshow.buf, hshow.idle⟩ (fun u _ => ?_) fun u hu => ?_⟩
    · have hpipe := hshow.pipe
      simp only [Chan.pipe] at hpipe ⊢
      rw [List.reduceOption_append, ← List.append_assoc, hpipe, List.map_append]
      rfl
    · intro y hy
      rcases List.mem_append.mp hy with hy | hy
      · exact hshow.sorted y hy
      · rw [List.mem_singleton.mp hy]
        exact ⟨rfl, x, hx⟩
    · rw [linesOf_append, List.append_assoc, sent, linesOf_cons (s.transID, l) (sent _ rest)]
    · rw [sent, linesOf_cons (s.transID, l), linesOf_of_ne fun h => hu (congrArg userSort h).symm,
        List.nil_append]

/-- A thread takes a message out of its queue, sends it, or takes a reply. -/
theorem Inv.senderStep (hi : Inv file s rest piped) (h : senderStep s k = some s') :
    ∃ piped', Inv file s' rest piped' := by
  have hshow := hi.shows k
  have hpipe := hshow.pipe
  unfold Workload.senderStep at h
  simp only at h
  split at h
  · rename_i hsender
    split at h
    · simp at h
    · rename_i m more hlist
      cases h
      rw [Chan.pipe, hsender, hlist] at hpipe
      exact ⟨_, hi.moveChan (q := piped k) ⟨by simpa [Chan.pipe, SenderPc.holds] using hpipe,
        hshow.sorted, hshow.staged, hshow.buf, hshow.idle⟩ fun _ => rfl⟩
    · rename_i more hlist
      cases h
      rw [Chan.pipe, hsender, hlist] at hpipe
      exact ⟨_, hi.moveChan (q := piped k) ⟨by simpa [Chan.pipe, SenderPc.holds] using hpipe,
        hshow.sorted, hshow.staged, hshow.buf, hshow.idle⟩ fun _ => rfl⟩
  · rename_i m hsender
    cases h
    rw [Chan.pipe, hsender] at hpipe
    exact ⟨_, hi.moveChan (q := piped k) ⟨by simpa [Chan.pipe, SenderPc.holds] using hpipe,
      hshow.sorted, hshow.staged, hshow.buf, hshow.idle⟩ fun _ => rfl⟩
  · rename_i hsender
    split_ifs at h
    cases h
    rw [Chan.pipe, hsender] at hpipe
    exact ⟨_, hi.moveChan (q := piped k) ⟨by simpa [Chan.pipe, SenderPc.holds] using hpipe,
      hshow.sorted, hshow.staged, hshow.buf, hshow.idle⟩ fun _ => rfl⟩
  · simp at h

/-- The connection handler receives the message to a line. -/
theorem Inv.recvStep {bytes : CStr} {more : List CStr} (hi : Inv file s rest piped)
    (hrecv : (s.chan k).conn = .recv) (hpc : (s.server (serverOf k)).pc (.inl k) = .recv)
    (hbytes : (s.chan k).toServer = bytes :: more)
    (h : ((s.chan k).buf.receive bytes).map (fun (buf, cmd) =>
      s.setChan k { s.chan k with toServer := more, buf, conn := .sendRec cmd }) = some s') :
    ∃ piped', Inv file s' rest piped' := by
  have hshow := hi.shows k
  have hpipe := hshow.pipe
  rw [Chan.pipe, hbytes] at hpipe
  cases hls : piped k with
  | nil => simp [hls] at hpipe
  | cons x ls =>
    simp only [hls, List.map_cons, List.cons_append, List.cons.injEq] at hpipe
    obtain ⟨hx, hmore⟩ := hpipe
    obtain ⟨hsort, y, hy⟩ := hshow.sorted x (hls ▸ List.mem_cons_self)
    obtain ⟨buf, hbuf, hlen⟩ := x.2.receive_bytes y hshow.buf
    rw [← hy] at hbuf
    rw [hx, hbuf] at h
    cases h
    refine ⟨_, hi.moveChan (q := ls) ⟨hmore, fun z hz => hshow.sorted z (hls ▸ List.mem_cons_of_mem _ hz),
      fun transID userCmd u comm hcmd => ?_, hlen, fun _ => hpc⟩ fun u => ?_⟩
    · have hclient : x.2.clientCmd (ld x.1) = .command transID userCmd u comm := Option.some.inj hcmd
      rw [Line.clientCmd] at hclient
      split_ifs at hclient
      cases hclient
      exact hsort
    · have hstage : (s.chan k).conn.stages u = [] := by rw [hrecv]; rfl
      rw [hstage, hls, linesOf_cons x, stages_clientCmd (x := x) rfl u]
      rfl

end Chan

/-! ### The steps of a server -/

section Server
variable {file rest : List Line} {s s' : State κ}
  {piped : Fin NUM_THREADS → List (ℤ × Line)} {j : ℕ} {e : Work.Event (Thread κ)}
  {v : Work.State (Thread κ)}

/-- Nobody but the connection handler of its thread carries a command for a user. -/
theorem Named.bears_other (hn : Named s.server s.userID) {u : UserID} {ix : Work.UserIx}
    (hix : s.userID j ix = some u) (i : Thread κ) (hi : i ≠ .inl (userSort u.str)) :
    ((s.server j).pc i).bears ix = [] := by
  rw [Work.Pc.bears]
  cases hc : ((s.server j).pc i).carries with
  | none => rfl
  | some x =>
    by_cases hx : x.1 = ix
    · obtain ⟨u', hu', hi'⟩ := hn.carried j i x.1 x.2 hc
      rw [hx, hix] at hu'
      cases hu'
      exact absurd hi' hi
    · rw [Option.filter_some, if_neg (by simpa using hx)]
      rfl

/-- What the step of a command handler is recorded as. -/
theorem record_taken (hn : Named s.server s.userID) {u : UserID} {o : Option Work.UserIx}
    (ho : s.Names u o) (i : Thread κ) : (s.record j i).taken u = s.taken u ++
      if j = serverOf (userSort u.str) then o.elim [] ((s.server j).takes i) else [] := by
  have hnone : (∀ ix, (s.server j).pc i ≠ .deqTake ix ∨ s.userID j ix ≠ some u ∨
      ((s.server j).user ix).commList.element = none) →
      (if j = serverOf (userSort u.str) then o.elim [] ((s.server j).takes i) else []) = [] := by
    intro h
    split_ifs with hj
    · cases o with
      | none => rfl
      | some ix =>
        rw [Option.elim_some, Work.State.takes]
        split_ifs with hp
        · rcases h ix with h | h | h
          · exact absurd hp h
          · exact absurd (hj ▸ (ho ix).mpr rfl) h
          · simp [h]
        · rfl
    · rfl
  unfold State.record
  split
  · rename_i ix hp
    split
    · rename_i el u' hel hu'
      by_cases hu : u = u'
      · subst hu
        have hj := hn.home j ix u hu'
        have hix : o = some ix := (ho ix).mp (hj ▸ hu')
        simp only [Function.update_self, if_pos hj, hix, Option.elim_some, Work.State.takes, if_pos hp,
          hel]
        rfl
      · simp only [Function.update_of_ne hu]
        rw [hnone fun ix' => ?_, List.append_nil]
        by_cases hix : ix' = ix
        · subst hix
          exact .inr (.inl (by rw [hu']; simpa using Ne.symm hu))
        · exact .inl (by rw [hp]; simpa using Ne.symm hix)
    · rename_i hcase
      rw [hnone fun ix' => ?_, List.append_nil]
      by_cases hix : ix' = ix
      · subst hix
        cases hel : ((s.server j).user ix').commList.element with
        | none => exact .inr (.inr rfl)
        | some el => exact .inr (.inl fun hu => hcase el u hel hu)
      · exact .inl (by rw [hp]; simpa using Ne.symm hix)
  · rename_i hcase
    rw [hnone fun ix' => .inl (hcase ix'), List.append_nil]

theorem record_eq (i : Thread κ) : s.record j i = { s with taken := (s.record j i).taken } := by
  unfold State.record
  split
  · split <;> rfl
  · rfl

theorem getUser_some {u : UserID} {ix : Work.UserIx} (h : s.getUser j u = some ix) :
    s.userID j ix = some u := by
  have hfind := List.find?_some h
  simp only [Bool.and_eq_true, decide_eq_true_eq] at hfind
  exact hfind.2

/-- While the connection handler of its thread is between two messages, `getUser` finds every user. -/
theorem Named.getUser_of_recv (hn : Named s.server s.userID) {u : UserID} {ix : Work.UserIx}
    (hix : s.userID j ix = some u) (hrecv : (s.server j).pc (.inl (userSort u.str)) = .recv) :
    s.getUser j u = some ix := by
  have htree : (s.server j).uTree ix := by
    rcases hn.found j ix u hix with htree | hhides
    · exact htree
    · simp [hrecv, Work.Pc.hides] at hhides
  have hsome : (s.getUser j u).isSome := by
    rw [State.getUser, List.find?_isSome]
    exact ⟨ix, List.mem_range.mpr (hn.old j ix u hix), by simp [htree, hix]⟩
  obtain ⟨ix', hix'⟩ := Option.isSome_iff_exists.mp hsome
  rw [hix', hn.inj j ix' ix u (getUser_some hix') hix]

theorem Named.names_getUser (hn : Named s.server s.userID) {u : UserID}
    (hrecv : (s.server (serverOf (userSort u.str))).pc (.inl (userSort u.str)) = .recv) :
    s.Names u (s.getUser (serverOf (userSort u.str)) u) :=
  fun _ => ⟨fun h => hn.getUser_of_recv h hrecv, getUser_some⟩

/-- The names after a connection handler has taken a command for `u`, who is `ix₀`. -/
structure Renamed (s : State κ) (j : ℕ) (u : UserID) (ix₀ : Work.UserIx)
    (userID : ℕ → Work.UserIx → Option UserID) : Prop where
  self : userID j ix₀ = some u
  only : ∀ ix, s.userID j ix = some u → ix = ix₀
  free : ∀ u', s.userID j ix₀ = some u' → u' = u
  other : ∀ j' ix, ¬ (j' = j ∧ ix = ix₀) → userID j' ix = s.userID j' ix

section Handle
variable {u : UserID} {ix₀ : Work.UserIx} {userID : ℕ → Work.UserIx → Option UserID}
  (hr : Renamed s j u ix₀ userID)
include hr

/-- The other users keep their names. -/
theorem Renamed.iff {u' : UserID} (hu : u' ≠ u) (j' : ℕ) (ix : Work.UserIx) :
    userID j' ix = some u' ↔ s.userID j' ix = some u' := by
  by_cases hix : j' = j ∧ ix = ix₀
  · obtain ⟨rfl, rfl⟩ := hix
    rw [hr.self]
    exact ⟨fun h => absurd (Option.some.inj h).symm hu, fun h => absurd (hr.free u' h) hu⟩
  · rw [hr.other _ _ hix]

theorem Renamed.iff_self (hn : Named s.server s.userID) (hj : j = serverOf (userSort u.str)) (j' : ℕ)
    (ix : Work.UserIx) : userID j' ix = some u ↔ j' = j ∧ ix = ix₀ := by
  refine ⟨fun h => ?_, fun ⟨hj', hix⟩ => by rw [hj', hix, hr.self]⟩
  by_contra hne
  rw [hr.other _ _ hne] at h
  have hj' := (hn.home j' ix u h).trans hj.symm
  exact hne ⟨hj', hr.only ix (hj' ▸ h)⟩

variable [DecidableEq κ] in
theorem Renamed.named (hn : Named s.server s.userID) (hj : j = serverOf (userSort u.str))
    (h : Work.step (s.server j) e = some v) (he : e.thread = .inl (userSort u.str))
    (hrecv : (s.server j).pc e.thread = .recv) (hix₀ : ix₀ = e.user.getD (s.server j).fresh)
    (hknown : e.user ≠ none → s.userID j ix₀ = some u) :
    Named (Function.update s.server j v) userID := by
  obtain ⟨hcarries, hfound, hnew⟩ := Work.step_recv_user h hrecv hix₀
  have hold : ∀ j' ix u', userID j' ix = some u' →
      (u' = u ∧ j' = j ∧ ix = ix₀) ∨ (u' ≠ u ∧ s.userID j' ix = some u') := by
    intro j' ix u' hu'
    by_cases hu : u' = u
    · exact .inl ⟨hu, (hr.iff_self hn hj j' ix).mp (hu ▸ hu')⟩
    · exact .inr ⟨hu, (hr.iff hu j' ix).mp hu'⟩
  have hfresh : ix₀ < v.fresh := by
    by_cases huser : e.user = none
    · exact hnew huser
    · exact (hn.old j ix₀ u (hknown huser)).trans_le (Work.step_fresh_le h)
  refine ⟨fun j' ix u' hu' => ?_, fun j' ix u' hu' => ?_, fun j' ix ix' u' hu' hu'' => ?_,
    fun j' ix u' hu' => ?_, fun j' i ix m hm => ?_⟩
  · rcases hold j' ix u' hu' with ⟨-, rfl, rfl⟩ | ⟨-, hs⟩
    · rwa [Function.update_self]
    · by_cases hj' : j' = j
      · subst hj'
        rw [Function.update_self]
        exact (hn.old j' ix u' hs).trans_le (Work.step_fresh_le h)
      · rw [Function.update_of_ne hj']
        exact hn.old j' ix u' hs
  · rcases hold j' ix u' hu' with ⟨rfl, rfl, -⟩ | ⟨-, hs⟩
    · exact hj
    · exact hn.home j' ix u' hs
  · rcases hold j' ix u' hu' with ⟨rfl, rfl, rfl⟩ | ⟨hne, hs⟩
    · exact ((hr.iff_self hn hj _ _).mp hu'').2.symm
    · exact hn.inj j' ix ix' u' hs ((hr.iff hne j' ix').mp hu'')
  · rcases hold j' ix u' hu' with ⟨rfl, rfl, rfl⟩ | ⟨-, hs⟩
    · rw [Function.update_self, ← he]
      exact hfound
    · have hf := hn.found j' ix u' hs
      by_cases hj' : j' = j
      · subst hj'
        rw [Function.update_self]
        rcases hf with htree | hhides
        · exact .inl (Work.step_uTree h htree)
        · exact Work.step_hides h hhides
      · rwa [Function.update_of_ne hj']
  · by_cases hj' : j' = j
    · subst hj'
      rw [Function.update_self] at hm
      by_cases hi : i = e.thread
      · subst hi
        rw [hcarries] at hm
        cases hm
        exact ⟨u, hr.self, he⟩
      · rw [Work.step_pc_other h hi] at hm
        obtain ⟨u', hu', rfl⟩ := hn.carried j' i ix m hm
        have hne : u' ≠ u := fun hu => hi (by rw [he, hu])
        exact ⟨u', (hr.iff hne _ _).mpr hu', rfl⟩
    · rw [Function.update_of_ne hj'] at hm
      obtain ⟨u', hu', hi⟩ := hn.carried j' i ix m hm
      exact ⟨u', by rw [hr.other _ _ fun hx => hj' hx.1, hu'], hi⟩

end Handle

/-- `getUser`, and the new user where it finds none. -/
theorem Named.renamed (hn : Named s.server s.userID) {u : UserID}
    (hrecv : (s.server j).pc (.inl (userSort u.str)) = .recv) : ∃ userID,
      s.addUser j u = { s with userID } ∧
      Renamed s j u ((s.getUser j u).getD (s.server j).fresh) userID ∧
      (s.getUser j u ≠ none → s.userID j ((s.getUser j u).getD (s.server j).fresh) = some u) := by
  unfold State.addUser
  cases hget : s.getUser j u with
  | some ix =>
    have hix := getUser_some hget
    refine ⟨s.userID, rfl, ⟨hix, fun ix' h => hn.inj j ix' ix u h hix, fun u' h => ?_, fun _ _ _ => rfl⟩,
      fun _ => hix⟩
    rw [Option.getD_some, hix] at h
    exact (Option.some.inj h).symm
  | none =>
    refine ⟨_, rfl, ⟨by simp, fun ix h => ?_, fun u' h => ?_, fun j' ix hne => ?_⟩, fun h => absurd rfl h⟩
    · rw [hn.getUser_of_recv h hrecv] at hget
      simp at hget
    · exact absurd (hn.old j _ u' h) (lt_irrefl _)
    · by_cases hj : j' = j
      · subst hj
        rw [Function.update_self]
        exact Function.update_of_ne (fun hix => hne ⟨rfl, hix⟩) _ _
      · rw [Function.update_of_ne hj]

variable [DecidableEq κ]

theorem Named.step (hn : Named s.server s.userID) (h : Work.step (s.server j) e = some v)
    (hpast : (s.server j).pc e.thread ≠ .recv) :
    Named (Function.update s.server j v) s.userID where
  old j' ix u hu := by
    have hlt := hn.old j' ix u hu
    by_cases hj : j' = j
    · subst hj
      rw [Function.update_self]
      exact hlt.trans_le (Work.step_fresh_le h)
    · rwa [Function.update_of_ne hj]
  home := hn.home
  inj := hn.inj
  found j' ix u hu := by
    have hfound := hn.found j' ix u hu
    by_cases hj : j' = j
    · subst hj
      rw [Function.update_self]
      rcases hfound with htree | hhides
      · exact .inl (Work.step_uTree h htree)
      · exact Work.step_hides h hhides
    · rwa [Function.update_of_ne hj]
  carried j' i ix m hm := by
    by_cases hj : j' = j
    · subst hj
      rw [Function.update_self] at hm
      exact hn.carried j' i ix m (Work.step_carries h hpast hm)
    · rw [Function.update_of_ne hj] at hm
      exact hn.carried j' i ix m hm

variable [Fintype κ]

/-- Past `recv`, a thread of a server takes a command out of a queue, puts one there, or neither. -/
theorem Inv.serverStep (hi : Inv file s rest piped) (h : serverStep s j e = some s') :
    Inv file s' rest piped := by
  have hpast : (s.server j).pc e.thread ≠ .recv := by
    intro hp
    simp [Workload.serverStep, hp] at h
  have hstep : (Work.step (s.server j) e).map ((s.record j e.thread).setServer j) = some s' := by
    unfold Workload.serverStep at h
    split at h
    · simp at h
    · exact h
  obtain ⟨v, hv, rfl⟩ := Option.map_eq_some_iff.mp hstep
  rw [record_eq]
  refine ⟨fun j' => ?_, hi.named.step hv hpast, hi.wl, hi.transID, fun k => ?_, fun u o ho => ?_⟩
  · by_cases hj : j' = j
    · subst hj
      obtain ⟨l, hl⟩ := hi.server j'
      simpa [State.setServer] using Work.inv_step hl hv
    · simpa [State.setServer, hj] using hi.server j'
  · have hshow := hi.shows k
    refine ⟨hshow.pipe, hshow.sorted, hshow.staged, hshow.buf, fun hconn => ?_⟩
    have hidle := hshow.idle hconn
    by_cases hj : serverOf k = j
    · subst hj
      simp only [State.setServer, Function.update_self]
      rw [Work.step_pc_other hv fun hk => hpast (hk ▸ hidle), hidle]
    · simpa [State.setServer, hj] using hidle
  · have hc := hi.conserved u o ho
    have hwaits : s.waits u o = (if j = serverOf (userSort u.str) then
        o.elim [] ((s.server j).takes e.thread) else []) ++
          (({ s with taken := (s.record j e.thread).taken } : State κ).setServer j v).waits u o := by
      by_cases hj : j = serverOf (userSort u.str)
      · subst hj
        simp only [State.waits, State.setServer, Function.update_self, if_true]
        cases o with
        | none => rfl
        | some ix =>
          obtain ⟨l, hl⟩ := hi.server (serverOf (userSort u.str))
          exact hl.step_waiting hv hpast (hi.named.bears_other ((ho ix).mpr rfl))
      · simp only [State.waits, State.setServer, Function.update_of_ne (Ne.symm hj), if_neg hj,
          List.nil_append]
    rw [hwaits, List.append_assoc] at hc
    simp only [State.setServer, record_taken hi.named ho, List.append_assoc]
    exact hc

/-- The connection handler turns to the user of a command. -/
theorem Inv.handleStep {k : Fin NUM_THREADS} {transID userCmd : CStr} {u : UserID} {comm : Option CStr}
    (hi : Inv file s rest piped)
    (hconn : (s.chan k).conn = .handle (.command transID userCmd u comm)) (h : connStep s k = some s') :
    Inv file s' rest piped := by
  have hshow := hi.shows k
  have hk : userSort u.str = k := hshow.staged transID userCmd u comm (by rw [hconn]; rfl)
  subst hk
  have hrecv := hshow.idle (by rw [hconn]; simp)
  obtain ⟨userID, hs₀, hr, hknown⟩ := hi.named.renamed hrecv
  unfold connStep at h
  simp only [hconn] at h
  obtain ⟨v, hv, rfl⟩ := Option.map_eq_some_iff.mp h
  rw [hs₀]
  have hstage : ∀ u', (s.chan (userSort u.str)).conn.stages u' =
      if u = u' then [⟨transID, userCmd, comm⟩] else [] := by
    intro u'
    rw [hconn]
    rfl
  refine ⟨fun j => ?_, hr.named hi.named rfl hv rfl hrecv rfl hknown, hi.wl, hi.transID, fun k => ?_,
    fun u' o ho => ?_⟩
  · by_cases hj : j = serverOf (userSort u.str)
    · subst hj
      obtain ⟨l, hl⟩ := hi.server (serverOf (userSort u.str))
      simpa [State.setServer, State.setChan] using Work.inv_step hl hv
    · simpa [State.setServer, State.setChan, hj] using hi.server j
  · have hk := hi.shows k
    by_cases hku : k = userSort u.str
    · subst hku
      simp only [State.setServer, State.setChan, Function.update_self]
      exact ⟨hk.pipe, hk.sorted, fun _ _ _ _ hcmd => by simp [ConnPc.cmd] at hcmd, hk.buf,
        fun hne => absurd rfl hne⟩
    · simp only [State.setServer, State.setChan, Function.update_of_ne hku]
      refine ⟨hk.pipe, hk.sorted, hk.staged, hk.buf, fun hne => ?_⟩
      have hidle := hk.idle hne
      by_cases hj : serverOf k = serverOf (userSort u.str)
      · rw [hj, Function.update_self, Work.step_pc_other hv (by simpa using hku), ← hj, hidle]
      · rw [Function.update_of_ne hj, hidle]
  · by_cases hu : u' = u
    · subst hu
      obtain ⟨l, hl⟩ := hi.server (serverOf (userSort u'.str))
      have hself := hl.step_recv_self hv hrecv rfl
      have hc := hi.conserved u' _ (hi.named.names_getUser hrecv)
      rw [hstage u', if_pos rfl] at hc
      rw [(ho _).mp hr.self]
      simp only [State.waits, State.setServer, State.setChan, Function.update_self, Option.elim_some]
      rw [hself, ← hc, List.append_assoc]
      rfl
    · have ho' : s.Names u' o := fun ix => (hr.iff hu _ ix).symm.trans (ho ix)
      have hc := hi.conserved u' o ho'
      have hstages : (({ s with userID } : State κ).setServer (serverOf (userSort u.str)) v
          |>.setChan (userSort u.str) { s.chan (userSort u.str) with conn := .recv }
          |>.chan (userSort u'.str)).conn.stages u' = (s.chan (userSort u'.str)).conn.stages u' := by
        by_cases hk : userSort u'.str = userSort u.str
        · simp only [State.setServer, State.setChan, hk, Function.update_self]
          rw [hstage u', if_neg (Ne.symm hu)]
          rfl
        · simp only [State.setServer, State.setChan, Function.update_of_ne hk]
      have hwaits : (({ s with userID } : State κ).setServer (serverOf (userSort u.str)) v
          |>.setChan (userSort u.str) { s.chan (userSort u.str) with conn := .recv }).waits u' o =
            s.waits u' o := by
        simp only [State.waits, State.setServer, State.setChan]
        by_cases hj : serverOf (userSort u'.str) = serverOf (userSort u.str)
        · rw [hj, Function.update_self]
          cases o with
          | none => rfl
          | some ix =>
            obtain ⟨l, hl⟩ := hi.server (serverOf (userSort u.str))
            refine hl.step_recv_other hv hrecv fun hix => ?_
            have hname := (ho ix).mpr rfl
            rw [hj, hix] at hname
            exact hu (Option.some.inj (hname.symm.trans hr.self))
        · rw [Function.update_of_ne hj]
      rw [hwaits, hstages]
      exact hc

end Server

/-! ### Runs -/

section Runs
variable [Fintype κ] [DecidableEq κ] {file rest : List Line} {s s' : State κ}
  {piped : Fin NUM_THREADS → List (ℤ × Line)} {k : Fin NUM_THREADS}

theorem Inv.connStep (hi : Inv file s rest piped) (h : connStep s k = some s') :
    ∃ piped', Inv file s' rest piped' := by
  have hshow := hi.shows k
  cases hconn : (s.chan k).conn with
  | recv =>
    unfold Workload.connStep at h
    simp only [hconn] at h
    split at h
    · rename_i hpc hbytes
      exact hi.recvStep hconn hpc hbytes h
    · simp at h
  | sendRec cmd =>
    simp only [Workload.connStep, hconn, Option.some.injEq] at h
    subst h
    have hidle := hshow.idle (by rw [hconn]; simp)
    refine ⟨_, hi.moveChan (q := piped k) ⟨hshow.pipe, hshow.sorted, fun transID userCmd u comm hcmd =>
      hshow.staged transID userCmd u comm (by rw [hconn]; exact hcmd), hshow.buf, fun _ => hidle⟩
      fun u => ?_⟩
    rw [hconn]
    rfl
  | handle cmd =>
    cases cmd with
    | command transID userCmd u comm => exact ⟨piped, hi.handleStep hconn h⟩
    | _ =>
      simp only [Workload.connStep, hconn, Option.some.injEq] at h
      subst h
      refine ⟨_, hi.moveChan (q := piped k) ⟨hshow.pipe, hshow.sorted, fun _ _ _ _ hcmd => by
        simp [ConnPc.cmd] at hcmd, hshow.buf, fun hne => absurd rfl hne⟩ fun u => ?_⟩
      rw [hconn]
      rfl

theorem Inv.step {e : Event κ} (hi : Inv file s rest piped) (h : step s e = some s') :
    ∃ rest' piped', Inv file s' rest' piped' := by
  cases e with
  | main => exact hi.mainStep h
  | sender k => exact ⟨rest, hi.senderStep h⟩
  | conn k => exact ⟨rest, hi.connStep h⟩
  | server j e => exact ⟨rest, piped, hi.serverStep h⟩

omit [DecidableEq κ] in
theorem inv_init (file : List Line) (garbage : Fin NUM_THREADS → List Char) (worker : κ → Worker) :
    Inv file (init (file.map Line.text) garbage worker) file fun _ => [] where
  server _ := ⟨[], Work.inv_init _⟩
  named := by
    refine ⟨fun _ _ _ h => ?_, fun _ _ _ h => ?_, fun _ _ _ _ h _ => ?_, fun _ _ _ h => ?_,
      fun j i ix m h => ?_⟩
    · simp [init] at h
    · simp [init] at h
    · simp [init] at h
    · simp [init] at h
    · have hnone : ∀ r : Work.Role, r.start.carries = none := fun r => by cases r <;> rfl
      simp [init, Work.init, hnone] at h
  wl := rfl
  transID := ⟨1, (by decide : (1 : ℤ) = wrap64 1)⟩
  shows k := ⟨rfl, by simp, fun _ _ _ _ h => by simp [init, ConnPc.cmd] at h, rfl, fun h => absurd rfl h⟩
  conserved u o ho := by
    have hwaits : State.waits (init (file.map Line.text) garbage worker) u o = [] := by
      cases o with
      | none => rfl
      | some ix => simpa [init] using (ho ix).mpr rfl
    rw [hwaits]
    rfl

/-- A command of `u` is executed, or a trigger of `u` fired, by thread `i` of server `j`. -/
def State.InProgress (s : State κ) (u : UserID) (j : ℕ) (i : Thread κ) : Prop :=
  ∃ ix, s.userID j ix = some u ∧ ((s.server j).pc i).works = some ix

omit [DecidableEq κ] in
theorem Inv.excl (hi : Inv file s rest piped) {u : UserID} {j j' : ℕ} {i i' : Thread κ}
    (h : s.InProgress u j i) (h' : s.InProgress u j' i') : j = j' ∧ i = i' := by
  obtain ⟨ix, hix, hworks⟩ := h
  obtain ⟨ix', hix', hworks'⟩ := h'
  have hj : j = j' := (hi.named.home j ix u hix).trans (hi.named.home j' ix' u hix').symm
  subst hj
  have hsame := hi.named.inj j ix ix' u hix hix'
  subst hsame
  obtain ⟨l, hl⟩ := hi.server j
  exact ⟨rfl, (hl.users ix).excl (Work.Pc.holdsUser_of_works hworks) (Work.Pc.holdsUser_of_works hworks')⟩

/-- The commands of a user that command handlers have taken are the first of its lines, in the order of
    the file, and one thread at most is at work for the user. -/
theorem in_file_order {garbage : Fin NUM_THREADS → List Char} {worker : κ → Worker}
    {es : List (Event κ)} (h : exec Workload.step (init (file.map Line.text) garbage worker) es = some s)
    (u : UserID) : s.taken u <+: linesOf u (sent 1 file) ∧
      ∀ j i j' i', s.InProgress u j i → s.InProgress u j' i' → j = j' ∧ i = i' := by
  have hstep : ∀ (s : State κ) e s', (∃ rest piped, Inv file s rest piped) →
      Workload.step s e = some s' → ∃ rest piped, Inv file s' rest piped :=
    fun s e s' ⟨_, _, hi⟩ hs => hi.step hs
  obtain ⟨rest, piped, hi⟩ :=
    exec_inv hstep es _ s ⟨_, _, inv_init file garbage worker⟩ h
  obtain ⟨o, ho⟩ := hi.named.exists_names u
  exact ⟨⟨_, hi.conserved u o ho⟩, fun j i j' i' => hi.excl⟩

end Runs

end

/-- A line, twice in a file: a handler takes the first, while the second is with the connection. -/
def addLine : Line where
  tag := "[1]".toList
  userCmd := "ADD".toList
  userID := "aaaaaaaaaa".toList
  data := some "10.00".toList
  ending := ['\n']
  plain_tag := by simp [plain, nul]
  plain_userCmd := by simp [plain, nul]
  plain_userID := by simp [plain, nul]
  plain_data := by simp [plain, nul]
  ends := by decide
  short := by decide

def addTwice : List (Event Unit) :=
  let k : Fin NUM_THREADS := ⟨0, numThreads_pos⟩
  let m : Work.Message := ⟨[], [], none, 0⟩
  [.main, .main, .sender k, .sender k, .conn k, .conn k, .sender k, .sender k, .sender k, .conn k] ++
    List.replicate 10 (.server 0 ⟨.inl k, none, m⟩) ++ [.conn k] ++
      List.replicate 13 (.server 0 ⟨.inr (), none, m⟩)

theorem in_file_order_addTwice : ∃ s : State Unit,
    exec step (init ([addLine, addLine].map Line.text) (fun _ => []) fun _ => .command) addTwice =
      some s ∧ s.taken aUser = [⟨"1".toList, "ADD".toList, some "10.00".toList⟩] ∧
      s.taken aUser <+: linesOf aUser (sent 1 [addLine, addLine]) ∧
      ∀ j i j' i', s.InProgress aUser j i → s.InProgress aUser j' i' → j = j' ∧ i = i' := by
  have hrun : ∃ s ∈ exec step (init ([addLine, addLine].map Line.text) (fun _ => []) fun _ => .command)
      addTwice, s.taken aUser = [⟨"1".toList, "ADD".toList, some "10.00".toList⟩] := by
    decide +kernel
  obtain ⟨s, hs, htaken⟩ := hrun
  obtain ⟨hpre, hexcl⟩ := in_file_order hs aUser
  exact ⟨s, hs, htaken, hpre, hexcl⟩

end TradeC.Workload
