import TradeC.Str
import TradeC.Lib.Run
import Mathlib.Data.Fintype.Basic
import Mathlib.Logic.Function.Basic

/-! The log lines of a server, on their way to the log server.

    `log_handler`, the same in transServer.c and loadBalancer.c, sends the line that it holds until it
    has an acknowledgement for it, over as many connections as that takes. Each call of the network
    fails whenever it likes. What a `send` has put on a connection one `recv` at the other end takes,
    or none does; the log server has a thread for each connection, which may be slow, or end. -/

namespace TradeC.Delivery
open Run

def NUM_LOG : ℕ := 1

theorem numLog_pos : 0 < NUM_LOG := by decide

instance : Subsingleton (Fin NUM_LOG) := inferInstanceAs (Subsingleton (Fin 1))

/-- A line, with the place that it had in the queue. -/
abbrev Item := ℕ × CStr

/-- Where a `connection_handler` of the log server is. -/
inductive ConnPc where
  | recv
  | lenq (x : Item)
  | send
  | ended

/-- A connection: what has been sent and not received, its thread, and the acknowledgements that have
    not been received. -/
structure Conn where
  toServer : List Item
  pc : ConnPc
  toClient : ℕ

/-- Where `log_handler` is. -/
inductive Pc where
  | ldeq
  | top
  | socket
  | connect
  | send
  | recv
  deriving DecidableEq

/-- What `log_handler` has done. -/
inductive Act where
  | sent (c : ℕ) (i : ℕ)
  | acked (c : ℕ)
  | freed (i : ℕ)
  | closed (c : ℕ)
  deriving DecidableEq

structure State where
  queue : List CStr
  pc : Pc
  log : CStr
  currLOG : Fin NUM_LOG
  connected : Fin NUM_LOG → Bool
  logSock : Fin NUM_LOG → ℕ
  -- the connections, and how many there have been
  conn : ℕ → Conn
  fresh : ℕ
  -- recorded: the lines taken from the queue, what the log server has put into its own, and the acts
  dequeued : List CStr
  received : List Item
  trace : List Act

inductive Event where
  | lenq (line : CStr)
  -- `ok` is the outcome of the call, where there is one
  | handler (ok : Bool)
  | server (c : ℕ) (ok : Bool)

namespace State
variable (s : State)

/-- Whether there is a connection to the log server. -/
def up : Bool := s.connected s.currLOG

def setConn (c : ℕ) (x : Conn) : State := { s with conn := Function.update s.conn c x }

def sock : ℕ := s.logSock s.currLOG

def setConnected (b : Bool) : State := { s with connected := Function.update s.connected s.currLOG b }

/-- The place of the line that is held. -/
def held : ℕ := s.dequeued.length - 1

def act (a : Act) : State := { s with trace := s.trace ++ [a] }

/-- A failed `send` or `recv`. -/
def close : State := { (s.setConnected false).act (.closed s.sock) with pc := .top }

def next : Fin NUM_LOG := ⟨(s.currLOG + 1) % NUM_LOG, Nat.mod_lt _ numLog_pos⟩

/-- `log_handler`. -/
def handlerStep (ok : Bool) : Option State :=
  match s.pc with
  | .ldeq =>
    match s.queue with
    | [] => none
    | log :: queue => some { s with queue, log, dequeued := s.dequeued ++ [log], pc := .top }
  | .top =>
    if s.up then some { s with pc := .send }
    else if ok then some { s with pc := .socket }
    else some { s with currLOG := s.next }
  | .socket => some { s with pc := if ok then .connect else .top }
  | .connect =>
    if ok then
      some { s.setConnected true with
        logSock := Function.update s.logSock s.currLOG s.fresh, fresh := s.fresh + 1, pc := .send }
    else some { s with pc := .top }
  | .send =>
    if ok then
      let x := s.conn s.sock
      some { (s.setConn s.sock { x with toServer := x.toServer ++ [(s.held, s.log)] }).act
        (.sent s.sock s.held) with pc := .recv }
    else some s.close
  | .recv =>
    if ok then
      let x := s.conn s.sock
      match x.toClient with
      | 0 => none
      | acks + 1 =>
        some { ((s.setConn s.sock { x with toClient := acks }).act (.acked s.sock)).act (.freed s.held) with
          currLOG := s.next, pc := .ldeq }
    else some s.close

/-- The thread of a connection. -/
def serverStep (c : ℕ) (ok : Bool) : Option State :=
  if c < s.fresh then
    let x := s.conn c
    match x.pc with
    | .recv =>
      if ok then
        match x.toServer with
        | [] => none
        | y :: rest => some (s.setConn c { x with toServer := rest, pc := .lenq y })
      else some (s.setConn c { x with pc := .ended })
    | .lenq y => some { s.setConn c { x with pc := .send } with received := s.received ++ [y] }
    -- the outcome is not looked at
    | .send => some (s.setConn c { x with pc := .recv, toClient := if ok then x.toClient + 1 else x.toClient })
    | .ended => none
  else none

/-- A line with its NUL fits into the buffers of 500 bytes at both ends. -/
def step (s : State) : Event → Option State
  | .lenq line => if line.length < 500 then some { s with queue := s.queue ++ [line] } else none
  | .handler ok => s.handlerStep ok
  | .server c ok => s.serverStep c ok

def init : State where
  queue := []
  pc := .ldeq
  log := []
  currLOG := ⟨0, numLog_pos⟩
  connected _ := false
  logSock _ := 0
  conn _ := ⟨[], .recv, 0⟩
  fresh := 0
  dequeued := []
  received := []
  trace := []

end State

/-- An acknowledgement has been received on a live connection after line `i` was sent on it. -/
def Acked (trace : List Act) (i : ℕ) : Prop :=
  ∃ a b d c, trace = a ++ .sent c i :: b ++ .acked c :: d ∧ Act.closed c ∉ b

/-- Nothing has come before the lines ahead of it. -/
def InOrder (received : List Item) : Prop :=
  ∀ a x b, received = a ++ x :: b → ∀ k < x.1, k ∈ a.map Prod.fst

/-! ### Traces -/

section
variable {trace a b : List Act} {x y : Act} {i c : ℕ}

theorem Acked.append (h : Acked trace i) (r : List Act) : Acked (trace ++ r) i := by
  obtain ⟨a, b, d, c, rfl, hb⟩ := h
  exact ⟨a, b, d ++ r, c, by simp, hb⟩

/-- An act of a longer trace is the new one, or an earlier one. -/
theorem split_concat (h : trace ++ [y] = a ++ x :: b) :
    (trace = a ∧ y = x ∧ b = []) ∨ ∃ b', b = b' ++ [y] ∧ trace = a ++ x :: b' := by
  rcases List.eq_nil_or_concat b with rfl | ⟨b', z, rfl⟩
  · have h' := List.append_inj' h rfl
    exact Or.inl ⟨h'.1, List.singleton_inj.mp h'.2, rfl⟩
  · rw [List.concat_eq_append, ← List.cons_append, ← List.append_assoc] at h
    have h' := List.append_inj' h rfl
    obtain rfl := List.singleton_inj.mp h'.2
    exact Or.inr ⟨b', List.concat_eq_append, h'.1⟩

end

/-- The lines that have been freed. -/
def State.done (s : State) : ℕ := if s.pc = .ldeq then s.dequeued.length else s.held

/-- A thread of the log server does not touch `log_handler`. -/
theorem State.serverStep_frame {s s' : State} {c : ℕ} {ok : Bool} (hs : s.serverStep c ok = some s') :
    s'.trace = s.trace ∧ s'.pc = s.pc ∧ s'.dequeued = s.dequeued ∧ s'.sock = s.sock ∧
      s'.queue = s.queue := by
  unfold State.serverStep at hs
  by_cases hc : c < s.fresh
  swap
  · rw [if_neg hc] at hs
    cases hs
  rw [if_pos hc] at hs
  cases hpc : (s.conn c).pc with
  | recv =>
    simp only [hpc] at hs
    split_ifs at hs
    · cases hto : (s.conn c).toServer with
      | nil => simp [hto] at hs
      | cons y rest =>
        simp only [hto, Option.some.injEq] at hs
        subst hs
        exact ⟨rfl, rfl, rfl, rfl, rfl⟩
    · cases hs
      exact ⟨rfl, rfl, rfl, rfl, rfl⟩
  | lenq y =>
    simp only [hpc, Option.some.injEq] at hs
    subst hs
    exact ⟨rfl, rfl, rfl, rfl, rfl⟩
  | send =>
    simp only [hpc, Option.some.injEq] at hs
    subst hs
    exact ⟨rfl, rfl, rfl, rfl, rfl⟩
  | ended => simp [hpc] at hs

/-- What holds of the acts of `log_handler`. -/
structure Traced (s : State) : Prop where
  busy : s.pc ≠ .ldeq → 0 < s.dequeued.length
  acked : ∀ i < s.done, Acked s.trace i
  -- nothing happens between a `send` and its `recv`
  last : s.pc = .recv → ∃ a, s.trace = a ++ [.sent s.sock s.held]
  lt : ∀ c i, Act.sent c i ∈ s.trace → i < s.dequeued.length
  -- the line that is held has no acknowledgement yet
  waiting : s.pc ≠ .ldeq → ∀ a c b, s.trace = a ++ .sent c s.held :: b → ∀ c', Act.acked c' ∉ b
  sent : ∀ a c i b, s.trace = a ++ .sent c (i + 1) :: b → Acked a i
  freed : ∀ a i b, s.trace = a ++ .freed i :: b → Acked a i

theorem traced_init : Traced State.init where
  busy h := absurd rfl h
  acked i hi := absurd hi (Nat.not_lt_zero i)
  last h := absurd h (by decide)
  lt c i h := absurd h List.not_mem_nil
  waiting h := absurd rfl h
  sent a c i b h := absurd h (by simp [State.init])
  freed a i b h := absurd h (by simp [State.init])

namespace Traced
variable {s s' : State}

/-- Without an act and with the same line held. -/
theorem of_eq (h : Traced s) (ht : s'.trace = s.trace) (hd : s'.dequeued = s.dequeued)
    (hpc : s.pc ≠ .ldeq) (hpc' : s'.pc ≠ .ldeq) (hrecv : s'.pc ≠ .recv) : Traced s' where
  busy _ := hd ▸ h.busy hpc
  acked i hi := by
    rw [State.done, if_neg hpc', State.held, hd] at hi
    rw [ht]
    exact h.acked i (by rw [State.done, if_neg hpc]; exact hi)
  last hr := absurd hr hrecv
  lt := by rw [ht, hd]; exact h.lt
  waiting _ := by rw [ht, State.held, hd]; exact h.waiting hpc
  sent := by rw [ht]; exact h.sent
  freed := by rw [ht]; exact h.freed

theorem of_act (h : Traced s) {y : Act} (ht : s'.trace = s.trace ++ [y])
    (hd : s'.dequeued = s.dequeued) (hpc : s.pc ≠ .ldeq) (hpc' : s'.pc ≠ .ldeq)
    (hsent : ∀ c i, y = .sent c i → i = s.held) (hacked : ∀ c, y ≠ .acked c) (hfreed : ∀ i, y ≠ .freed i)
    (hrecv : s'.pc = .recv → y = .sent s'.sock s.held) : Traced s' where
  busy _ := hd ▸ h.busy hpc
  acked i hi := by
    rw [State.done, if_neg hpc', State.held, hd] at hi
    rw [ht]
    exact (h.acked i (by rw [State.done, if_neg hpc]; exact hi)).append _
  last hr := ⟨s.trace, by rw [ht, hrecv hr, State.held, State.held, hd]⟩
  lt c i hmem := by
    rw [ht, List.mem_append, List.mem_singleton] at hmem
    rw [hd]
    rcases hmem with hmem | hmem
    · exact h.lt c i hmem
    · have hpos := h.busy hpc
      rw [hsent c i hmem.symm, State.held]
      omega
  waiting _ a c b heq c' hmem := by
    rw [ht, State.held, hd] at heq
    rcases split_concat heq with ⟨-, -, rfl⟩ | ⟨b', rfl, hsplit⟩
    · exact absurd hmem List.not_mem_nil
    · rcases List.mem_append.mp hmem with hmem | hmem
      · exact h.waiting hpc a c b' hsplit c' hmem
      · exact hacked c' (List.mem_singleton.mp hmem).symm
  sent a c i b heq := by
    rw [ht] at heq
    rcases split_concat heq with ⟨rfl, hy, -⟩ | ⟨b', -, heq⟩
    · refine h.acked i ?_
      rw [State.done, if_neg hpc, ← hsent c _ hy]
      exact Nat.lt_succ_self i
    · exact h.sent a c i b' heq
  freed a i b heq := by
    rw [ht] at heq
    rcases split_concat heq with ⟨-, hy, -⟩ | ⟨b', -, heq⟩
    · exact absurd hy (hfreed i)
    · exact h.freed a i b' heq

theorem of_frame (h : Traced s) (ht : s'.trace = s.trace) (hpc : s'.pc = s.pc)
    (hd : s'.dequeued = s.dequeued) (hsock : s'.sock = s.sock) : Traced s' := by
  have hheld : s'.held = s.held := by rw [State.held, State.held, hd]
  have hdone : s'.done = s.done := by rw [State.done, State.done, hpc, hd, hheld]
  refine ⟨?_, ?_, ?_, ?_, ?_, ?_, ?_⟩
  · rw [hpc, hd]
    exact h.busy
  · rw [hdone, ht]
    exact h.acked
  · rw [hpc, ht, hsock, hheld]
    exact h.last
  · rw [ht, hd]
    exact h.lt
  · rw [hpc, ht, hheld]
    exact h.waiting
  · rw [ht]
    exact h.sent
  · rw [ht]
    exact h.freed

/-- A new line is held. -/
theorem of_ldeq (h : Traced s) {log : CStr} (ht : s'.trace = s.trace)
    (hd : s'.dequeued = s.dequeued ++ [log]) (hpc : s.pc = .ldeq) (hpc' : s'.pc = .top) : Traced s' where
  busy _ := by simp [hd]
  acked i hi := by
    rw [State.done, if_neg (by simp [hpc']), State.held, hd, List.length_append, List.length_singleton,
      Nat.add_sub_cancel] at hi
    rw [ht]
    exact h.acked i (by rw [State.done, if_pos hpc]; exact hi)
  last hr := absurd (hpc'.symm.trans hr) (by decide)
  lt c i hmem := by
    rw [ht] at hmem
    rw [hd, List.length_append]
    exact Nat.lt_add_right _ (h.lt c i hmem)
  waiting _ a c b heq := by
    -- it has not been sent
    rw [ht, State.held, hd, List.length_append, List.length_singleton, Nat.add_sub_cancel] at heq
    exact absurd (h.lt c _ (by rw [heq]; simp)) (Nat.lt_irrefl _)
  sent := by rw [ht]; exact h.sent
  freed := by rw [ht]; exact h.freed

/-- The acknowledgement, and with it the end of the line. -/
theorem of_recv (h : Traced s) (hpc : s.pc = .recv) (hpc' : s'.pc = .ldeq)
    (ht : s'.trace = s.trace ++ [.acked s.sock] ++ [.freed s.held]) (hd : s'.dequeued = s.dequeued) :
    Traced s' := by
  have hbusy : s.pc ≠ .ldeq := by simp [hpc]
  have hheld : Acked (s.trace ++ [.acked s.sock]) s.held := by
    obtain ⟨a, ha⟩ := h.last hpc
    exact ⟨a, [], [], s.sock, by simp [ha], List.not_mem_nil⟩
  refine ⟨fun hne => absurd hpc' hne, fun i hi => ?_, fun hr => absurd (hpc'.symm.trans hr) (by decide),
    fun c i hmem => ?_, fun hne => absurd hpc' hne, fun a c i b heq => ?_, fun a i b heq => ?_⟩
  · rw [State.done, if_pos hpc', hd] at hi
    rw [ht]
    rcases Nat.lt_or_ge i s.held with hlt | hge
    · rw [List.append_assoc]
      exact (h.acked i (by rw [State.done, if_neg hbusy]; exact hlt)).append _
    · obtain rfl : i = s.held := by
        unfold State.held at hge ⊢
        omega
      exact hheld.append _
  · rw [ht] at hmem
    rw [hd]
    simp only [List.mem_append, List.mem_singleton, reduceCtorEq, or_false] at hmem
    exact h.lt c i hmem
  · rw [ht] at heq
    rcases split_concat heq with ⟨-, hy, -⟩ | ⟨b', -, heq⟩
    · cases hy
    · rcases split_concat heq with ⟨-, hy, -⟩ | ⟨b', -, heq⟩
      · cases hy
      · exact h.sent a c i b' heq
  · rw [ht] at heq
    rcases split_concat heq with ⟨rfl, hy, -⟩ | ⟨b', -, heq⟩
    · cases hy
      exact hheld
    · rcases split_concat heq with ⟨-, hy, -⟩ | ⟨b', -, heq⟩
      · cases hy
      · exact h.freed a i b' heq

theorem handlerStep (h : Traced s) {ok : Bool} (hs : s.handlerStep ok = some s') : Traced s' := by
  have hclose : ∀ {t : State}, s.pc ≠ .ldeq → t = s.close → Traced t := by
    rintro t hpc rfl
    exact h.of_act rfl rfl hpc (by simp [State.close]) (by simp) (by simp) (by simp)
      (by simp [State.close])
  unfold State.handlerStep at hs
  cases hpc : s.pc with
  | ldeq =>
    simp only [hpc] at hs
    cases hq : s.queue with
    | nil => simp [hq] at hs
    | cons log q =>
      simp only [hq, Option.some.injEq] at hs
      subst hs
      exact h.of_ldeq rfl rfl hpc rfl
  | top =>
    simp only [hpc] at hs
    split_ifs at hs
    · cases hs
      exact h.of_eq rfl rfl (by simp [hpc]) (by simp) (by simp)
    · cases hs
      exact h.of_eq rfl rfl (by simp [hpc]) (by simp) (by simp)
    · cases hs
      exact h.of_eq rfl rfl (by simp [hpc]) (by simp) (by simp)
  | socket =>
    simp only [hpc] at hs
    cases hs
    cases ok <;> exact h.of_eq rfl rfl (by simp [hpc]) (by simp) (by simp)
  | connect =>
    simp only [hpc] at hs
    split_ifs at hs <;> cases hs <;> exact h.of_eq rfl rfl (by simp [hpc]) (by simp) (by simp)
  | send =>
    simp only [hpc] at hs
    split_ifs at hs <;> cases hs
    · exact h.of_act rfl rfl (by simp [hpc]) (by simp) (by simp) (by simp) (by simp) fun _ => rfl
    · exact hclose (by simp [hpc]) rfl
  | recv =>
    simp only [hpc] at hs
    split_ifs at hs
    · split at hs
      · cases hs
      · cases hs
        exact h.of_recv hpc rfl rfl rfl
    · cases hs
      exact hclose (by simp [hpc]) rfl

end Traced

/-! ### Connections -/

namespace Conn
variable (x : Conn)

/-- The lines that the log server may still put into its queue. -/
def flight : List Item :=
  x.toServer ++ match x.pc with
    | .lenq y => [y]
    | _ => []

/-- The lines and acknowledgements on their way. -/
def load : ℕ :=
  x.toServer.length + (match x.pc with
    | .lenq _ => 1
    | .send => 1
    | _ => 0) + x.toClient

theorem load_zero {x : Conn} (h : x.load = 0) :
    x.toServer = [] ∧ x.toClient = 0 ∧ (x.pc = .recv ∨ x.pc = .ended) := by
  unfold load at h
  have hto : x.toServer.length = 0 := by omega
  refine ⟨List.eq_nil_of_length_eq_zero hto, by omega, ?_⟩
  cases hpc : x.pc with
  | recv => exact Or.inl rfl
  | ended => exact Or.inr rfl
  | lenq y => simp [hpc] at h
  | send => simp [hpc] at h

/-- There is an acknowledgement, or there will be one. -/
def Replied : Prop := x.pc = .send ∨ 0 < x.toClient

end Conn

/-- What holds of the connections and of the log server. -/
structure Flow (s : State) : Prop where
  needs : s.pc = .send ∨ s.pc = .recv → s.up = true
  sock : s.up = true → s.sock < s.fresh
  unused : ∀ c, s.fresh ≤ c → s.conn c = ⟨[], .recv, 0⟩
  log : s.pc ≠ .ldeq → s.dequeued[s.held]? = some s.log
  -- what comes late is an old line
  flight : ∀ c, ∀ x ∈ (s.conn c).flight, s.dequeued[x.1]? = some x.2
  quiet : s.up = true → s.pc ≠ .recv → (s.conn s.sock).load = 0
  one : s.pc = .recv → (s.conn s.sock).load ≤ 1
  own : s.pc = .recv → ∀ x ∈ (s.conn s.sock).flight, x.1 = s.held
  replied : s.pc = .recv → (s.conn s.sock).Replied → s.held ∈ s.received.map Prod.fst
  got : ∀ i < s.done, i ∈ s.received.map Prod.fst
  texts : ∀ x ∈ s.received, s.dequeued[x.1]? = some x.2
  order : InOrder s.received

theorem flow_init : Flow State.init where
  needs h := absurd h (by decide)
  sock h := absurd h (by decide)
  unused _ _ := rfl
  log h := absurd rfl h
  flight c x hx := absurd hx List.not_mem_nil
  quiet h := absurd h (by decide)
  one h := absurd h (by decide)
  own h := absurd h (by decide)
  replied h := absurd h (by decide)
  got i hi := absurd hi (Nat.not_lt_zero i)
  texts x hx := absurd hx List.not_mem_nil
  order a x b h := absurd h (by simp [State.init])

theorem InOrder.concat {received : List Item} (h : InOrder received) {y : Item}
    (hy : ∀ k < y.1, k ∈ received.map Prod.fst) : InOrder (received ++ [y]) := by
  intro a x b heq k hk
  rcases List.eq_nil_or_concat b with rfl | ⟨b', z, rfl⟩
  · have h' := List.append_inj' heq rfl
    rw [← h'.1]
    exact hy k (List.singleton_inj.mp h'.2 ▸ hk)
  · rw [List.concat_eq_append, ← List.cons_append, ← List.append_assoc] at heq
    exact h a x b' (List.append_inj' heq rfl).1 k hk

namespace Flow
variable {s s' : State}

/-- A line that may still come is not ahead of the ones that have not been received. -/
theorem le_done (h : Flow s) {c : ℕ} {x : Item} (hx : x ∈ (s.conn c).flight) : x.1 ≤ s.done := by
  obtain ⟨hlt, -⟩ := List.getElem?_eq_some_iff.mp (h.flight c x hx)
  unfold State.done State.held
  split_ifs <;> omega

/-- A step of a thread of the log server. -/
theorem of_server (h : Flow s) {c : ℕ} {x' : Conn} (hc : c < s.fresh) (new : List Item)
    (hnew : new = [] ∨ ∃ y ∈ (s.conn c).flight, new = [y]) (hload : x'.load ≤ (s.conn c).load)
    (hflight : ∀ y ∈ x'.flight, y ∈ (s.conn c).flight)
    (hreplied : x'.Replied → (s.conn c).Replied ∨ ∃ y ∈ (s.conn c).flight, y ∈ new) :
    Flow { s.setConn c x' with received := s.received ++ new } := by
  have hconn : ∀ c', (c' = c ∧ (s.setConn c x').conn c' = x') ∨ (s.setConn c x').conn c' = s.conn c' := by
    intro c'
    by_cases hcc : c' = c
    · exact Or.inl ⟨hcc, hcc ▸ Function.update_self _ _ _⟩
    · exact Or.inr (Function.update_of_ne hcc _ _)
  have hload' : ∀ c', ((s.setConn c x').conn c').load ≤ (s.conn c').load := by
    intro c'
    rcases hconn c' with ⟨rfl, hx⟩ | hx <;> rw [hx]
    exact hload
  have hflight' : ∀ c', ∀ y ∈ ((s.setConn c x').conn c').flight, y ∈ (s.conn c').flight := by
    intro c'
    rcases hconn c' with ⟨rfl, hx⟩ | hx <;> rw [hx]
    · exact hflight
    · exact fun _ hy => hy
  have hreplied' : ∀ c', ((s.setConn c x').conn c').Replied →
      (s.conn c').Replied ∨ ∃ y ∈ (s.conn c').flight, y ∈ new := by
    intro c'
    rcases hconn c' with ⟨rfl, hx⟩ | hx <;> rw [hx]
    · exact hreplied
    · exact Or.inl
  have hold : ∀ y ∈ new, ∃ c, y ∈ (s.conn c).flight := by
    intro y hy
    rcases hnew with rfl | ⟨z, hz, rfl⟩
    · exact absurd hy List.not_mem_nil
    · exact ⟨c, List.mem_singleton.mp hy ▸ hz⟩
  refine ⟨h.needs, h.sock, fun c' hc' => ?_, h.log, fun c' y hy => h.flight c' y (hflight' c' y hy),
    fun hup hpc => Nat.le_zero.mp (h.quiet hup hpc ▸ hload' s.sock), fun hpc => (hload' s.sock).trans (h.one hpc),
    fun hpc y hy => h.own hpc y (hflight' s.sock y hy), fun hpc hx => ?_, fun i hi => ?_, fun y hy => ?_, ?_⟩
  · rcases hconn c' with ⟨rfl, -⟩ | hx
    · exact absurd hc (Nat.not_lt.mpr hc')
    · exact hx.trans (h.unused c' hc')
  · rw [List.map_append, List.mem_append]
    rcases hreplied' s.sock hx with hx | ⟨y, hy, hmem⟩
    · exact Or.inl (h.replied hpc hx)
    · exact Or.inr (List.mem_map.mpr ⟨y, hmem, h.own hpc y hy⟩)
  · rw [List.map_append]
    exact List.mem_append_left _ (h.got i hi)
  · rcases List.mem_append.mp hy with hy | hy
    · exact h.texts y hy
    · obtain ⟨c', hy⟩ := hold y hy
      exact h.flight c' y hy
  · rcases hnew with rfl | ⟨z, hz, rfl⟩
    · rw [List.append_nil]
      exact h.order
    · exact h.order.concat fun k hk => h.got k (hk.trans_le (h.le_done hz))

/-- One that puts nothing into the queue. -/
theorem of_conn (h : Flow s) {c : ℕ} {x' : Conn} (hc : c < s.fresh) (hload : x'.load ≤ (s.conn c).load)
    (hflight : ∀ y ∈ x'.flight, y ∈ (s.conn c).flight) (hreplied : x'.Replied → (s.conn c).Replied) :
    Flow (s.setConn c x') := by
  have hstep := h.of_server hc [] (Or.inl rfl) hload hflight fun hx => Or.inl (hreplied hx)
  rwa [List.append_nil] at hstep

theorem serverStep (h : Flow s) {c : ℕ} {ok : Bool} (hs : s.serverStep c ok = some s') : Flow s' := by
  unfold State.serverStep at hs
  by_cases hc : c < s.fresh
  swap
  · rw [if_neg hc] at hs
    cases hs
  rw [if_pos hc] at hs
  cases hpc : (s.conn c).pc with
  | recv =>
    simp only [hpc] at hs
    split_ifs at hs
    · cases hto : (s.conn c).toServer with
      | nil => simp [hto] at hs
      | cons y rest =>
        simp only [hto, Option.some.injEq] at hs
        subst hs
        refine h.of_conn hc (by simp [Conn.load, hto, hpc]) ?_ ?_
        · intro z hz
          simp only [Conn.flight, hto, hpc, List.append_nil, List.mem_append, List.mem_singleton] at hz ⊢
          rcases hz with hz | rfl
          · exact List.mem_cons_of_mem _ hz
          · exact List.mem_cons_self
        · rintro (hx | hx)
          · cases hx
          · exact Or.inr hx
    · cases hs
      refine h.of_conn hc (by simp [Conn.load, hpc]) (by simp [Conn.flight, hpc]) ?_
      rintro (hx | hx)
      · cases hx
      · exact Or.inr hx
  | lenq y =>
    simp only [hpc, Option.some.injEq] at hs
    subst hs
    have hy : y ∈ (s.conn c).flight := by simp [Conn.flight, hpc]
    refine h.of_server hc [y] (Or.inr ⟨y, hy, rfl⟩) (by simp [Conn.load, hpc]) ?_
      fun _ => Or.inr ⟨y, hy, List.mem_singleton_self y⟩
    intro z hz
    simp only [Conn.flight, List.append_nil] at hz
    exact List.mem_append_left _ hz
  | send =>
    simp only [hpc, Option.some.injEq] at hs
    subst hs
    refine h.of_conn hc ?_ (by simp [Conn.flight, hpc]) fun _ => Or.inl hpc
    cases ok <;> simp [Conn.load, hpc]
    omega
  | ended => simp [hpc] at hs

/-! ### `log_handler` -/

/-- An array of one host. -/
theorem host_eq {α : Type} (f : Fin NUM_LOG → α) (i j : Fin NUM_LOG) : f i = f j :=
  congrArg f (Subsingleton.elim i j)

/-- With the same connections, and neither a line nor an answer waited for. -/
theorem of_eq (h : Flow s) (hup : s'.up = true → s.up = true ∧ s'.sock = s.sock)
    (hneeds : s'.pc = .send → s'.up = true) (hc : s'.conn = s.conn) (hf : s'.fresh = s.fresh)
    (hd : s'.dequeued = s.dequeued) (hl : s'.log = s.log) (hr : s'.received = s.received)
    (hpc : s.pc ≠ .ldeq) (hpc' : s'.pc ≠ .ldeq)
    (hrecv : s'.up = true → s.pc ≠ .recv) (hrecv' : s'.pc ≠ .recv) : Flow s' where
  needs := by
    rintro (h' | h')
    · exact hneeds h'
    · exact absurd h' hrecv'
  sock hu := by
    rw [(hup hu).2, hf]
    exact h.sock (hup hu).1
  unused := by rw [hf, hc]; exact h.unused
  log _ := by rw [hd, State.held, hd, hl]; exact h.log hpc
  flight := by rw [hc, hd]; exact h.flight
  quiet hu _ := by
    rw [hc, (hup hu).2]
    exact h.quiet (hup hu).1 (hrecv hu)
  one hr' := absurd hr' hrecv'
  own hr' := absurd hr' hrecv'
  replied hr' := absurd hr' hrecv'
  got i hi := by
    rw [State.done, if_neg hpc', State.held, hd] at hi
    rw [hr]
    exact h.got i (by rw [State.done, if_neg hpc]; exact hi)
  texts := by rw [hr, hd]; exact h.texts
  order := by rw [hr]; exact h.order

theorem of_ldeq (h : Flow s) {log : CStr} {queue : List CStr} (hpc : s.pc = .ldeq) :
    Flow { s with queue, log, dequeued := s.dequeued ++ [log], pc := .top } := by
  have hmono : ∀ {i : ℕ} {x : CStr}, s.dequeued[i]? = some x → (s.dequeued ++ [log])[i]? = some x := by
    intro i x hx
    obtain ⟨hlt, -⟩ := List.getElem?_eq_some_iff.mp hx
    rw [List.getElem?_append_left hlt]
    exact hx
  have hheld : (s.dequeued ++ [log]).length - 1 = s.dequeued.length := by simp
  refine ⟨fun h' => absurd h' (by simp), h.sock, h.unused, fun _ => ?_, fun c x hx => hmono (h.flight c x hx),
    fun hup _ => h.quiet hup (by simp [hpc]), fun h' => absurd h' (by simp), fun h' => absurd h' (by simp),
    fun h' => absurd h' (by simp), fun i hi => ?_, fun x hx => hmono (h.texts x hx), h.order⟩
  · rw [State.held, hheld]
    exact List.getElem?_concat_length ..
  · refine h.got i ?_
    rw [State.done, if_pos hpc]
    rw [State.done, if_neg (by simp), State.held, hheld] at hi
    exact hi

/-- The connection was empty, and has the line now. -/
theorem of_send (h : Flow s) (hpc : s.pc = .send) :
    Flow { (s.setConn s.sock { s.conn s.sock with
      toServer := (s.conn s.sock).toServer ++ [(s.held, s.log)] }).act (.sent s.sock s.held) with pc := .recv } := by
  have hup := h.needs (Or.inl hpc)
  obtain ⟨hto, hacks, hidle⟩ := Conn.load_zero (h.quiet hup (by simp [hpc]))
  have hlog := h.log (by simp [hpc])
  rw [hto, List.nil_append]
  set x' : Conn := { s.conn s.sock with toServer := [(s.held, s.log)] } with hx'
  have hself : (s.setConn s.sock x').conn s.sock = x' := Function.update_self _ _ _
  have hother : ∀ c, c ≠ s.sock → (s.setConn s.sock x').conn c = s.conn c := fun c hc =>
    Function.update_of_ne hc _ _
  have hflight : x'.flight = [(s.held, s.log)] := by
    rcases hidle with hidle | hidle <;> simp [hx', Conn.flight, hidle]
  have hload : x'.load = 1 := by
    rcases hidle with hidle | hidle <;> simp [hx', Conn.load, hidle, hacks]
  refine ⟨fun _ => hup, h.sock, fun c hc => ?_, fun _ => hlog, fun c y hy => ?_, fun _ h' => absurd rfl h',
    fun _ => (congrArg Conn.load hself).trans_le hload.le, fun _ y hy => ?_, fun _ hx => ?_, fun i hi => ?_,
    h.texts, h.order⟩
  · have hne : c ≠ s.sock := by
      rintro rfl
      exact absurd (h.sock hup) (Nat.not_lt.mpr hc)
    exact (hother c hne).trans (h.unused c hc)
  · by_cases hc : c = s.sock
    · subst hc
      have hy' : y ∈ x'.flight := hself ▸ hy
      rw [hflight, List.mem_singleton] at hy'
      rw [hy']
      exact hlog
    · have hy' : y ∈ (s.conn c).flight := hother c hc ▸ hy
      exact h.flight c y hy'
  · have hy' : y ∈ x'.flight := hself ▸ hy
    rw [hflight, List.mem_singleton] at hy'
    rw [hy']
    rfl
  · have hx'' : x'.Replied := hself ▸ hx
    rcases hx'' with hsend | hpos
    · rcases hidle with hidle | hidle <;> exact absurd (hidle.symm.trans hsend) (by simp)
    · exact absurd hacks hpos.ne'
  · refine h.got i ?_
    rw [State.done, if_neg (by simp [hpc])]
    rw [State.done, if_neg (by simp)] at hi
    exact hi

/-- The connection is empty again, and the log server has the line. -/
theorem of_recv (h : Flow s) (hpc : s.pc = .recv) {acks : ℕ} (hacks : (s.conn s.sock).toClient = acks + 1) :
    Flow { ((s.setConn s.sock { s.conn s.sock with toClient := acks }).act (.acked s.sock)).act
      (.freed s.held) with currLOG := s.next, pc := .ldeq } := by
  have hup := h.needs (Or.inr hpc)
  have hone := h.one hpc
  have hreplied := h.replied hpc (Or.inr (by omega))
  set x' : Conn := { s.conn s.sock with toClient := acks } with hx'
  have hself : (s.setConn s.sock x').conn s.sock = x' := Function.update_self _ _ _
  have hother : ∀ c, c ≠ s.sock → (s.setConn s.sock x').conn c = s.conn c := fun c hc =>
    Function.update_of_ne hc _ _
  have hload : x'.load = 0 := by
    unfold Conn.load at hone ⊢
    rw [hacks] at hone
    simp only [hx']
    omega
  have hsock : s.logSock s.next = s.sock := host_eq _ _ _
  refine ⟨fun h' => absurd h' (by simp), fun _ => ?_, fun c hc => ?_, fun h' => absurd rfl h', fun c y hy => ?_,
    fun _ _ => ?_, fun h' => absurd h' (by simp), fun h' => absurd h' (by simp), fun h' => absurd h' (by simp),
    fun i hi => ?_, h.texts, h.order⟩
  · exact hsock.trans_lt (h.sock hup)
  · have hne : c ≠ s.sock := by
      rintro rfl
      exact absurd (h.sock hup) (Nat.not_lt.mpr hc)
    exact (hother c hne).trans (h.unused c hc)
  · by_cases hc : c = s.sock
    · subst hc
      have hy' : y ∈ x'.flight := hself ▸ hy
      exact h.flight s.sock y hy'
    · have hy' : y ∈ (s.conn c).flight := hother c hc ▸ hy
      exact h.flight c y hy'
  · exact (congrArg (fun c => ((s.setConn s.sock x').conn c).load) hsock).trans
      ((congrArg Conn.load hself).trans hload)
  · rw [State.done, if_pos rfl] at hi
    rcases Nat.lt_or_ge i s.held with hlt | hge
    · exact h.got i (by rw [State.done, if_neg (by simp [hpc])]; exact hlt)
    · obtain rfl : i = s.held := by
        have hlt : i < s.dequeued.length := hi
        unfold State.held at hge ⊢
        omega
      exact hreplied

theorem of_connect (h : Flow s) (hpc : s.pc = .connect) :
    Flow { s.setConnected true with
      logSock := Function.update s.logSock s.currLOG s.fresh, fresh := s.fresh + 1, pc := .send } := by
  have hsock : Function.update s.logSock s.currLOG s.fresh s.currLOG = s.fresh := Function.update_self _ _ _
  refine ⟨fun _ => Function.update_self _ _ _, fun _ => ?_, fun c hc => h.unused c (Nat.le_of_succ_le hc),
    fun _ => h.log (by simp [hpc]), h.flight, fun _ _ => ?_, fun h' => absurd h' (by simp),
    fun h' => absurd h' (by simp), fun h' => absurd h' (by simp), fun i hi => ?_, h.texts, h.order⟩
  · exact hsock.trans_lt (Nat.lt_succ_self _)
  · have hload := congrArg Conn.load (h.unused s.fresh le_rfl)
    exact (congrArg (fun c => (s.conn c).load) hsock).trans hload
  · refine h.got i ?_
    rw [State.done, if_neg (by simp [hpc])]
    rw [State.done, if_neg (by simp)] at hi
    exact hi

theorem of_close (h : Flow s) (hpc : s.pc ≠ .ldeq) : Flow s.close := by
  have hdown : s.close.up = false := Function.update_self _ _ _
  exact h.of_eq (fun hu => absurd (hdown.symm.trans hu) (by decide)) (fun h' => absurd h' (by simp [State.close]))
    rfl rfl rfl rfl rfl hpc (by simp [State.close]) (fun hu => absurd (hdown.symm.trans hu) (by decide))
    (by simp [State.close])

theorem handlerStep (h : Flow s) {ok : Bool} (hs : s.handlerStep ok = some s') : Flow s' := by
  unfold State.handlerStep at hs
  cases hpc : s.pc with
  | ldeq =>
    simp only [hpc] at hs
    cases hq : s.queue with
    | nil => simp [hq] at hs
    | cons log q =>
      simp only [hq, Option.some.injEq] at hs
      subst hs
      exact h.of_ldeq hpc
  | top =>
    simp only [hpc] at hs
    split_ifs at hs with hup
    · cases hs
      exact h.of_eq (fun hu => ⟨hu, rfl⟩) (fun _ => hup) rfl rfl rfl rfl rfl (by simp [hpc]) (by simp)
        (by simp [hpc]) (by simp)
    · cases hs
      exact h.of_eq (fun hu => ⟨hu, rfl⟩) (by simp) rfl rfl rfl rfl rfl (by simp [hpc]) (by simp)
        (by simp [hpc]) (by simp)
    · cases hs
      exact h.of_eq (fun hu => ⟨(host_eq s.connected _ _).trans hu, host_eq s.logSock _ _⟩) (by simp) rfl rfl rfl
        rfl rfl (by simp [hpc]) (by simp) (by simp [hpc]) (by simp)
  | socket =>
    simp only [hpc] at hs
    cases hs
    cases ok <;> exact h.of_eq (fun hu => ⟨hu, rfl⟩) (by simp) rfl rfl rfl rfl rfl (by simp [hpc]) (by simp)
      (by simp [hpc]) (by simp)
  | connect =>
    simp only [hpc] at hs
    split_ifs at hs
    · cases hs
      exact h.of_connect hpc
    · cases hs
      exact h.of_eq (fun hu => ⟨hu, rfl⟩) (by simp) rfl rfl rfl rfl rfl (by simp [hpc]) (by simp)
        (by simp [hpc]) (by simp)
  | send =>
    simp only [hpc] at hs
    split_ifs at hs
    · cases hs
      exact h.of_send hpc
    · cases hs
      exact h.of_close (by simp [hpc])
  | recv =>
    simp only [hpc] at hs
    split_ifs at hs
    · split at hs
      · cases hs
      · rename_i hacks
        cases hs
        exact h.of_recv hpc hacks
    · cases hs
      exact h.of_close (by simp [hpc])

end Flow

/-! ### Runs -/

/-- The lines that are put into the queue. -/
def lines (es : List Event) : List CStr :=
  es.filterMap fun
    | .lenq line => some line
    | _ => none

section
variable {s s' : State} {e : Event}

theorem step_traced (h : Traced s) (hs : s.step e = some s') : Traced s' := by
  cases e with
  | lenq line =>
    simp only [State.step] at hs
    split_ifs at hs
    cases hs
    exact ⟨h.busy, h.acked, h.last, h.lt, h.waiting, h.sent, h.freed⟩
  | handler ok => exact h.handlerStep hs
  | server c ok =>
    obtain ⟨ht, hpc, hd, hsock, -⟩ := State.serverStep_frame hs
    exact h.of_frame ht hpc hd hsock

theorem step_flow (h : Flow s) (hs : s.step e = some s') : Flow s' := by
  cases e with
  | lenq line =>
    simp only [State.step] at hs
    split_ifs at hs
    cases hs
    exact ⟨h.needs, h.sock, h.unused, h.log, h.flight, h.quiet, h.one, h.own, h.replied, h.got, h.texts, h.order⟩
  | handler ok => exact h.handlerStep hs
  | server c ok => exact h.serverStep hs

theorem step_lines (hs : s.step e = some s') :
    s'.dequeued ++ s'.queue = s.dequeued ++ s.queue ++ lines [e] := by
  cases e with
  | lenq line =>
    simp only [State.step] at hs
    split_ifs at hs
    cases hs
    simp [lines]
  | server c ok =>
    obtain ⟨-, -, hd, -, hqueue⟩ := State.serverStep_frame hs
    rw [hqueue, hd]
    simp [lines]
  | handler ok =>
    have hnone : lines [Event.handler ok] = [] := rfl
    rw [hnone, List.append_nil]
    simp only [State.step, State.handlerStep] at hs
    cases hpc : s.pc with
    | ldeq =>
      simp only [hpc] at hs
      cases hq : s.queue with
      | nil => simp [hq] at hs
      | cons log q =>
        simp only [hq, Option.some.injEq] at hs
        subst hs
        simp
    | top =>
      simp only [hpc] at hs
      split_ifs at hs <;> cases hs <;> rfl
    | socket =>
      simp only [hpc] at hs
      cases hs
      rfl
    | connect =>
      simp only [hpc] at hs
      split_ifs at hs <;> cases hs <;> rfl
    | send =>
      simp only [hpc] at hs
      split_ifs at hs <;> cases hs <;> rfl
    | recv =>
      simp only [hpc] at hs
      split_ifs at hs
      · split at hs <;> cases hs
        rfl
      · cases hs
        rfl

/-- The queue is a queue. -/
theorem exec_lines : ∀ {es : List Event} {s s' : State}, exec State.step s es = some s' →
    s'.dequeued ++ s'.queue = s.dequeued ++ s.queue ++ lines es := by
  intro es
  induction es with
  | nil =>
    intro s s' h
    cases h
    simp [lines]
  | cons e es ih =>
    intro s s' h
    obtain ⟨s₁, hs, hrun⟩ := exec_cons_some h
    rw [ih hrun, step_lines hs, List.append_assoc]
    have happ : lines ([e] ++ es) = lines [e] ++ lines es := List.filterMap_append
    exact congrArg (s.dequeued ++ s.queue ++ ·) happ.symm

end

/-- In every run: `log_handler` sends a line, and frees it, only after an acknowledgement for the one
    before, and for it; the log server has received the lines up to the last one acknowledged, and
    none ahead of an earlier one. -/
theorem delivered {es : List Event} {s : State} (hrun : exec State.step State.init es = some s) :
    (∀ a c i b, s.trace = a ++ .sent c (i + 1) :: b → Acked a i) ∧
      (∀ a i b, s.trace = a ++ .freed i :: b → Acked a i) ∧
      (∀ i, Acked s.trace i → ∀ k ≤ i, ∃ line, (lines es)[k]? = some line ∧ (k, line) ∈ s.received) ∧
      (∀ x ∈ s.received, (lines es)[x.1]? = some x.2) ∧ InOrder s.received := by
  obtain ⟨htraced, hflow⟩ := exec_inv (fun s e s' (hi : Traced s ∧ Flow s) hs =>
    ⟨step_traced hi.1 hs, step_flow hi.2 hs⟩) es State.init s ⟨traced_init, flow_init⟩ hrun
  have hlines : lines es = s.dequeued ++ s.queue := (exec_lines hrun).symm
  have htext : ∀ x ∈ s.received, (lines es)[x.1]? = some x.2 := by
    intro x hx
    have hget := hflow.texts x hx
    obtain ⟨hlt, -⟩ := List.getElem?_eq_some_iff.mp hget
    rw [hlines, List.getElem?_append_left hlt]
    exact hget
  refine ⟨htraced.sent, htraced.freed, fun i hi k hk => ?_, htext, hflow.order⟩
  have hdone : i < s.done := by
    obtain ⟨a, b, d, c, heq, -⟩ := hi
    have hlt := htraced.lt c i (by simp [heq])
    by_contra hge
    unfold State.done at hge
    split_ifs at hge with hpc
    · exact hge hlt
    · obtain rfl : i = s.held := by
        unfold State.held at hge ⊢
        omega
      exact htraced.waiting hpc a c (b ++ .acked c :: d) (by rw [heq, List.append_assoc, List.cons_append]) c (by simp)
  obtain ⟨x, hx, rfl⟩ := List.mem_map.mp (hflow.got k (lt_of_le_of_lt hk hdone))
  exact ⟨x.2, htext x hx, hx⟩

/-- A `recv` fails, the line is sent again on a second connection, and comes late on the first. -/
def sentTwice : List Event :=
  let ok := Event.handler true
  [.lenq "one".toList, .lenq "two".toList, ok, ok, ok, ok, ok, .handler false, ok, ok, ok, ok, .server 1 true,
    .server 1 true, .server 1 true, ok, ok, ok, ok, .server 0 true, .server 0 true]

theorem delivered_sentTwice : ∃ s, exec State.step State.init sentTwice = some s ∧
    s.received = [(0, "one".toList), (0, "one".toList)] ∧
      (∀ a c i b, s.trace = a ++ .sent c (i + 1) :: b → Acked a i) ∧
      (∀ a i b, s.trace = a ++ .freed i :: b → Acked a i) ∧
      (∀ i, Acked s.trace i → ∀ k ≤ i, ∃ line, (lines sentTwice)[k]? = some line ∧ (k, line) ∈ s.received) ∧
      (∀ x ∈ s.received, (lines sentTwice)[x.1]? = some x.2) ∧ InOrder s.received := by
  obtain ⟨s, hs, hreceived⟩ : ∃ s ∈ exec State.step State.init sentTwice,
      s.received = [(0, "one".toList), (0, "one".toList)] := by decide
  exact ⟨s, hs, hreceived, delivered hs⟩

end TradeC.Delivery
