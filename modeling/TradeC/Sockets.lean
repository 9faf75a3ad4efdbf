import TradeC.QuoteHandler
import TradeC.Lib.Trail

/-! What `quote_handler` sends on, receives from and closes, along every run of its main loop.

    The handler looks at `connected[i]` before it uses a socket in the loop over the load balancers, but not at
    `connected[currLB]` before it asks for a new quote. Whether it uses a closed socket there is said of the
    calls alone, and of what the network made of them: `Breaks`. -/

namespace TradeC.QuoteHandler
open Quotes Run

section
variable {numLB : ℕ} {w : ℤ → ℤ}

/-! ### Where the loop stands -/

/-- What the flag of the load balancer is that the loop has come to. -/
def Placed (numLB : ℕ) (s : Handler) : Prop :=
  match s.pc with
  | .getaddrinfo i | .socket i => i < numLB ∧ s.connected i = false
  | .connect i => i < numLB ∧ s.connected i = false ∧ s.fds (s.loadBalSock i) = .opened
  | .send i | .recv i => i < numLB ∧ s.connected i = true
  | .qdeq | .sendNew | .recvNew => True

structure Flags (numLB : ℕ) (s : Handler) : Prop where
  currLB_lt : s.currLB < numLB
  placed : Placed numLB s

theorem flags_body {s : Handler} {i : ℕ} (hcurr : s.currLB < numLB) (hi : i < numLB) :
    Flags numLB (s.body i) := by
  refine ⟨hcurr, ?_⟩
  unfold Handler.body
  cases hc : s.connected i
  · exact ⟨hi, hc⟩
  · exact ⟨hi, hc⟩

theorem flags_pass {s : Handler} (hcurr : s.currLB < numLB) : Flags numLB s.pass :=
  flags_body hcurr (by omega)

theorem flags_done {s : Handler} (hcurr : s.currLB < numLB) : Flags numLB (s.done numLB) :=
  ⟨Nat.mod_lt _ (by omega), trivial⟩

theorem flags_after {s : Handler} (hcurr : s.currLB < numLB) : Flags numLB (s.after numLB) := by
  unfold Handler.after
  split_ifs
  · exact flags_pass hcurr
  · exact ⟨hcurr, trivial⟩
  · exact flags_done hcurr

theorem flags_next {s : Handler} {i : ℕ} (hcurr : s.currLB < numLB) : Flags numLB (s.next numLB i) := by
  unfold Handler.next
  split_ifs with hlast
  · exact flags_body hcurr hlast
  · exact flags_after hcurr

theorem flags_start (hn : 0 < numLB) (stocks : StockID → Stock) (request response : List Char)
    (quoteReq : Request) : Flags numLB (start stocks request response quoteReq) := ⟨hn, trivial⟩

theorem step_flags {s s' : Handler} {e : Outcome} (hf : Flags numLB s)
    (h : s.step numLB w e = some s') : Flags numLB s' := by
  obtain ⟨hcurr, hp⟩ := hf
  unfold Placed at hp
  cases step_cases h with
  | qdeq => exact flags_pass hcurr
  | resolved hpc =>
    rw [hpc] at hp
    exact ⟨hcurr, hp⟩
  | unresolved hpc =>
    refine flags_next ?_
    show (if _ then _ else _) < numLB
    split_ifs
    · exact Nat.mod_lt _ (by omega)
    · exact hcurr
  | noSocket hpc => exact flags_next hcurr
  | socket fd hpc hfd =>
    rw [hpc] at hp
    refine ⟨hcurr, hp.1, hp.2, ?_⟩
    simp
  | connected hpc =>
    rw [hpc] at hp
    exact ⟨hcurr, hp.1, Function.update_self ..⟩
  | refused hpc => exact flags_next hcurr
  | sent hpc =>
    rw [hpc] at hp
    exact ⟨hcurr, hp⟩
  | unsent hpc => exact flags_next hcurr
  | lost hpc => exact flags_next hcurr
  | cached bytes c c' hpc hfive => exact flags_after hcurr
  | notCached bytes c hpc hfive => exact flags_next hcurr
  | sentNew hpc => exact ⟨hcurr, trivial⟩
  | unsentNew hpc => exact flags_pass hcurr
  | lostNew hpc => exact flags_pass hcurr
  | new bytes c c' hpc => exact flags_done hcurr

/-! ### The descriptors -/

/-- The sockets of the connected load balancers are connected, and no two are one. -/
structure Open (loadBalSock : ℕ → ℤ) (connected : ℕ → Bool) (fds : ℤ → Fd) : Prop where
  fd : ∀ j, connected j = true → fds (loadBalSock j) = .connected
  inj : ∀ j k, connected j = true → connected k = true → loadBalSock j = loadBalSock k → j = k

namespace Open
variable {loadBalSock : ℕ → ℤ} {connected : ℕ → Bool} {fds : ℤ → Fd}

/-- The one that is closed is the socket of no other. -/
theorem drop (h : Open loadBalSock connected fds) {i : ℕ}
    (hi : connected i = true ∨ fds (loadBalSock i) ≠ .connected) :
    Open loadBalSock (Function.update connected i false)
      (Function.update fds (loadBalSock i) .closed) := by
  have hother : ∀ j, Function.update connected i false j = true → connected j = true ∧ j ≠ i := by
    intro j hj
    by_cases hji : j = i
    · rw [hji, Function.update_self] at hj
      cases hj
    · rw [Function.update_of_ne hji] at hj
      exact ⟨hj, hji⟩
  refine ⟨fun j hj => ?_, fun j k hj hk => h.inj j k (hother j hj).1 (hother k hk).1⟩
  obtain ⟨hconn, hji⟩ := hother j hj
  have hne : loadBalSock j ≠ loadBalSock i := by
    intro heq
    rcases hi with hi | hi
    · exact hji (h.inj j i hconn hi heq)
    · exact hi (heq ▸ h.fd j hconn)
  rw [Function.update_of_ne hne]
  exact h.fd j hconn

theorem sock (h : Open loadBalSock connected fds) {i : ℕ} (hi : connected i = false) (fd : ℤ) :
    Open (Function.update loadBalSock i fd) connected fds := by
  have hkeep : ∀ j, connected j = true → Function.update loadBalSock i fd j = loadBalSock j := by
    intro j hj
    refine Function.update_of_ne ?_ ..
    rintro rfl
    rw [hi] at hj
    cases hj
  refine ⟨fun j hj => ?_, fun j k hj hk => ?_⟩
  · rw [hkeep j hj]
    exact h.fd j hj
  · rw [hkeep j hj, hkeep k hk]
    exact h.inj j k hj hk

theorem opened (h : Open loadBalSock connected fds) {fd : ℤ} (hfd : fds fd = .closed) :
    Open loadBalSock connected (Function.update fds fd .opened) := by
  refine ⟨fun j hj => ?_, h.inj⟩
  rw [Function.update_of_ne, h.fd j hj]
  intro heq
  rw [← heq, h.fd j hj] at hfd
  cases hfd

theorem connect (h : Open loadBalSock connected fds) {i : ℕ} (hi : fds (loadBalSock i) = .opened) :
    Open loadBalSock (Function.update connected i true)
      (Function.update fds (loadBalSock i) .connected) := by
  have hother : ∀ j, j ≠ i → Function.update connected i true j = true →
      connected j = true ∧ loadBalSock j ≠ loadBalSock i := by
    intro j hji hj
    rw [Function.update_of_ne hji] at hj
    refine ⟨hj, fun heq => ?_⟩
    rw [← heq, h.fd j hj] at hi
    cases hi
  refine ⟨fun j hj => ?_, fun j k hj hk heq => ?_⟩
  · by_cases hji : j = i
    · rw [hji, Function.update_self]
    · obtain ⟨hconn, hne⟩ := hother j hji hj
      rw [Function.update_of_ne hne]
      exact h.fd j hconn
  · by_cases hji : j = i
    · by_cases hki : k = i
      · rw [hji, hki]
      · exact absurd (hji ▸ heq.symm) (hother k hki hk).2
    · by_cases hki : k = i
      · exact absurd (hki ▸ heq) (hother j hji hj).2
      · exact h.inj j k (hother j hji hj).1 (hother k hki hk).1 heq

end Open

structure Sockets (s : Handler) : Prop where
  isOpen : Open s.loadBalSock s.connected s.fds
  new : s.pc = .recvNew → s.connected s.currLB = true

theorem Sockets.body {s : Handler} (h : Open s.loadBalSock s.connected s.fds) (i : ℕ) :
    Sockets (s.body i) := by
  refine ⟨h, ?_⟩
  unfold Handler.body
  split_ifs
  · exact nofun
  · exact nofun

theorem Sockets.pass {s : Handler} (h : Open s.loadBalSock s.connected s.fds) : Sockets s.pass := by
  refine Sockets.body ?_ 0
  exact h

theorem Sockets.done {s : Handler} (h : Open s.loadBalSock s.connected s.fds) :
    Sockets (s.done numLB) := ⟨h, nofun⟩

theorem Sockets.after {s : Handler} (h : Open s.loadBalSock s.connected s.fds) :
    Sockets (s.after numLB) := by
  unfold Handler.after
  split_ifs
  · exact Sockets.pass h
  · exact ⟨h, nofun⟩
  · exact Sockets.done h

theorem Sockets.next {s : Handler} (h : Open s.loadBalSock s.connected s.fds) (i : ℕ) :
    Sockets (s.next numLB i) := by
  unfold Handler.next
  split_ifs
  · exact Sockets.body h (i + 1)
  · exact Sockets.after h

/-- A new quote is asked for over a connection. -/
def NewConnected (s : Handler) (_ : Outcome) : Prop := s.pc = .sendNew → s.connected s.currLB = true

theorem step_sockets {s s' : Handler} {e : Outcome} (hf : Flags numLB s) (hs : Sockets s)
    (hnew : NewConnected s e) (h : s.step numLB w e = some s') : Sockets s' := by
  have hp := hf.placed
  obtain ⟨hopen, hrecv⟩ := hs
  unfold Placed at hp
  cases step_cases h with
  | qdeq => exact Sockets.pass hopen
  | resolved hpc => exact ⟨hopen, nofun⟩
  | unresolved hpc =>
    refine Sockets.next ?_ _
    exact hopen
  | noSocket hpc =>
    rw [hpc] at hp
    exact Sockets.next (hopen.sock hp.2 _) _
  | socket fd hpc hfd =>
    rw [hpc] at hp
    exact ⟨(hopen.opened hfd).sock hp.2 _, nofun⟩
  | connected hpc =>
    rw [hpc] at hp
    exact ⟨hopen.connect hp.2.2, nofun⟩
  | refused hpc =>
    rw [hpc] at hp
    refine Sockets.next (hopen.drop (.inr ?_)) _
    rw [hp.2.2]
    exact nofun
  | sent hpc => exact ⟨hopen, nofun⟩
  | unsent hpc =>
    rw [hpc] at hp
    exact Sockets.next (hopen.drop (.inl hp.2)) _
  | lost hpc =>
    rw [hpc] at hp
    exact Sockets.next (hopen.drop (.inl hp.2)) _
  | cached bytes c c' hpc hfive => exact Sockets.after hopen
  | notCached bytes c hpc hfive =>
    refine Sockets.next ?_ _
    exact hopen
  | sentNew hpc => exact ⟨hopen, fun _ => hnew hpc⟩
  | unsentNew hpc => exact Sockets.pass (hopen.drop (.inl (hnew hpc)))
  | lostNew hpc => exact Sockets.pass (hopen.drop (.inl (hrecv hpc)))
  | new bytes c c' hpc => exact Sockets.done hopen

/-! ### What the calls are used on -/

/-- Every `send`, `recv` and `close` is on a descriptor that the thread has opened, that is connected, and
    that it has not closed since; and a new quote is asked for over a connection. -/
def Proper (s : Handler) (e : Outcome) : Prop :=
  (∀ op ∈ ops s e, s.fds op.fd = .connected) ∧ (s.pc = .sendNew → s.connected s.currLB = true)

/-- The same, but for the `close` after a `connect` that has failed. -/
def ProperButRefused (s : Handler) (e : Outcome) : Prop :=
  (∀ op ∈ ops s e, s.fds op.fd = .connected ∨
    ∃ i, s.pc = .connect i ∧ op = .close (s.loadBalSock i) ∧ s.fds op.fd = .opened) ∧
  (s.pc = .sendNew → s.connected s.currLB = true)

/-- Which descriptor a call is on, by where the loop stands. -/
theorem ops_fd {s : Handler} {e : Outcome} {op : Op} (h : op ∈ ops s e) :
    (∃ i, (s.pc = .send i ∨ s.pc = .recv i) ∧ op.fd = s.loadBalSock i) ∨
    ((s.pc = .sendNew ∨ s.pc = .recvNew) ∧ op.fd = s.loadBalSock s.currLB) ∨
    ∃ i, s.pc = .connect i ∧ e = .connect false ∧ op = .close (s.loadBalSock i) := by
  unfold ops at h
  split at h
  · exact .inr (.inr ⟨_, ‹_›, rfl, List.mem_singleton.mp h⟩)
  · rw [List.mem_singleton.mp h]
    exact .inl ⟨_, .inl ‹_›, rfl⟩
  · rcases List.mem_pair.mp h with rfl | rfl
    · exact .inl ⟨_, .inl ‹_›, rfl⟩
    · exact .inl ⟨_, .inl ‹_›, rfl⟩
  · rw [List.mem_singleton.mp h]
    exact .inl ⟨_, .inr ‹_›, rfl⟩
  · rcases List.mem_pair.mp h with rfl | rfl
    · exact .inl ⟨_, .inr ‹_›, rfl⟩
    · exact .inl ⟨_, .inr ‹_›, rfl⟩
  · rw [List.mem_singleton.mp h]
    exact .inr (.inl ⟨.inl ‹_›, rfl⟩)
  · rcases List.mem_pair.mp h with rfl | rfl
    · exact .inr (.inl ⟨.inl ‹_›, rfl⟩)
    · exact .inr (.inl ⟨.inl ‹_›, rfl⟩)
  · rw [List.mem_singleton.mp h]
    exact .inr (.inl ⟨.inr ‹_›, rfl⟩)
  · rcases List.mem_pair.mp h with rfl | rfl
    · exact .inr (.inl ⟨.inr ‹_›, rfl⟩)
    · exact .inr (.inl ⟨.inr ‹_›, rfl⟩)
  · exact absurd h List.not_mem_nil

@[simp] theorem pass_fds (s : Handler) : s.pass.fds = s.fds := rfl

@[simp] theorem next_fds (s : Handler) (i : ℕ) : (s.next numLB i).fds = s.fds := by
  unfold Handler.next Handler.after
  split_ifs <;> rfl

theorem proper_of_new {s : Handler} {e : Outcome} (hf : Flags numLB s) (hs : Sockets s)
    (hnew : NewConnected s e) : ProperButRefused s e := by
  have hp := hf.placed
  unfold Placed at hp
  refine ⟨fun op hop => ?_, hnew⟩
  rcases ops_fd hop with ⟨i, hpc, hfd⟩ | ⟨hpc, hfd⟩ | ⟨i, hpc, -, rfl⟩
  · rcases hpc with hpc | hpc
    all_goals
      rw [hpc] at hp
      exact .inl (hfd ▸ hs.isOpen.fd i hp.2)
  · have hconn : s.connected s.currLB = true := hpc.elim hnew hs.new
    exact .inl (hfd ▸ hs.isOpen.fd _ hconn)
  · rw [hpc] at hp
    exact .inr ⟨i, hpc, rfl, hp.2.2⟩

theorem ProperButRefused.proper {s : Handler} {e : Outcome} (h : ProperButRefused s e)
    (he : e ≠ .connect false) : Proper s e := by
  refine ⟨fun op hop => ?_, h.2⟩
  rcases h.1 op hop with hfd | ⟨i, hpc, -, -⟩
  · exact hfd
  · rcases ops_fd hop with ⟨j, hj, -⟩ | ⟨hj, -⟩ | ⟨j, -, he', -⟩
    · rw [hpc] at hj
      rcases hj with hj | hj <;> cases hj
    · rw [hpc] at hj
      rcases hj with hj | hj <;> cases hj
    · exact absurd he' he

/-- A `connect` that fails is followed by a `close` of what is not connected. -/
theorem not_refused {s s' : Handler} {e : Outcome} (hf : Flags numLB s)
    (h : s.step numLB w e = some s') (hp : Proper s e) : e ≠ .connect false := by
  rintro rfl
  have hplaced := hf.placed
  cases step_cases h with
  | @refused i hpc =>
    have hfd : s.fds (s.loadBalSock i) = .connected := by
      refine hp.1 (.close (s.loadBalSock i)) ?_
      unfold ops
      rw [hpc]
      exact List.mem_singleton_self _
    rw [Placed, hpc] at hplaced
    rw [hplaced.2.2] at hfd
    cases hfd

/-- The calls are proper along a run exactly if no `connect` fails and a new quote is only asked for over a
    connection; and proper but for the `close` after a `connect` that has failed, under the second alone. -/
theorem along_proper (hn : 0 < numLB) {stocks : StockID → Stock} {request response : List Char}
    {quoteReq : Request} {es : List Outcome} {s : Handler}
    (hrun : exec (Handler.step numLB w) (start stocks request response quoteReq) es = some s) :
    (Along (Handler.step numLB w) Proper (start stocks request response quoteReq) es ↔
      Along (Handler.step numLB w) (fun s e => e ≠ .connect false ∧ NewConnected s e)
        (start stocks request response quoteReq) es) ∧
    (Along (Handler.step numLB w) ProperButRefused (start stocks request response quoteReq) es ↔
      Along (Handler.step numLB w) NewConnected (start stocks request response quoteReq) es) := by
  have hflags := flags_start hn stocks request response quoteReq
  have hstart : Flags numLB (start stocks request response quoteReq) ∧
      Sockets (start stocks request response quoteReq) := ⟨hflags, ⟨nofun, nofun⟩, nofun⟩
  have hstep : ∀ s e s', Flags numLB s ∧ Sockets s → NewConnected s e → s.step numLB w e = some s' →
      Flags numLB s' ∧ Sockets s' :=
    fun s e s' ⟨hf, hs⟩ hnew h => ⟨step_flags hf h, step_sockets hf hs hnew h⟩
  refine ⟨⟨fun hproper => ?_, fun hnew => ?_⟩, ⟨fun hproper => ?_, fun hnew => ?_⟩⟩
  · have hrefused : ∀ s e s', Flags numLB s → s.step numLB w e = some s' →
        (Proper s e ↔ e ≠ .connect false ∧ Proper s e) :=
      fun s e s' hf h => ⟨fun hp => ⟨not_refused hf h hp, hp⟩, fun hp => hp.2⟩
    have hboth := (along_iff (fun _ _ _ hf h => step_flags hf h) hrefused es _ s hflags hrun).mp hproper
    exact along_mono (fun _ _ _ _ _ _ => trivial) (fun _ _ _ h => ⟨h.1, h.2.2⟩) es _ trivial hboth
  · exact along_mono (fun s e s' hi ha => hstep s e s' hi ha.2)
      (fun s e ⟨hf, hs⟩ ha => (proper_of_new hf hs ha.2).proper ha.1) es _ hstart hnew
  · exact along_mono (fun _ _ _ _ _ _ => trivial) (fun _ _ _ h => h.2) es _ trivial hproper
  · exact along_mono hstep (fun s e ⟨hf, hs⟩ ha => proper_of_new hf hs ha) es _ hstart hnew

/-! ### What the network makes of the calls -/

end

/-- The load balancer that a call of the loop is made to. -/
def Pc.lb : Pc → Option ℕ
  | .getaddrinfo i | .socket i | .connect i | .send i | .recv i => some i
  | .qdeq | .sendNew | .recvNew => none

/-- A call as the network sees it: which one it is, whether it succeeded, and whether an answer of five fields
    stands in the buffer with what it received. -/
structure Call where
  pc : Pc
  ok : Bool
  quote : Bool
  deriving DecidableEq

def Outcome.ok : Outcome → Bool
  | .qdeq _ => true
  | .getaddrinfo ok | .connect ok | .send ok => ok
  | .socket fd => fd.isSome
  | .recv bytes => bytes.isSome

def call (s : Handler) (e : Outcome) : Call where
  pc := s.pc
  ok := e.ok
  quote := match e with
    | .recv (some bytes) => fiveFields s bytes
    | _ => false

/-- An address that has not been resolved. -/
def Call.Unresolved (c : Call) : Prop := c.ok = false ∧ ∃ i, c.pc = .getaddrinfo i

/-- A connection that has been refused. -/
def Call.Refused (c : Call) : Prop := c.ok = false ∧ ∃ i, c.pc = .connect i

section
variable (numLB : ℕ)

/-- The load balancer whose turn it is: the first one for the first request. Every further request moves the turn
    on, and so does every failure to resolve the address of the one whose turn it is. -/
def turn (calls : List Call) : ℕ :=
  calls.foldl (fun t c => if c.pc = .qdeq ∨ c.pc = .getaddrinfo t ∧ c.ok = false then (t + 1) % numLB else t)
    (numLB - 1)

/-- A call of the last pass to the load balancer has failed: what followed were calls to later ones. -/
def Failed (i : ℕ) : List Call → Prop :=
  Since (fun _ c => c.ok = false ∧ c.pc.lb = some i) fun _ c => ∃ j, c.pc.lb = some j ∧ i < j

/-- The last call was one to the last load balancer, and it failed or brought no quote. -/
def PassOver (calls : List Call) : Prop := ∃ c ∈ calls.getLast?,
  c.pc.lb = some (numLB - 1) ∧ (c.ok = false ∨ c.pc = .recv (numLB - 1) ∧ c.quote = false)

/-- A quote has come since the request was taken. -/
def Quoted : List Call → Prop := Since (fun _ c => c.quote = true) fun _ c => c.pc ≠ .qdeq

/-- The load balancer has accepted a connection, and no call to it has failed since. A new quote is asked of the
    one whose turn it is. -/
def Stands (i : ℕ) : List Call → Prop :=
  Since (fun _ c => c.pc = .connect i ∧ c.ok = true)
    fun calls c => c.ok = true ∨ c.pc.lb.getD (turn numLB calls) ≠ i

/-- When an address was last not resolved, no connection stood. -/
def Alone : List Call → Prop :=
  Since (fun calls c => c.Unresolved ∧ ∀ i < numLB, ¬ Stands numLB i calls) fun _ c => ¬ c.Unresolved

/-- A pass is over with no quote for the request: a new one is asked for next. -/
def AsksNew (calls : List Call) : Prop := PassOver numLB calls ∧ ¬ Quoted calls ∧ ¬ Alone numLB calls

/-- The network has broken the pass: the load balancer that is asked for a new quote next is one of those that
    have failed in the pass. -/
def Breaks (calls : List Call) : Prop := AsksNew numLB calls ∧ Failed (turn numLB calls) calls

end

section
variable {numLB : ℕ} {w : ℤ → ℤ}

theorem turn_concat (calls : List Call) (c : Call) : turn numLB (calls ++ [c]) =
    if c.pc = .qdeq ∨ c.pc = .getaddrinfo (turn numLB calls) ∧ c.ok = false then (turn numLB calls + 1) % numLB
    else turn numLB calls := List.foldl_concat ..

theorem passOver_concat {calls : List Call} {c : Call} : PassOver numLB (calls ++ [c]) ↔
    c.pc.lb = some (numLB - 1) ∧ (c.ok = false ∨ c.pc = .recv (numLB - 1) ∧ c.quote = false) := by
  simp [PassOver]

theorem alone_concat {calls : List Call} {c : Call} : Alone numLB (calls ++ [c]) ↔
    (c.Unresolved ∧ ∀ i < numLB, ¬ Stands numLB i calls) ∨ Alone numLB calls ∧ ¬ c.Unresolved := since_concat

theorem stands_concat {calls : List Call} {c : Call} {i : ℕ} : Stands numLB i (calls ++ [c]) ↔
    (c.pc = .connect i ∧ c.ok = true) ∨
      Stands numLB i calls ∧ (c.ok = true ∨ c.pc.lb.getD (turn numLB calls) ≠ i) := since_concat

theorem quoted_concat {calls : List Call} {c : Call} : Quoted (calls ++ [c]) ↔
    c.quote = true ∨ Quoted calls ∧ c.pc ≠ .qdeq := since_concat

theorem failed_concat {calls : List Call} {c : Call} {i : ℕ} : Failed i (calls ++ [c]) ↔
    (c.ok = false ∧ c.pc.lb = some i) ∨ Failed i calls ∧ ∃ j, c.pc.lb = some j ∧ i < j := since_concat

/-! ### What the calls tell of the handler -/

/-- What they tell of its variables within a request. -/
structure Facts (numLB : ℕ) (calls : List Call) (s : Handler) : Prop where
  currLB : s.currLB = turn numLB calls
  connected : ∀ i, s.connected i = true ↔ Stands numLB i calls
  noneConnected : s.noneConnected = true ↔ Alone numLB calls
  isCached : s.isCached = true ↔ Quoted calls

/-- The load balancers that the pass has come past. -/
def Past (numLB : ℕ) (pc : Pc) (j : ℕ) : Prop := (∃ i, pc.lb = some i ∧ j < i) ∨ pc = .sendNew ∧ j < numLB

structure Told (numLB : ℕ) (calls : List Call) (s : Handler) : Prop where
  currLB : s.currLB = if s.pc = .qdeq then (turn numLB calls + 1) % numLB else turn numLB calls
  connected : ∀ i, s.connected i = true ↔ Stands numLB i calls
  noneConnected : s.noneConnected = true ↔ Alone numLB calls
  isCached : if s.pc = .qdeq then s.isCached = false else (s.isCached = true ↔ Quoted calls)
  failed : ∀ j, Past numLB s.pc j → (Failed j calls ↔ s.connected j = false)
  sendNew : s.pc = .sendNew ↔ AsksNew numLB calls

variable {calls : List Call} {c : Call} {s t : Handler} {i : ℕ}

theorem Told.facts (h : Told numLB calls s) (hpc : s.pc ≠ .qdeq) : Facts numLB calls s := by
  refine ⟨?_, h.connected, h.noneConnected, ?_⟩
  · rw [h.currLB, if_neg hpc]
  · have hcached := h.isCached
    rwa [if_neg hpc] at hcached

theorem Facts.told (h : Facts numLB calls s) (hpc : s.pc ≠ .qdeq)
    (hfailed : ∀ j, Past numLB s.pc j → (Failed j calls ↔ s.connected j = false))
    (hnew : s.pc = .sendNew ↔ AsksNew numLB calls) : Told numLB calls s := by
  refine ⟨?_, h.connected, h.noneConnected, ?_, hfailed, hnew⟩
  · rw [if_neg hpc]
    exact h.currLB
  · rw [if_neg hpc]
    exact h.isCached

/-- The facts after one more call, but the one that takes a request. -/
theorem Facts.concat (h : Facts numLB calls s) (hpc : c.pc ≠ .qdeq)
    (hcurr : t.currLB =
      if c.pc = .getaddrinfo s.currLB ∧ c.ok = false then (s.currLB + 1) % numLB else s.currLB)
    (hconn : ∀ i, t.connected i = true ↔ (c.pc = .connect i ∧ c.ok = true) ∨
      s.connected i = true ∧ (c.ok = true ∨ c.pc.lb.getD s.currLB ≠ i))
    (hnone : t.noneConnected = true ↔ (c.Unresolved ∧ ∀ i < numLB, ¬ s.connected i = true) ∨
      s.noneConnected = true ∧ ¬ c.Unresolved)
    (hcached : t.isCached = true ↔ c.quote = true ∨ s.isCached = true) : Facts numLB (calls ++ [c]) t := by
  refine ⟨?_, fun i => ?_, ?_, ?_⟩
  · rw [hcurr, turn_concat, h.currLB]
    simp only [hpc, false_or]
  · rw [hconn, stands_concat, h.connected, h.currLB]
  · rw [hnone, alone_concat, h.noneConnected]
    simp only [h.connected]
  · rw [hcached, quoted_concat, h.isCached, and_iff_left hpc]

theorem body_lb (s : Handler) (i : ℕ) : (s.body i).pc.lb = some i := by
  unfold Handler.body
  cases s.connected i
  · rfl
  · rfl

theorem Pc.ne_qdeq {pc : Pc} (h : pc.lb = some i) : pc ≠ .qdeq := by
  rintro rfl
  cases h

theorem Pc.ne_sendNew {pc : Pc} (h : pc.lb = some i) : pc ≠ .sendNew := by
  rintro rfl
  cases h

theorem past_iff {pc : Pc} (h : pc.lb = some i) {j : ℕ} : Past numLB pc j ↔ j < i := by
  simp [Past, h, Pc.ne_sendNew h]

theorem Facts.body (h : Facts numLB calls s) (hnot : ¬ AsksNew numLB calls)
    (hfailed : ∀ j < i, (Failed j calls ↔ s.connected j = false)) : Told numLB calls (s.body i) := by
  have hlb := body_lb s i
  have hbody : Facts numLB calls (s.body i) := ⟨h.currLB, h.connected, h.noneConnected, h.isCached⟩
  exact hbody.told (Pc.ne_qdeq hlb) (fun j hj => hfailed j ((past_iff hlb).mp hj))
    (iff_of_false (Pc.ne_sendNew hlb) hnot)

theorem Facts.pass (h : Facts numLB calls s) (hnot : ¬ AsksNew numLB calls) : Told numLB calls s.pass :=
  h.body hnot fun _ hj => absurd hj (Nat.not_lt_zero _)

theorem Facts.done (h : Facts numLB calls s) (hnot : ¬ AsksNew numLB calls) :
    Told numLB calls (s.done numLB) where
  currLB := by
    show (s.currLB + 1) % numLB = _
    rw [h.currLB]
    rfl
  connected := h.connected
  noneConnected := h.noneConnected
  isCached := rfl
  failed := by simp [Past, Handler.done, Pc.lb]
  sendNew := iff_of_false (by simp [Handler.done]) hnot

theorem Facts.after (h : Facts numLB calls s) (hover : Quoted calls ∨ PassOver numLB calls)
    (hfailed : PassOver numLB calls → ∀ j < numLB, (Failed j calls ↔ s.connected j = false)) :
    Told numLB calls (s.after numLB) := by
  unfold Handler.after
  split_ifs with hnone hcached
  · exact h.pass fun hnew => hnew.2.2 (h.noneConnected.mp hnone)
  · have hquoted : ¬ Quoted calls := by
      rw [← h.isCached]
      simpa using hcached
    have hover := hover.resolve_left hquoted
    have hsend : Facts numLB calls { s with pc := .sendNew } :=
      ⟨h.currLB, h.connected, h.noneConnected, h.isCached⟩
    refine hsend.told nofun (fun j hj => hfailed hover j ?_) (iff_of_true rfl ⟨hover, hquoted, ?_⟩)
    · simpa [Past, Pc.lb] using hj
    · rwa [← h.noneConnected]
  · refine h.done fun hnew => hnew.2.1 ?_
    rw [← h.isCached]
    simpa using hcached

theorem Facts.next (h : Facts numLB calls s) (hi : i < numLB)
    (hover : PassOver numLB calls ↔ i = numLB - 1)
    (hfailed : ∀ j ≤ i, (Failed j calls ↔ s.connected j = false)) : Told numLB calls (s.next numLB i) := by
  unfold Handler.next
  split_ifs with hlast
  · refine h.body (fun hnew => ?_) fun j hj => hfailed j (Nat.lt_succ_iff.mp hj)
    have hend := hover.mp hnew.1
    omega
  · refine h.after (.inr (hover.mpr (by omega))) fun _ j hj => hfailed j (by omega)

/-- The loop goes on to the next load balancer. -/
theorem Told.next (h : Told numLB calls s) (hlb : s.pc.lb = some i) (hi : i < numLB) (hpc : c.pc = s.pc)
    (hend : c.ok = false ∨ c.pc = .recv i ∧ c.quote = false) (ht : Facts numLB (calls ++ [c]) t)
    (hti : t.connected i = false ↔ c.ok = false) (hother : ∀ j < i, t.connected j = s.connected j) :
    Told numLB (calls ++ [c]) (t.next numLB i) := by
  rw [← hpc] at hlb
  refine ht.next hi ?_ fun j hj => ?_
  · rw [passOver_concat, hlb, Option.some.injEq]
    refine ⟨fun h => h.1, fun h => ⟨h, ?_⟩⟩
    rwa [← h]
  · rw [failed_concat, hlb]
    by_cases hji : j = i
    · rw [hji, hti]
      simp
    · have hlt : j < i := by omega
      rw [hother j hlt, ← h.failed j (.inl ⟨i, by rw [← hpc, hlb], hlt⟩)]
      simp only [Option.some.injEq, exists_eq_left', hlt, and_true, Ne.symm hji, and_false, false_or]

/-- The loop goes on to the next call to the load balancer. -/
theorem Told.stay (h : Told numLB calls s) (hlb : s.pc.lb = some i) (hpc : c.pc = s.pc) (hok : c.ok = true)
    (hrecv : ∀ j, c.pc ≠ .recv j) (ht : Facts numLB (calls ++ [c]) t) (htlb : t.pc.lb = some i)
    (hother : ∀ j < i, t.connected j = s.connected j) : Told numLB (calls ++ [c]) t := by
  refine ht.told (Pc.ne_qdeq htlb) (fun j hj => ?_) (iff_of_false (Pc.ne_sendNew htlb) fun hnew => ?_)
  · have hlt := (past_iff htlb).mp hj
    rw [failed_concat, hother j hlt, ← h.failed j (.inl ⟨i, hlb, hlt⟩), hpc, hlb, hok]
    simp only [Option.some.injEq, exists_eq_left', hlt, and_true, Bool.true_eq_false, false_and, false_or]
  · have hover := passOver_concat.mp hnew.1
    rw [hok] at hover
    exact hover.2.elim (by simp) fun h => hrecv _ h.1

theorem told_start (hn : 0 < numLB) (stocks : StockID → Stock) (request response : List Char)
    (quoteReq : Request) : Told numLB [] (start stocks request response quoteReq) where
  currLB := by
    show 0 = (numLB - 1 + 1) % numLB
    rw [Nat.sub_add_cancel hn, Nat.mod_self]
  connected i := iff_of_false Bool.false_ne_true not_since_nil
  noneConnected := iff_of_false Bool.false_ne_true not_since_nil
  isCached := rfl
  failed := by simp [Past, start, Pc.lb]
  sendNew := iff_of_false nofun fun hnew => by simpa [PassOver] using hnew.1

theorem drop_connected {j : ℕ} : (s.drop i).connected j = true ↔ s.connected j = true ∧ i ≠ j := by
  show Function.update s.connected i false j = true ↔ _
  by_cases hj : j = i
  · rw [hj, Function.update_self]
    simp
  · rw [Function.update_of_ne hj]
    simp [Ne.symm hj]

theorem ne_of_connected (hi : s.connected i = false) {j : ℕ} (hj : s.connected j = true) : i ≠ j := by
  rintro rfl
  rw [hi] at hj
  cases hj

/-- A call that is no `connect` has failed. -/
theorem Facts.fail (h : Facts numLB calls s) {e : Outcome} (hpc : s.pc ≠ .qdeq)
    (hlookup : ∀ j, s.pc ≠ .getaddrinfo j) (hok : e.ok = false) (hcurr : t.currLB = s.currLB)
    (hconn : ∀ j, t.connected j = true ↔ s.connected j = true ∧ s.pc.lb.getD s.currLB ≠ j)
    (hnone : t.noneConnected = s.noneConnected) (hcached : t.isCached = s.isCached) :
    Facts numLB (calls ++ [call s e]) t := by
  have hquote : (call s e).quote = false := by
    cases e with
    | recv bytes =>
      cases bytes with
      | none => rfl
      | some bytes => cases hok
    | _ => rfl
  refine h.concat hpc ?_ (fun j => ?_) ?_ ?_
  · rw [hcurr, if_neg fun h => hlookup _ h.1]
  · rw [hconn]
    simp [call, hok]
  · rw [hnone]
    simp [call, Call.Unresolved, hlookup]
  · rw [hcached, hquote]
    simp

/-- A call that is no `connect` has succeeded. -/
theorem Facts.succeed (h : Facts numLB calls s) {e : Outcome} (hpc : s.pc ≠ .qdeq)
    (hconnect : ∀ j, s.pc ≠ .connect j) (hok : e.ok = true) (hcurr : t.currLB = s.currLB)
    (hconn : t.connected = s.connected) (hnone : t.noneConnected = s.noneConnected)
    (hcached : t.isCached = true ↔ (call s e).quote = true ∨ s.isCached = true) :
    Facts numLB (calls ++ [call s e]) t := by
  refine h.concat hpc ?_ (fun j => ?_) ?_ hcached
  · rw [hcurr, if_neg fun h => Bool.false_ne_true (h.2.symm.trans hok)]
  · rw [hconn]
    simp [call, hok, hconnect]
  · rw [hnone]
    simp [call, Call.Unresolved, hok]

/-- No pass ends with a call that is not one of the loop. -/
theorem not_asksNew {e : Outcome} (hlb : s.pc.lb = none) : ¬ AsksNew numLB (calls ++ [call s e]) := by
  intro hnew
  have hend : s.pc.lb = some (numLB - 1) := (passOver_concat.mp hnew.1).1
  rw [hlb] at hend
  cases hend

theorem step_told {s' : Handler} {e : Outcome} (hf : Flags numLB s) (ht : Told numLB calls s)
    (h : s.step numLB w e = some s') : Told numLB (calls ++ [call s e]) s' := by
  have hp := hf.placed
  unfold Placed at hp
  cases step_cases h with
  | qdeq quoteReq request hpc =>
    refine Facts.pass ⟨?_, fun i => ?_, ?_, ?_⟩ fun hnew => ?_
    · show s.currLB = _
      rw [ht.currLB, if_pos hpc, turn_concat, if_pos (.inl hpc)]
    · rw [stands_concat, ← ht.connected]
      simp [call, hpc, Outcome.ok]
    · rw [alone_concat, ← ht.noneConnected]
      simp [call, hpc, Call.Unresolved]
    · have hcached := ht.isCached
      rw [if_pos hpc] at hcached
      rw [quoted_concat]
      simp [call, hpc, hcached]
    · have hover := passOver_concat.mp hnew.1
      simp [call, hpc, Pc.lb] at hover
  | @resolved i hpc | @sent i hpc =>
    refine ht.stay (by rw [hpc]; rfl) rfl rfl (by simp [call, hpc]) ?_ rfl fun _ _ => rfl
    exact (ht.facts (by simp [hpc])).succeed (by simp [hpc]) (by simp [hpc]) rfl rfl rfl rfl (by simp [call])
  | @unresolved i hpc =>
    rw [hpc] at hp
    refine ht.next (by rw [hpc]; rfl) hp.1 rfl (.inl rfl) ?_ (iff_of_true hp.2 rfl) fun _ _ => rfl
    refine (ht.facts (by simp [hpc])).concat (by simp [call, hpc]) ?_ (fun j => ?_) ?_ (by simp [call])
    · simp [call, hpc, Outcome.ok]
    · simp only [call, hpc, Outcome.ok]
      simpa [Pc.lb] using ne_of_connected hp.2
    · simp [call, hpc, Outcome.ok, Call.Unresolved]
  | @noSocket i hpc =>
    rw [hpc] at hp
    refine ht.next (by rw [hpc]; rfl) hp.1 rfl (.inl rfl) ?_ (iff_of_true hp.2 rfl) fun _ _ => rfl
    refine (ht.facts (by simp [hpc])).fail (by simp [hpc]) (by simp [hpc]) rfl rfl (fun j => ?_) rfl rfl
    simpa [hpc, Pc.lb] using ne_of_connected hp.2
  | @socket i fd hpc hfd =>
    refine ht.stay (by rw [hpc]; rfl) rfl rfl (by simp [call, hpc]) ?_ rfl fun _ _ => rfl
    exact (ht.facts (by simp [hpc])).succeed (by simp [hpc]) (by simp [hpc]) rfl rfl rfl rfl (by simp [call])
  | @connected i hpc =>
    refine ht.stay (by rw [hpc]; rfl) rfl rfl (by simp [call, hpc]) ?_ rfl fun j hj =>
      Function.update_of_ne (by omega) ..
    refine (ht.facts (by simp [hpc])).concat (by simp [call, hpc]) ?_ (fun j => ?_) ?_ (by simp [call])
    · simp [call, hpc]
    · show Function.update s.connected i true j = true ↔ _
      by_cases hj : j = i
      · rw [hj, Function.update_self]
        simp [call, hpc, Outcome.ok]
      · rw [Function.update_of_ne hj]
        simp [call, hpc, Outcome.ok, Ne.symm hj]
    · simp [call, hpc, Call.Unresolved]
  | @refused i hpc | @unsent i hpc | @lost i hpc =>
    rw [hpc] at hp
    refine ht.next (by rw [hpc]; rfl) hp.1 rfl (.inl rfl) ?_ (iff_of_true (Function.update_self ..) rfl)
      fun _ hj => Function.update_of_ne (by omega) ..
    refine (ht.facts (by simp [hpc])).fail (by simp [hpc]) (by simp [hpc]) rfl rfl (fun j => ?_) rfl rfl
    simpa [hpc, Pc.lb] using drop_connected
  | @cached i bytes c c' hpc hfive =>
    have hquote : (call s (.recv (some bytes))).quote = true := hfive
    refine Facts.after ?_ (.inl (quoted_concat.mpr (.inl hquote))) fun hover => ?_
    · exact (ht.facts (by simp [hpc])).succeed (by simp [hpc]) (by simp [hpc]) rfl rfl rfl rfl
        (iff_of_true rfl (.inl hquote))
    · rcases (passOver_concat.mp hover).2 with hok | ⟨-, hno⟩
      · cases hok
      · rw [hquote] at hno
        cases hno
  | @notCached i bytes c hpc hfive =>
    rw [hpc] at hp
    refine ht.next (by rw [hpc]; rfl) hp.1 rfl (.inr ⟨hpc, hfive⟩) ?_ (by simp [hp.2, call, Outcome.ok])
      fun _ _ => rfl
    exact (ht.facts (by simp [hpc])).succeed (by simp [hpc]) (by simp [hpc]) rfl rfl rfl rfl
      (by simp [call, hfive])
  | sentNew hpc =>
    have hfacts : Facts numLB (calls ++ [call s (.send true)]) { s with pc := .recvNew } :=
      (ht.facts (by simp [hpc])).succeed (by simp [hpc]) (by simp [hpc]) rfl rfl rfl rfl (by simp [call])
    refine hfacts.told nofun (fun j hj => ?_) (iff_of_false nofun (not_asksNew (by rw [hpc]; rfl)))
    simp [Past, Pc.lb] at hj
  | unsentNew hpc | lostNew hpc =>
    refine Facts.pass ?_ (not_asksNew (by rw [hpc]; rfl))
    refine (ht.facts (by simp [hpc])).fail (by simp [hpc]) (by simp [hpc]) rfl rfl (fun j => ?_) rfl rfl
    simpa [hpc, Pc.lb] using drop_connected
  | new bytes c c' hpc =>
    -- what `isCached` was does not matter any more
    have hfacts : Facts numLB (calls ++ [call s (.recv (some bytes))])
        { s with
          client := c'
          stocks := Function.update s.stocks s.quoteReq.stockID c
          isCached := fiveFields s bytes || s.isCached } :=
      (ht.facts (by simp [hpc])).succeed (by simp [hpc]) (by simp [hpc]) rfl rfl rfl rfl (by simp [call])
    exact hfacts.done (not_asksNew (by rw [hpc]; rfl))

/-- A new quote is asked for over no connection exactly where the calls have broken the pass. -/
theorem breaks_iff (hf : Flags numLB s) (ht : Told numLB calls s) :
    Breaks numLB calls ↔ s.pc = .sendNew ∧ s.connected s.currLB = false := by
  rw [Breaks, ← ht.sendNew]
  refine and_congr_right fun hpc => ?_
  have hcurr : s.currLB = turn numLB calls := (ht.facts (by simp [hpc])).currLB
  rw [← hcurr]
  exact ht.failed _ (.inr ⟨hpc, hf.currLB_lt⟩)

/-! ### One load balancer -/

/-- The connection to the only load balancer has just failed, and no address has failed to resolve before. -/
def LostFirst (calls : List Call) : Prop :=
  (∃ c ∈ calls.getLast?, c.ok = false ∧ c.pc.lb ≠ none) ∧ ∀ c ∈ calls, ¬ c.Unresolved

structure ToldOne (calls : List Call) (s : Handler) : Prop where
  noneConnected : s.noneConnected = true ↔ ∃ c ∈ calls, c.Unresolved
  isCached : s.isCached = true → s.noneConnected = true
  sendNew : s.pc = .sendNew ∧ s.connected 0 = false ↔ LostFirst calls

theorem toldOne_start (stocks : StockID → Stock) (request response : List Char) (quoteReq : Request) :
    ToldOne [] (start stocks request response quoteReq) := by
  refine ⟨by simp [start], nofun, ?_⟩
  simp [start, LostFirst]

/-- What is left to see of a step. -/
theorem ToldOne.concat {s' : Handler} (h : ToldOne calls s)
    (hnone : s'.noneConnected = true ↔ s.noneConnected = true ∨ c.Unresolved)
    (hcached : s'.isCached = true → s'.noneConnected = true)
    (hsend : s'.pc = .sendNew ∧ s'.connected 0 = false ↔
      (c.ok = false ∧ c.pc.lb ≠ none) ∧ s'.noneConnected = false) : ToldOne (calls ++ [c]) s' := by
  have hsome : s'.noneConnected = true ↔ ∃ d ∈ calls ++ [c], d.Unresolved := by
    rw [hnone, h.noneConnected]
    simp [or_and_right, exists_or]
  refine ⟨hsome, hcached, ?_⟩
  rw [hsend, LostFirst, ← Bool.not_eq_true s'.noneConnected, hsome, List.getLast?_concat]
  simp only [Option.mem_some_iff, exists_eq_left', not_exists, not_and]

theorem after_one (hcached : s.isCached = true → s.noneConnected = true) :
    s.next 1 0 = if s.noneConnected then s.pass else { s with pc := .sendNew } := by
  have hnext : s.next 1 0 = s.after 1 := by simp [Handler.next]
  rw [hnext, Handler.after]
  cases hnone : s.noneConnected with
  | true => rfl
  | false =>
    have hno : s.isCached = false := by
      rw [hnone] at hcached
      simpa using hcached
    rw [hno]
    rfl

/-- The pass is over with the call to the only load balancer. -/
theorem ToldOne.after (h : ToldOne calls s) {e : Outcome} (hlb : s.pc.lb ≠ none)
    (hlookup : ¬ (call s e).Unresolved) (hnone : t.noneConnected = s.noneConnected)
    (hcached : t.isCached = s.isCached) (hconn : t.connected 0 = e.ok) :
    ToldOne (calls ++ [call s e]) (t.next 1 0) := by
  have hno : t.isCached = true → t.noneConnected = true := by
    rw [hnone, hcached]
    exact h.isCached
  refine h.concat (by simp [hnone, hlookup]) ?_ ?_
  · rw [after_one hno]
    split_ifs with hnone
    · exact fun _ => hnone
    · exact hno
  · rw [next_noneConnected, after_one hno]
    split_ifs with hnone
    · simp [hnone, Handler.pass, Pc.ne_sendNew (body_lb t 0)]
    · simp [hnone, hconn, hlb, call]

theorem step_toldOne {s' : Handler} {e : Outcome} (hf : Flags 1 s) (h : ToldOne calls s)
    (hs : s.step 1 w e = some s') : ToldOne (calls ++ [call s e]) s' := by
  have hp := hf.placed
  unfold Placed at hp
  cases step_cases hs with
  | qdeq quoteReq request hpc =>
    refine h.concat (by simp [call, hpc, Call.Unresolved]) h.isCached ?_
    simp [Handler.pass, Pc.ne_sendNew (body_lb _ 0), call, hpc, Pc.lb]
  | @resolved i hpc | @connected i hpc | @sent i hpc | sentNew hpc =>
    refine h.concat (by simp [call, Outcome.ok, Call.Unresolved]) h.isCached ?_
    simp [call, Outcome.ok]
  | @unresolved i hpc =>
    rw [hpc] at hp
    obtain rfl : i = 0 := by omega
    have hnone : ((List.range 1).all fun j => !s.connected j) = true := by simp [hp.2]
    refine h.concat ?_ ?_ ?_
    · rw [next_noneConnected, hnone]
      simp [call, hpc, Outcome.ok, Call.Unresolved]
    · rw [next_noneConnected]
      exact fun _ => hnone
    · rw [next_noneConnected, after_one fun _ => hnone, hnone, if_pos rfl]
      simp [Handler.pass, Pc.ne_sendNew (body_lb _ 0)]
  | @noSocket i hpc =>
    rw [hpc] at hp
    obtain rfl : i = 0 := by omega
    exact h.after (by simp [hpc, Pc.lb]) (by simp [call, hpc, Call.Unresolved]) rfl rfl hp.2
  | @refused i hpc | @unsent i hpc | @lost i hpc =>
    rw [hpc] at hp
    obtain rfl : i = 0 := by omega
    exact h.after (by simp [hpc, Pc.lb]) (by simp [call, hpc, Call.Unresolved]) rfl rfl
      (by simp [Handler.drop, Outcome.ok])
  | @socket i fd hpc hfd =>
    refine h.concat (by simp [call, Outcome.ok, Call.Unresolved]) h.isCached ?_
    simp [call, Outcome.ok]
  | @cached i bytes c c' hpc hfive =>
    unfold Handler.after
    split_ifs with hnone hcached
    · refine h.concat (by simp [call, hpc, Call.Unresolved]) (fun _ => hnone) ?_
      simp [Handler.pass, Pc.ne_sendNew (body_lb _ 0), call, Outcome.ok]
    · cases hcached
    · refine h.concat (by simp [call, hpc, Call.Unresolved]) (fun h => by cases h) ?_
      simp [Handler.done, call, Outcome.ok]
  | @notCached i bytes c hpc hfive =>
    rw [hpc] at hp
    obtain rfl : i = 0 := by omega
    exact h.after (by simp [hpc, Pc.lb]) (by simp [call, hpc, Call.Unresolved]) rfl rfl hp.2
  | unsentNew hpc | lostNew hpc =>
    refine h.concat (by simp [call, hpc, Call.Unresolved]) h.isCached ?_
    simp [Handler.pass, Pc.ne_sendNew (body_lb _ 0), call, hpc, Pc.lb]
  | new bytes c c' hpc =>
    refine h.concat (by simp [call, hpc, Call.Unresolved]) (fun h => by cases h) ?_
    simp [Handler.done, call, hpc, Pc.lb]

/-- A `connect` that fails is one that is refused. -/
theorem refused_iff {s' : Handler} {e : Outcome} (h : s.step numLB w e = some s') :
    e ≠ .connect false ↔ ¬ (call s e).Refused := by
  cases step_cases h <;> simp_all [call, Call.Refused, Outcome.ok]

end

section
variable {numLB : ℕ} {w : ℤ → ℤ}

/-- The calls of a run from the start. -/
def calls (numLB : ℕ) (w : ℤ → ℤ) : Handler → List Outcome → List Call := trail (Handler.step numLB w) call

/-- The calls are proper along a run exactly if no `connect` fails and no call follows on a pass that the network
    has broken. Where a `connect` may fail, all are but the `close` that follows it. With one load balancer, a
    pass is broken by a connection that fails in it before an address has failed to resolve. -/
theorem proper_iff (hn : 0 < numLB) {stocks : StockID → Stock} {request response : List Char}
    {quoteReq : Request} {es : List Outcome} {s : Handler}
    (hrun : exec (Handler.step numLB w) (start stocks request response quoteReq) es = some s) :
    (Along (Handler.step numLB w) Proper (start stocks request response quoteReq) es ↔
      Throughout (fun before c => ¬ c.Refused ∧ ¬ Breaks numLB before)
        (calls numLB w (start stocks request response quoteReq) es)) ∧
    (Along (Handler.step numLB w) ProperButRefused (start stocks request response quoteReq) es ↔
      Throughout (fun before _ => ¬ Breaks numLB before)
        (calls numLB w (start stocks request response quoteReq) es)) ∧
    (numLB = 1 → (Along (Handler.step numLB w) Proper (start stocks request response quoteReq) es ↔
      Throughout (fun before c => ¬ c.Refused ∧ ¬ LostFirst before)
        (calls numLB w (start stocks request response quoteReq) es))) := by
  obtain ⟨hproper, hbut⟩ := along_proper hn hrun
  have hflags := flags_start hn stocks request response quoteReq
  have htold := told_start hn stocks request response quoteReq
  have hstep : ∀ calls s e s', Flags numLB s ∧ Told numLB calls s → s.step numLB w e = some s' →
      Flags numLB s' ∧ Told numLB (calls ++ [call s e]) s' :=
    fun calls s e s' ⟨hf, ht⟩ h => ⟨step_flags hf h, step_told hf ht h⟩
  have hnew : ∀ {calls s}, Flags numLB s ∧ Told numLB calls s → ∀ e, NewConnected s e ↔ ¬ Breaks numLB calls := by
    rintro calls s ⟨hf, ht⟩ e
    rw [breaks_iff hf ht, NewConnected]
    simp
  refine ⟨hproper.trans ?_, hbut.trans ?_, fun hone => hproper.trans ?_⟩
  · exact along_iff_trail (fun before c => ¬ c.Refused ∧ ¬ Breaks numLB before) hstep
      (fun calls s e s' hi h => and_congr (refused_iff h) (hnew hi e)) es [] _ s ⟨hflags, htold⟩ hrun
  · exact along_iff_trail (fun before _ => ¬ Breaks numLB before) hstep
      (fun calls s e s' hi _ => hnew hi e) es [] _ s ⟨hflags, htold⟩ hrun
  · subst hone
    have hone : ∀ calls s e s', Flags 1 s ∧ ToldOne calls s → s.step 1 w e = some s' →
        Flags 1 s' ∧ ToldOne (calls ++ [call s e]) s' :=
      fun calls s e s' ⟨hf, ht⟩ h => ⟨step_flags hf h, step_toldOne hf ht h⟩
    have hcond : ∀ calls s e s', Flags 1 s ∧ ToldOne calls s → s.step 1 w e = some s' →
        (e ≠ .connect false ∧ NewConnected s e ↔ ¬ (call s e).Refused ∧ ¬ LostFirst calls) := by
      rintro calls s e s' ⟨hf, ht⟩ h
      have hcurr : s.currLB = 0 := by have := hf.currLB_lt; omega
      refine and_congr (refused_iff h) ?_
      rw [← ht.sendNew, NewConnected, hcurr]
      simp
    exact along_iff_trail (fun before c => ¬ c.Refused ∧ ¬ LostFirst before) hone hcond es [] _ s
      ⟨hflags, toldOne_start ..⟩ hrun

/-- Where no call fails, none is refused and no pass broken. -/
theorem throughout_ok {cs : List Call} (hok : ∀ c ∈ cs, c.ok = true) :
    Throughout (fun before c => ¬ c.Refused ∧ ¬ Breaks numLB before) cs := by
  rintro before c after rfl
  refine ⟨fun hrefused => ?_, fun hbreaks => ?_⟩
  · have hc := hok c (by simp)
    rw [hrefused.1] at hc
    cases hc
  · obtain ⟨cs₁, d, cs₂, rfl, hd, -⟩ := hbreaks.2
    have hok := hok d (by simp)
    rw [hd.1] at hok
    cases hok

end

/-! ### Runs with one load balancer -/

instance : ∀ s e, Decidable (Proper s e) := fun s e =>
  inferInstanceAs (Decidable ((∀ op ∈ ops s e, s.fds op.fd = .connected) ∧ (_ → _)))

/-- A load balancer answers that it has no quote, and gives one then. -/
theorem proper_aReply : ∃ s, exec (Handler.step 1 wrap64) aStart (.qdeq aRequest :: connecting ++
      [.recv (some ("NOT".toList ++ [nul])), .send true, .recv (some aReply)]) = some s ∧
    Along (Handler.step 1 wrap64) Proper aStart (.qdeq aRequest :: connecting ++
      [.recv (some ("NOT".toList ++ [nul])), .send true, .recv (some aReply)]) := by
  obtain ⟨s, hs⟩ := Option.isSome_iff_exists.mp (show (exec (Handler.step 1 wrap64) aStart
    (.qdeq aRequest :: connecting ++ [.recv (some ("NOT".toList ++ [nul])), .send true,
      .recv (some aReply)])).isSome = true by decide +kernel)
  exact ⟨s, hs, (proper_iff (by decide) hs).1.mpr (throughout_ok (by decide +kernel))⟩

/-- The load balancer closes the connection: the handler closes its socket, sends to it, and closes it once
    more. -/
theorem closedTwice : (exec (Handler.step 1 wrap64) aStart (.qdeq aRequest :: connecting ++
      [.recv none, .send false])).isSome = true ∧
    ¬ Along (Handler.step 1 wrap64) Proper aStart (.qdeq aRequest :: connecting ++
      [.recv none, .send false]) :=
  ⟨by decide +kernel, by decide +kernel⟩

end TradeC.QuoteHandler
