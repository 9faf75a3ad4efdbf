import TradeC.Quotes
import TradeC.Lib.Run
import Mathlib.Logic.Function.Basic

/-! The main loop of the transaction server's `quote_handler`, one step for what each call returns.

    In every pass the handler asks the load balancers in order for a cached quote, and then the one of
    `currLB` for a new one. The loop carries `noneConnected`, `isCached`, `connected` and `currLB` from one
    request to the next, and nothing but a later failure to resolve an address takes `noneConnected` back. -/

namespace TradeC.QuoteHandler
open Quotes Run

/-- `quote_queue_element`, with the semaphore of the requester. -/
structure Request where
  stockID : StockID
  userID : UserID
  transID : CStr
  userCmd : CStr
  returned : ℕ
  deriving DecidableEq

/-- The call that the handler is in, for the load balancer of an index. -/
inductive Pc where
  | qdeq
  | getaddrinfo (i : ℕ)
  | socket (i : ℕ)
  | connect (i : ℕ)
  | send (i : ℕ)
  | recv (i : ℕ)
  | sendNew
  | recvNew
  deriving DecidableEq

/-- What a descriptor is to this thread: one that it did not open or has closed since, one that it has
    opened, and one that has been connected since. -/
inductive Fd where
  | closed
  | opened
  | connected
  deriving DecidableEq

structure Handler where
  pc : Pc
  request : List Char
  client : Client
  stocks : StockID → Stock
  quoteReq : Request
  loadBalSock : ℕ → ℤ
  connected : ℕ → Bool
  noneConnected : Bool
  isCached : Bool
  currLB : ℕ
  -- the semaphores that have been posted
  posted : List ℕ
  fds : ℤ → Fd

/-- What a call returns: the request, or whether the network let it succeed. -/
inductive Outcome where
  | qdeq (quoteReq : Request)
  | getaddrinfo (ok : Bool)
  | socket (fd : Option ℕ)
  | connect (ok : Bool)
  | send (ok : Bool)
  | recv (bytes : Option (List Char))
  deriving DecidableEq

/-- The start, with what is in the memory that is not initialised. -/
def start (stocks : StockID → Stock) (request response : List Char) (quoteReq : Request) : Handler where
  pc := .qdeq
  request := request
  client := ⟨response, List.replicate 5 none, ⟨0, 0, []⟩⟩
  stocks := stocks
  quoteReq := quoteReq
  loadBalSock := fun _ => 0
  connected := fun _ => false
  noneConnected := false
  isCached := false
  currLB := 0
  posted := []
  fds := fun _ => .closed

namespace Handler
variable (numLB : ℕ) (w : ℤ → ℤ)

/-- The body of the loop over the load balancers. -/
def body (s : Handler) (i : ℕ) : Handler :=
  { s with pc := if s.connected i then .send i else .getaddrinfo i }

/-- A pass of the main loop. -/
def pass (s : Handler) : Handler := s.body 0

/-- From `isCached = 0` to the next `qdeq`. -/
def done (s : Handler) : Handler :=
  { s with
    pc := .qdeq
    isCached := false
    posted := s.posted ++ [s.quoteReq.returned]
    currLB := (s.currLB + 1) % numLB }

/-- What follows the loop over the load balancers. -/
def after (s : Handler) : Handler :=
  if s.noneConnected then s.pass
  else if !s.isCached then { s with pc := .sendNew }
  else s.done numLB

/-- The next load balancer, or the end of the loop. -/
def next (s : Handler) (i : ℕ) : Handler := if i + 1 < numLB then s.body (i + 1) else s.after numLB

/-- `connected[i] = 0` and `close(loadBalSock[i])`. -/
def drop (s : Handler) (i : ℕ) : Handler :=
  { s with
    connected := Function.update s.connected i false
    fds := Function.update s.fds (s.loadBalSock i) .closed }

/-- The quote that has been split is stored; no result where `Client.quote` has none. -/
def store (s : Handler) : Option Handler :=
  (s.client.quote w).map fun c =>
    { s with client := c, stocks := Function.update s.stocks s.quoteReq.stockID c.stockObj }

def dequeue (s : Handler) (quoteReq : Request) : Option Handler :=
  (sprintf (quoteRequest quoteReq.transID quoteReq.userCmd quoteReq.stockID quoteReq.userID)).map
    fun request => { s with
      request := request
      quoteReq := quoteReq
      client := { s.client with stockObj := s.stocks quoteReq.stockID } }.pass

/-- One step; no result for an outcome of another call, and where a buffer would be overrun. A new
    descriptor is none that is open, and a call that receives no byte has failed. -/
def step (s : Handler) (e : Outcome) : Option Handler :=
  match s.pc, e with
  | .qdeq, .qdeq quoteReq => s.dequeue quoteReq
  | .getaddrinfo i, .getaddrinfo true => some { s with pc := .socket i }
  | .getaddrinfo i, .getaddrinfo false =>
    some ({ s with
      currLB := if i = s.currLB then (s.currLB + 1) % numLB else s.currLB
      noneConnected := (List.range numLB).all fun j => !s.connected j }.next numLB i)
  | .socket i, .socket none =>
    some ({ s with loadBalSock := Function.update s.loadBalSock i (-1) }.next numLB i)
  | .socket i, .socket (some fd) =>
    if s.fds fd = .closed then
      some { s with
        pc := .connect i
        loadBalSock := Function.update s.loadBalSock i fd
        fds := Function.update s.fds fd .opened }
    else none
  | .connect i, .connect true =>
    some { s with
      pc := .send i
      connected := Function.update s.connected i true
      fds := Function.update s.fds (s.loadBalSock i) .connected }
  | .connect i, .connect false => some ((s.drop i).next numLB i)
  | .send i, .send true => some { s with pc := .recv i }
  | .send i, .send false => some ((s.drop i).next numLB i)
  | .recv i, .recv none => some ((s.drop i).next numLB i)
  | .recv i, .recv (some bytes) =>
    if bytes = [] then none
    else (s.client.receive bytes).bind fun (c, respLen) =>
      let s := { s with client := c }
      if respLen = 5 then (s.store w).map fun s => { s with isCached := true }.after numLB
      else some (s.next numLB i)
  | .sendNew, .send true => some { s with pc := .recvNew }
  | .sendNew, .send false => some (s.drop s.currLB).pass
  | .recvNew, .recv none => some (s.drop s.currLB).pass
  | .recvNew, .recv (some bytes) =>
    if bytes = [] then none
    else (s.client.receive bytes).bind fun (c, _) => ({ s with client := c }.store w).map (done numLB)
  | _, _ => none

end Handler

/-- What is done to a descriptor. -/
inductive Op where
  | send (fd : ℤ) (request : List Char)
  | recv (fd : ℤ)
  | close (fd : ℤ)

def Op.fd : Op → ℤ
  | .send fd _ | .recv fd | .close fd => fd

/-- The `send`, `recv` and `close` of a step. -/
def ops (s : Handler) (e : Outcome) : List Op :=
  match s.pc, e with
  | .connect i, .connect false => [.close (s.loadBalSock i)]
  | .send i, .send true => [.send (s.loadBalSock i) s.request]
  | .send i, .send false => [.send (s.loadBalSock i) s.request, .close (s.loadBalSock i)]
  | .recv i, .recv (some _) => [.recv (s.loadBalSock i)]
  | .recv i, .recv none => [.recv (s.loadBalSock i), .close (s.loadBalSock i)]
  | .sendNew, .send true => [.send (s.loadBalSock s.currLB) (sent true s.request)]
  | .sendNew, .send false =>
    [.send (s.loadBalSock s.currLB) (sent true s.request), .close (s.loadBalSock s.currLB)]
  | .recvNew, .recv (some _) => [.recv (s.loadBalSock s.currLB)]
  | .recvNew, .recv none => [.recv (s.loadBalSock s.currLB), .close (s.loadBalSock s.currLB)]
  | _, _ => []

/-! ### What a step does -/

section
variable {numLB : ℕ} {w : ℤ → ℤ}

/-- The answer gives five fields, as it stands in the buffer. -/
def fiveFields (s : Handler) (bytes : List Char) : Bool := (s.client.receive bytes).any fun received => received.2 = 5

/-- The steps that there are, by the call that returns. -/
inductive Stepped (numLB : ℕ) (w : ℤ → ℤ) (s : Handler) : Outcome → Handler → Prop
  | qdeq (quoteReq request) : s.pc = .qdeq → Stepped numLB w s (.qdeq quoteReq)
      { s with
        request := request
        quoteReq := quoteReq
        client := { s.client with stockObj := s.stocks quoteReq.stockID } }.pass
  | resolved {i} : s.pc = .getaddrinfo i → Stepped numLB w s (.getaddrinfo true) { s with pc := .socket i }
  | unresolved {i} : s.pc = .getaddrinfo i → Stepped numLB w s (.getaddrinfo false)
      ({ s with
        currLB := if i = s.currLB then (s.currLB + 1) % numLB else s.currLB
        noneConnected := (List.range numLB).all fun j => !s.connected j }.next numLB i)
  | noSocket {i} : s.pc = .socket i → Stepped numLB w s (.socket none)
      ({ s with loadBalSock := Function.update s.loadBalSock i (-1) }.next numLB i)
  | socket {i} (fd : ℕ) : s.pc = .socket i → s.fds fd = .closed → Stepped numLB w s (.socket (some fd))
      { s with
        pc := .connect i
        loadBalSock := Function.update s.loadBalSock i fd
        fds := Function.update s.fds fd .opened }
  | connected {i} : s.pc = .connect i → Stepped numLB w s (.connect true)
      { s with
        pc := .send i
        connected := Function.update s.connected i true
        fds := Function.update s.fds (s.loadBalSock i) .connected }
  | refused {i} : s.pc = .connect i → Stepped numLB w s (.connect false) ((s.drop i).next numLB i)
  | sent {i} : s.pc = .send i → Stepped numLB w s (.send true) { s with pc := .recv i }
  | unsent {i} : s.pc = .send i → Stepped numLB w s (.send false) ((s.drop i).next numLB i)
  | lost {i} : s.pc = .recv i → Stepped numLB w s (.recv none) ((s.drop i).next numLB i)
  | cached {i} (bytes c c') : s.pc = .recv i → fiveFields s bytes = true → Stepped numLB w s (.recv (some bytes))
      ({ s with
        client := c'
        stocks := Function.update s.stocks s.quoteReq.stockID c
        isCached := true }.after numLB)
  | notCached {i} (bytes c) : s.pc = .recv i → fiveFields s bytes = false → Stepped numLB w s (.recv (some bytes))
      ({ s with client := c }.next numLB i)
  | sentNew : s.pc = .sendNew → Stepped numLB w s (.send true) { s with pc := .recvNew }
  | unsentNew : s.pc = .sendNew → Stepped numLB w s (.send false) (s.drop s.currLB).pass
  | lostNew : s.pc = .recvNew → Stepped numLB w s (.recv none) (s.drop s.currLB).pass
  | new (bytes c c') : s.pc = .recvNew → Stepped numLB w s (.recv (some bytes))
      ({ s with client := c', stocks := Function.update s.stocks s.quoteReq.stockID c }.done numLB)

theorem store_eq_some {s s' : Handler} (h : s.store w = some s') : ∃ c : Client, s' =
    { s with client := c, stocks := Function.update s.stocks s.quoteReq.stockID c.stockObj } := by
  obtain ⟨c, -, rfl⟩ := Option.map_eq_some_iff.mp h
  exact ⟨c, rfl⟩

theorem step_cases {s s' : Handler} {e : Outcome} (h : s.step numLB w e = some s') :
    Stepped numLB w s e s' := by
  unfold Handler.step at h
  split at h
  · obtain ⟨request, -, rfl⟩ := Option.map_eq_some_iff.mp h
    exact .qdeq _ _ ‹_›
  · cases h
    exact .resolved ‹_›
  · cases h
    exact .unresolved ‹_›
  · cases h
    exact .noSocket ‹_›
  · rename_i i fd hpc
    by_cases hfd : s.fds fd = .closed
    · rw [if_pos hfd] at h
      cases h
      exact .socket fd hpc hfd
    · rw [if_neg hfd] at h
      cases h
  · cases h
    exact .connected ‹_›
  · cases h
    exact .refused ‹_›
  · cases h
    exact .sent ‹_›
  · cases h
    exact .unsent ‹_›
  · cases h
    exact .lost ‹_›
  · rename_i bytes hpc
    by_cases hbytes : bytes = []
    · rw [if_pos hbytes] at h
      cases h
    · rw [if_neg hbytes] at h
      obtain ⟨⟨c, respLen⟩, hrecv, h⟩ := Option.bind_eq_some_iff.mp h
      by_cases hlen : respLen = 5
      · simp only [if_pos hlen] at h
        obtain ⟨t, hstore, rfl⟩ := Option.map_eq_some_iff.mp h
        obtain ⟨c', rfl⟩ := store_eq_some hstore
        exact .cached _ _ _ hpc (by simp [fiveFields, hrecv, hlen])
      · simp only [if_neg hlen] at h
        cases h
        exact .notCached _ _ hpc (by simp [fiveFields, hrecv, hlen])
  · cases h
    exact .sentNew ‹_›
  · cases h
    exact .unsentNew ‹_›
  · cases h
    exact .lostNew ‹_›
  · rename_i bytes hpc
    by_cases hbytes : bytes = []
    · rw [if_pos hbytes] at h
      cases h
    · rw [if_neg hbytes] at h
      obtain ⟨⟨c, respLen⟩, -, h⟩ := Option.bind_eq_some_iff.mp h
      obtain ⟨t, hstore, rfl⟩ := Option.map_eq_some_iff.mp h
      obtain ⟨c', rfl⟩ := store_eq_some hstore
      exact .new _ _ _ hpc
  · cases h

/-! ### `noneConnected` -/

@[simp] theorem pass_noneConnected (s : Handler) : s.pass.noneConnected = s.noneConnected := rfl

@[simp] theorem done_noneConnected (s : Handler) : (s.done numLB).noneConnected = s.noneConnected := rfl

@[simp] theorem drop_noneConnected (s : Handler) (i : ℕ) :
    (s.drop i).noneConnected = s.noneConnected := rfl

@[simp] theorem after_noneConnected (s : Handler) :
    (s.after numLB).noneConnected = s.noneConnected := by
  unfold Handler.after
  split_ifs <;> rfl

@[simp] theorem next_noneConnected (s : Handler) (i : ℕ) :
    (s.next numLB i).noneConnected = s.noneConnected := by
  unfold Handler.next
  split_ifs
  · rfl
  · exact after_noneConnected s

/-- Nothing but a failure to resolve an address sets it or takes it back. -/
theorem step_noneConnected {s s' : Handler} {e : Outcome} (h : s.step numLB w e = some s') :
    (e ≠ .getaddrinfo false → s'.noneConnected = s.noneConnected) ∧
      (e = .getaddrinfo false → (s'.noneConnected = false ↔ ∃ j < numLB, s.connected j = true)) := by
  cases step_cases h with
  | unresolved hpc => exact ⟨fun hne => absurd rfl hne, fun _ => by simp⟩
  | _ =>
    refine ⟨fun _ => ?_, fun heq => by cases heq⟩
    simp

/-- The last failure to resolve an address, if there was one, came while a load balancer was connected. -/
def FailedConnected (numLB : ℕ) (w : ℤ → ℤ) (s₀ : Handler) (es : List Outcome) : Prop :=
  ∀ es₁ es₂ s, es = es₁ ++ .getaddrinfo false :: es₂ → .getaddrinfo false ∉ es₂ →
    exec (Handler.step numLB w) s₀ es₁ = some s → ∃ j < numLB, s.connected j = true

/-- By induction on the run from its end: the last event has set it, or an earlier one. -/
theorem noneConnected_iff {s₀ : Handler} (h₀ : s₀.noneConnected = false) (es : List Outcome) :
    ∀ s, exec (Handler.step numLB w) s₀ es = some s →
      (s.noneConnected = false ↔ FailedConnected numLB w s₀ es) := by
  induction es using List.reverseRecOn with
  | nil =>
    intro s h
    cases h
    refine ⟨fun _ es₁ es₂ _ h => absurd h.symm (by simp), fun _ => h₀⟩
  | append_singleton es e ih =>
    intro s h
    rw [exec_append] at h
    obtain ⟨s₁, hrun, h⟩ := Option.bind_eq_some_iff.mp h
    obtain ⟨s', hs, h⟩ := exec_cons_some h
    cases h
    obtain ⟨hkeep, hset⟩ := step_noneConnected hs
    by_cases he : e = .getaddrinfo false
    · rw [hset he]
      constructor
      · intro hconn es₁ es₂ t heq hlast ht
        rcases List.eq_nil_or_concat es₂ with rfl | ⟨es₂, e', rfl⟩
        · obtain ⟨rfl, -⟩ := List.append_inj' heq rfl
          rw [hrun] at ht
          cases ht
          exact hconn
        · refine absurd ?_ hlast
          rw [List.concat_eq_append, ← List.cons_append, ← List.append_assoc] at heq
          obtain ⟨-, heq⟩ := List.append_inj' heq rfl
          rw [← List.singleton_inj.mp heq, he]
          simp
      · intro hall
        exact hall es [] s₁ (by rw [he]) List.not_mem_nil hrun
    · rw [hkeep he, ih s₁ hrun]
      constructor
      · intro hall es₁ es₂ t heq hlast ht
        rcases List.eq_nil_or_concat es₂ with rfl | ⟨es₂, e', rfl⟩
        · obtain ⟨-, heq⟩ := List.append_inj' heq rfl
          exact absurd (List.singleton_inj.mp heq) he
        · rw [List.concat_eq_append, ← List.cons_append, ← List.append_assoc] at heq
          obtain ⟨heq, -⟩ := List.append_inj' heq rfl
          exact hall es₁ es₂ t heq (fun hmem => hlast (by simp [hmem])) ht
      · intro hall es₁ es₂ t heq hlast ht
        refine hall es₁ (es₂ ++ [e]) t (by rw [heq]; simp) ?_ ht
        rw [List.mem_append, List.mem_singleton]
        rintro (hmem | hmem)
        · exact hlast hmem
        · exact he hmem.symm

/-! ### The answer with a quote -/

/-- An answer, as it stands in the buffer, is the text of five fields. -/
def Quote (c : Client) (bytes : List Char) (price ts key : CStr) : Prop :=
  bytes ≠ [] ∧ ∃ text r sym user, Quotes.recv c.response bytes = text ++ nul :: r ∧
    (∀ x ∈ text, x ≠ nul) ∧ Web.explode ',' text = [price, sym, user, ts, key]

/-- With the answer the request is over: the quote is stored, the requester released once, and the next
    request taken. -/
def Completes (numLB : ℕ) (w : ℤ → ℤ) (s : Handler) (bytes : List Char) (price ts key : CStr) : Prop :=
  ∃ s', s.step numLB w (.recv (some bytes)) = some s' ∧
    s'.stocks = Function.update s.stocks s.quoteReq.stockID ⟨str2price w price, strtoll ts, key⟩ ∧
    s'.posted = s.posted ++ [s.quoteReq.returned] ∧ s'.pc = .qdeq

theorem Quote.receive {c : Client} {bytes : List Char} {price ts key : CStr}
    (h : Quote c bytes price ts key) : ∃ c' : Client, c.receive bytes = some (c', 5) ∧
      c'.quote w = if key.length < 57 then
        some { c' with stockObj := ⟨str2price w price, strtoll ts, key⟩ } else none := by
  obtain ⟨-, text, r, sym, user, hr, hnul, hfields⟩ := h
  have hne : text ≠ [] := by
    rintro rfl
    exact absurd hfields (by simp [Web.explode, delimLoop])
  obtain ⟨c', hrecv, -, hstr⟩ := c.receive_fields hr hne hnul (by rw [hfields]; simp)
  rw [hfields] at hrecv hstr
  have h₀ : c'.str 0 = some price := hstr 0 (by simp)
  have h₃ : c'.str 3 = some ts := hstr 3 (by simp)
  have h₄ : c'.str 4 = some key := hstr 4 (by simp)
  refine ⟨c', hrecv, ?_⟩
  rw [Client.quote, h₀, h₃, h₄]

theorem step_quote (numLB : ℕ) (w : ℤ → ℤ) {s : Handler} {i : ℕ} (hpc : s.pc = .recv i) {bytes : List Char}
    {price ts key : CStr} (h : Quote s.client bytes price ts key) : ∃ c : Client,
    s.step numLB w (.recv (some bytes)) = if key.length < 57 then
      some ({ s with
        client := c
        stocks := Function.update s.stocks s.quoteReq.stockID ⟨str2price w price, strtoll ts, key⟩
        isCached := true }.after numLB) else none := by
  obtain ⟨c, hrecv, hquote⟩ := h.receive (w := w)
  refine ⟨{ c with stockObj := ⟨str2price w price, strtoll ts, key⟩ }, ?_⟩
  have hstep : s.step numLB w (.recv (some bytes)) = if bytes = [] then none
      else (s.client.receive bytes).bind fun (c, respLen) =>
        let s := { s with client := c }
        if respLen = 5 then (s.store w).map fun s => { s with isCached := true }.after numLB
        else some (s.next numLB i) := by
    simp only [Handler.step, hpc]
  rw [hstep, if_neg h.1, hrecv, Option.bind_some]
  simp only [if_true, Handler.store, hquote]
  split_ifs <;> rfl

theorem completes_step {s : Handler} {i : ℕ} (hpc : s.pc = .recv i) {bytes : List Char}
    {price ts key : CStr} (h : Quote s.client bytes price ts key) :
    Completes numLB w s bytes price ts key ↔ s.noneConnected = false ∧ key.length < 57 := by
  obtain ⟨c, hstep⟩ := step_quote numLB w hpc h
  rw [Completes, hstep]
  by_cases hkey : key.length < 57
  · rw [if_pos hkey, Handler.after]
    cases hnone : s.noneConnected with
    | false => exact iff_of_true ⟨_, rfl, rfl, rfl, rfl⟩ ⟨rfl, hkey⟩
    | true =>
      refine iff_of_false ?_ (by simp)
      rintro ⟨s', heq, -, hposted, -⟩
      cases heq
      exact absurd hposted (by simp [Handler.pass, Handler.body])
  · rw [if_neg hkey]
    exact iff_of_false (by simp) fun h => hkey h.2

/-- A quote that is received completes its request exactly if no address failed to resolve before, or some
    load balancer was connected when one last did; and if the key fits the one of the stock. -/
theorem completes_iff {stocks : StockID → Stock} {request response : List Char} {quoteReq : Request}
    {es : List Outcome} {s : Handler} {i : ℕ} {bytes : List Char} {price ts key : CStr}
    (hrun : exec (Handler.step numLB w) (start stocks request response quoteReq) es = some s)
    (hpc : s.pc = .recv i) (h : Quote s.client bytes price ts key) :
    Completes numLB w s bytes price ts key ↔
      FailedConnected numLB w (start stocks request response quoteReq) es ∧ key.length < 57 := by
  rw [completes_step hpc h, noneConnected_iff rfl es s hrun]

end

/-! ### Runs with one load balancer -/

def aRequest : Request := ⟨stockABC, aUser, "7".toList, "QUOTE".toList, 0⟩

def aReply : List Char := "12.50,ABC,aaaaaaaaaa,1000,k".toList ++ [nul]

def aStart : Handler := start (fun _ => ⟨0, 0, []⟩) [] [] aRequest

/-- Up to the answer, where every call succeeds. -/
def connecting : List Outcome := [.getaddrinfo true, .socket (some 3), .connect true, .send true]

theorem quote_aReply {c : Client} (hc : c.response = []) :
    Quote c aReply "12.50".toList "1000".toList "k".toList := by
  refine ⟨List.append_ne_nil_of_right_ne_nil _ (List.cons_ne_nil _ _), "12.50,ABC,aaaaaaaaaa,1000,k".toList, [], "ABC".toList, "aaaaaaaaaa".toList, ?_,
    by simp [nul], by decide⟩
  rw [hc]
  decide

theorem aStart_qdeq (w : ℤ → ℤ) : ∃ request, aStart.step 1 w (.qdeq aRequest) =
    some { aStart with pc := .getaddrinfo 0, request := request } := by
  obtain ⟨request, hreq⟩ : ∃ request, sprintf (quoteRequest aRequest.transID aRequest.userCmd
      aRequest.stockID aRequest.userID) = some request := ⟨_, sprintf_eq_some.mpr ⟨by decide, rfl⟩⟩
  refine ⟨request, ?_⟩
  have hstep : aStart.step 1 w (.qdeq aRequest) = aStart.dequeue aRequest := rfl
  rw [hstep, Handler.dequeue, hreq]
  rfl

theorem completes_aReply : ∃ s, exec (Handler.step 1 wrap64) aStart (.qdeq aRequest :: connecting) = some s ∧
    Completes 1 wrap64 s aReply "12.50".toList "1000".toList "k".toList := by
  obtain ⟨request, hqdeq⟩ := aStart_qdeq wrap64
  obtain ⟨s, hrun, hpc, hc⟩ : ∃ s, exec (Handler.step 1 wrap64) aStart (.qdeq aRequest :: connecting) =
      some s ∧ s.pc = .recv 0 ∧ s.client.response = [] := by
    rw [exec_cons, hqdeq]
    exact ⟨_, rfl, rfl, rfl⟩
  refine ⟨s, hrun, (completes_iff hrun hpc (quote_aReply hc)).mpr ⟨?_, by decide⟩⟩
  intro es₁ es₂ s heq
  have hmem : Outcome.getaddrinfo false ∈ Outcome.qdeq aRequest :: connecting := by rw [heq]; simp
  exact absurd hmem (by decide)

/-- The address is not resolved once, before everything succeeds: the quote is stored, but nobody is
    released. -/
theorem failedOnce : ∃ s,
    exec (Handler.step 1 wrap64) aStart (.qdeq aRequest :: .getaddrinfo false :: connecting) = some s ∧
    s.pc = .recv 0 ∧ Quote s.client aReply "12.50".toList "1000".toList "k".toList ∧
    ¬ Completes 1 wrap64 s aReply "12.50".toList "1000".toList "k".toList := by
  obtain ⟨request, hqdeq⟩ := aStart_qdeq wrap64
  obtain ⟨s, hrun, hpc, hc, hnone⟩ : ∃ s, exec (Handler.step 1 wrap64) aStart
      (.qdeq aRequest :: .getaddrinfo false :: connecting) = some s ∧
      s.pc = .recv 0 ∧ s.client.response = [] ∧ s.noneConnected = true := by
    rw [exec_cons, hqdeq]
    exact ⟨_, rfl, rfl, rfl, rfl⟩
  refine ⟨s, hrun, hpc, quote_aReply hc, fun h => ?_⟩
  rw [completes_step hpc (quote_aReply hc), hnone] at h
  exact Bool.noConfusion h.1

end TradeC.QuoteHandler
