import TradeC.Delivery

/-! Where no `send` and no `recv` of `log_handler` fails, the log server receives each line once.

    There is then one connection, and what is on its way on it is the line that is held. -/

namespace TradeC.Delivery
open Run

/-- The call that the handler makes is no `send` or `recv` that fails. -/
def Unbroken (s : State) : Event → Prop
  | .handler ok => ok = true ∨ s.pc ≠ .send ∧ s.pc ≠ .recv
  | _ => True

instance (s : State) : ∀ e, Decidable (Unbroken s e)
  | .handler _ => inferInstanceAs (Decidable (_ ∨ _))
  | .lenq _ => .isTrue trivial
  | .server _ _ => .isTrue trivial

/-- What holds of an unbroken run: the lines received are the ones done, and the one that is held is on its way
    when it has been sent; or that one has been received as well, and is no more on its way. -/
structure Once (s : State) : Prop where
  flow : Flow s
  down : s.up = false → s.fresh = 0
  alone : s.up = true → s.fresh = 1 ∧ s.sock = 0
  pending : s.pc = .socket ∨ s.pc = .connect → s.up = false
  received : (s.received.map Prod.fst = List.range s.done ∧
      (s.pc = .recv → (s.conn s.sock).flight = [(s.held, s.log)])) ∨
    s.pc = .recv ∧ s.received.map Prod.fst = List.range (s.done + 1) ∧ (s.conn s.sock).flight = []

theorem once_init : Once State.init where
  flow := flow_init
  down _ := rfl
  alone h := absurd h (by decide)
  pending _ := rfl
  received := .inl ⟨rfl, fun h => absurd h (by decide)⟩

namespace Once
variable {s s' : State} (h : Once s)
include h

/-- Only the connection of the handler has anything on its way. -/
theorem sock_of_lt {c : ℕ} (hc : c < s.fresh) : s.up = true ∧ c = s.sock := by
  cases hup : s.up with
  | false =>
    rw [h.down hup] at hc
    exact absurd hc (Nat.not_lt_zero c)
  | true =>
    obtain ⟨hfresh, hsock⟩ := h.alone hup
    rw [hfresh] at hc
    exact ⟨rfl, (Nat.lt_one_iff.mp hc).trans hsock.symm⟩

/-- A step of a handler that does not wait, which leaves the connections and the lines as they are. -/
theorem of_eq (hflow : Flow s') (hup : s'.up = s.up) (hfresh : s'.fresh = s.fresh) (hsock : s'.sock = s.sock)
    (hpending : s'.pc = .socket ∨ s'.pc = .connect → s.up = false) (hpc : s.pc ≠ .recv) (hpc' : s'.pc ≠ .recv)
    (hdone : s'.done = s.done) (hrec : s'.received = s.received) : Once s' where
  flow := hflow
  down hd := hfresh.trans (h.down (hup ▸ hd))
  alone hu := by
    rw [hfresh, hsock]
    exact h.alone (hup ▸ hu)
  pending hp := hup.trans (hpending hp)
  received := by
    rw [hrec, hdone]
    exact .inl ⟨(h.received.resolve_right fun h => hpc h.1).1, fun hp => absurd hp hpc'⟩

theorem handlerStep {ok : Bool} (hok : Unbroken s (.handler ok)) (hs : s.handlerStep ok = some s') :
    Once s' := by
  have hflow := h.flow.handlerStep hs
  unfold State.handlerStep at hs
  cases hpc : s.pc with
  | ldeq =>
    simp only [hpc] at hs
    cases hq : s.queue with
    | nil => simp [hq] at hs
    | cons log queue =>
      simp only [hq, Option.some.injEq] at hs
      subst hs
      exact h.of_eq hflow rfl rfl rfl (by simp) (by simp [hpc]) (by simp) (by simp [State.done, State.held, hpc]) rfl
  | top =>
    simp only [hpc] at hs
    split_ifs at hs with hup
    · cases hs
      exact h.of_eq hflow rfl rfl rfl (by simp) (by simp [hpc]) (by simp) (by simp [State.done, State.held, hpc]) rfl
    · cases hs
      exact h.of_eq hflow rfl rfl rfl (fun _ => by simpa using hup) (by simp [hpc]) (by simp)
        (by simp [State.done, State.held, hpc]) rfl
    · cases hs
      have hnext : s.next = s.currLOG := Subsingleton.elim _ _
      exact h.of_eq hflow (congrArg s.connected hnext) rfl (congrArg s.logSock hnext) (fun _ => by simpa using hup)
        (by simp [hpc]) (by simp) (by simp [State.done, State.held, hpc]) rfl
  | socket =>
    simp only [hpc, Option.some.injEq] at hs
    subst hs
    refine h.of_eq hflow rfl rfl rfl (fun _ => h.pending (.inl hpc)) (by simp [hpc]) ?_ ?_ rfl
    · cases ok <;> simp
    · cases ok <;> simp [State.done, State.held, hpc]
  | connect =>
    simp only [hpc] at hs
    split_ifs at hs
    · cases hs
      have hfresh := h.down (h.pending (.inr hpc))
      have hrec := (h.received.resolve_right fun h => by simp [hpc] at h).1
      refine ⟨hflow, fun hd => ?_, fun _ => ⟨?_, ?_⟩, by simp, .inl ⟨?_, by simp⟩⟩
      · have hup : (Function.update s.connected s.currLOG true) s.currLOG = false := hd
        rw [Function.update_self] at hup
        cases hup
      · rw [hfresh]
      · exact (Function.update_self _ _ _).trans hfresh
      · simpa [State.done, State.held, hpc, State.setConnected] using hrec
    · cases hs
      exact h.of_eq hflow rfl rfl rfl (by simp) (by simp [hpc]) (by simp) (by simp [State.done, State.held, hpc]) rfl
  | send =>
    have hok' : ok = true := hok.resolve_right fun h => h.1 hpc
    simp only [hpc, hok', if_true] at hs
    cases hs
    have hrec := (h.received.resolve_right fun h => by simp [hpc] at h).1
    obtain ⟨hto, -, hidle⟩ := Conn.load_zero (h.flow.quiet (h.flow.needs (.inl hpc)) (by simp [hpc]))
    refine ⟨hflow, h.down, h.alone, by simp, .inl ⟨?_, fun _ => ?_⟩⟩
    · simpa [State.done, State.held, hpc, State.setConn, State.act] using hrec
    · refine (congrArg Conn.flight (Function.update_self _ _ _)).trans ?_
      rcases hidle with hidle | hidle
      · simp [Conn.flight, hto, hidle, State.held, State.setConn, State.act]
      · simp [Conn.flight, hto, hidle, State.held, State.setConn, State.act]
  | recv =>
    have hok' : ok = true := hok.resolve_right fun h => h.2 hpc
    simp only [hpc, hok', if_true] at hs
    split at hs
    · cases hs
    rename_i acks hacks
    cases hs
    have hdone : s.done = s.held := by simp [State.done, hpc]
    have hlen : s.held + 1 = s.dequeued.length := by
      obtain ⟨hlt, -⟩ := List.getElem?_eq_some_iff.mp (h.flow.log (by simp [hpc]))
      unfold State.held at hlt ⊢
      omega
    -- the acknowledgement is for the line that is held, so that it has been received
    have hrec : s.received.map Prod.fst = List.range (s.done + 1) := by
      have hgot := h.flow.replied hpc (.inr (by omega))
      rcases h.received with ⟨hrec, -⟩ | ⟨-, hrec, -⟩
      · rw [hrec, List.mem_range, hdone] at hgot
        exact absurd hgot (lt_irrefl _)
      · exact hrec
    have hnext : s.next = s.currLOG := Subsingleton.elim _ _
    refine ⟨hflow, fun hd => h.down ((congrArg s.connected hnext).symm.trans hd), fun hu => ?_, by simp,
      .inl ⟨?_, by simp⟩⟩
    · obtain ⟨hfresh, hsock⟩ := h.alone ((congrArg s.connected hnext).symm.trans hu)
      exact ⟨hfresh, (congrArg s.logSock hnext).trans hsock⟩
    · rw [hdone, hlen] at hrec
      simpa [State.done, State.setConn, State.act] using hrec

theorem serverStep {c : ℕ} {ok : Bool} (hs : s.serverStep c ok = some s') : Once s' := by
  have hflow := h.flow.serverStep hs
  unfold State.serverStep at hs
  by_cases hc : c < s.fresh
  swap
  · rw [if_neg hc] at hs
    cases hs
  rw [if_pos hc] at hs
  obtain ⟨hup, rfl⟩ := h.sock_of_lt hc
  have hself : ∀ x : Conn, (s.setConn s.sock x).conn s.sock = x := fun x => Function.update_self _ _ _
  -- a thread that puts nothing into the queue
  have hkeeps : ∀ x : Conn, s' = s.setConn s.sock x → x.flight = (s.conn s.sock).flight → Once s' := by
    rintro x rfl hx
    have hflight : ((s.setConn s.sock x).conn s.sock).flight = (s.conn s.sock).flight :=
      (congrArg Conn.flight (hself x)).trans hx
    refine ⟨hflow, h.down, h.alone, h.pending, ?_⟩
    rcases h.received with ⟨hrec, hfl⟩ | ⟨hpc, hrec, hfl⟩
    · exact .inl ⟨hrec, fun hp => hflight.trans (hfl hp)⟩
    · exact .inr ⟨hpc, hrec, hflight.trans hfl⟩
  cases hpc : (s.conn s.sock).pc with
  | recv =>
    simp only [hpc] at hs
    split_ifs at hs
    · cases hto : (s.conn s.sock).toServer with
      | nil => simp [hto] at hs
      | cons y rest =>
        simp only [hto, Option.some.injEq] at hs
        have hload : (s.conn s.sock).load ≤ 1 := by
          by_cases hp : s.pc = .recv
          · exact h.flow.one hp
          · rw [h.flow.quiet hup hp]
            exact Nat.zero_le 1
        have hrest : rest = [] := by
          simp only [Conn.load, hto, hpc, List.length_cons] at hload
          exact List.eq_nil_of_length_eq_zero (by omega)
        exact hkeeps _ hs.symm (by simp [Conn.flight, hto, hpc, hrest])
    · exact hkeeps _ (Option.some.inj hs).symm (by simp [Conn.flight, hpc])
  | lenq y =>
    simp only [hpc, Option.some.injEq] at hs
    subst hs
    have hmem : y ∈ (s.conn s.sock).flight := by simp [Conn.flight, hpc]
    have hwaits : s.pc = .recv := by
      by_contra hne
      obtain ⟨-, -, hidle⟩ := Conn.load_zero (h.flow.quiet hup hne)
      simp [hpc] at hidle
    have hdone : s.done = s.held := by simp [State.done, hwaits]
    have hrec : s.received.map Prod.fst = List.range s.done :=
      (h.received.resolve_right fun h => by simp [h.2.2] at hmem).1
    refine ⟨hflow, h.down, h.alone, h.pending, .inr ⟨hwaits, ?_, ?_⟩⟩
    · have hy := h.flow.own hwaits y hmem
      have hdone' : ({ s.setConn s.sock { s.conn s.sock with pc := .send } with
          received := s.received ++ [y] } : State).done = s.done := rfl
      rw [hdone', List.map_append, hrec, List.map_singleton, hy, ← hdone, List.range_succ]
    · have hone := h.flow.one hwaits
      have hto : (s.conn s.sock).toServer = [] := by
        simp only [Conn.load, hpc] at hone
        exact List.eq_nil_of_length_eq_zero (by omega)
      exact (congrArg Conn.flight (hself _)).trans (by simp [Conn.flight, hto])
  | send =>
    simp only [hpc, Option.some.injEq] at hs
    exact hkeeps _ hs.symm (by simp [Conn.flight, hpc])
  | ended => simp [hpc] at hs

end Once

theorem step_once {s s' : State} {e : Event} (h : Once s) (hok : Unbroken s e) (hs : s.step e = some s') :
    Once s' := by
  cases e with
  | lenq line =>
    have hflow := step_flow h.flow hs
    simp only [State.step] at hs
    split_ifs at hs
    cases hs
    exact ⟨hflow, h.down, h.alone, h.pending, h.received⟩
  | handler ok => exact h.handlerStep hok hs
  | server c ok => exact h.serverStep hs

/-- The lines received are the first ones dequeued. -/
theorem Once.first {s : State} (h : Once s) : s.received.map Prod.snd <+: s.dequeued := by
  obtain ⟨n, hn⟩ : ∃ n, s.received.map Prod.fst = List.range n := by
    rcases h.received with ⟨hrec, -⟩ | ⟨-, hrec, -⟩
    · exact ⟨_, hrec⟩
    · exact ⟨_, hrec⟩
  have hlen : s.received.length = n := by
    have hmap := congrArg List.length hn
    rwa [List.length_map, List.length_range] at hmap
  refine List.prefix_iff_getElem?.mpr fun i hi => ?_
  rw [List.length_map] at hi
  have hfst : s.received[i].1 = i := by
    have hi' : i < (s.received.map Prod.fst).length := by rwa [List.length_map]
    have hget : (s.received.map Prod.fst)[i] = i := by
      simp only [hn, List.getElem_range]
    rwa [List.getElem_map] at hget
  have htext := h.flow.texts _ (List.getElem_mem hi)
  rw [hfst] at htext
  rw [htext, List.getElem_map]

/-- When the handler is back at an empty queue, all of them have been received. -/
theorem Once.all {s : State} (h : Once s) (hpc : s.pc = .ldeq) : s.received.map Prod.snd = s.dequeued := by
  refine h.first.eq_of_length ?_
  have hrec := (h.received.resolve_right fun h => by simp [hpc] at h).1
  have hlen := congrArg List.length hrec
  rwa [List.length_map, List.length_range, State.done, if_pos hpc, ← List.length_map Prod.snd] at hlen

theorem exec_once {es : List Event} {s : State} (hok : Along State.step Unbroken State.init es)
    (hrun : exec State.step State.init es = some s) : Once s :=
  exec_inv_along (fun _ _ _ => step_once) es State.init s once_init hok hrun

/-- Where a line that is not in the queue any more and has not been received is: with the handler, or on its way. -/
inductive Away (s : State) : List CStr → Prop where
  | none : Away s []
  | held : s.pc ≠ .ldeq → s.pc ≠ .recv → Away s [s.log]
  | sent : s.pc = .recv → (s.conn s.sock).flight = [(s.held, s.log)] → Away s [s.log]

theorem Once.away {s : State} (h : Once s) : ∃ rest, s.dequeued = s.received.map Prod.snd ++ rest ∧ Away s rest := by
  obtain ⟨rest, hrest⟩ := h.first
  refine ⟨rest, hrest.symm, ?_⟩
  have hlen := congrArg List.length hrest
  rw [List.length_append, List.length_map] at hlen
  by_cases hpc : s.pc = .ldeq
  · rw [← h.all hpc, List.append_right_eq_self] at hrest
    exact hrest ▸ .none
  obtain ⟨hlt, -⟩ := List.getElem?_eq_some_iff.mp (h.flow.log hpc)
  have hheld : s.held + 1 = s.dequeued.length := by
    unfold State.held at hlt ⊢
    omega
  have hdone : s.done = s.held := if_neg hpc
  rcases h.received with ⟨hrec, hfl⟩ | ⟨-, hrec, -⟩
  · have hrec' := congrArg List.length hrec
    rw [List.length_map, List.length_range] at hrec'
    -- the line that is held is the last one
    have hlast : rest = [s.log] := by
      obtain ⟨x, rfl⟩ := List.length_eq_one_iff.mp (show rest.length = 1 by omega)
      have hlog := h.flow.log hpc
      rw [← hrest, List.getElem?_append_right (by rw [List.length_map]; omega), List.length_map,
        show s.held - s.received.length = 0 by omega] at hlog
      exact congrArg (fun y => [y]) (Option.some.inj hlog)
    rw [hlast]
    by_cases hp : s.pc = .recv
    · exact .sent hp (hfl hp)
    · exact .held hpc hp
  · have hrec' := congrArg List.length hrec
    rw [List.length_map, List.length_range] at hrec'
    have hnil : rest = [] := List.eq_nil_of_length_eq_zero (by omega)
    exact hnil ▸ .none

/-- The lines of the queue, when it is empty again. -/
theorem Once.received_all {es : List Event} {s : State} (h : Once s)
    (hrun : exec State.step State.init es = some s) (hpc : s.pc = .ldeq) (hqueue : s.queue = []) :
    s.received.map Prod.snd = lines es := by
  have hlines : s.dequeued ++ s.queue = lines es := exec_lines hrun
  rw [h.all hpc, ← hlines, hqueue, List.append_nil]

/-- In every run in which no `send` and no `recv` of `log_handler` fails, the log server has received the first
    of the lines that were put into the queue, in order and each once; of the others at most one is with the handler or
    on its way, and the rest are in the queue. All have been received when the handler is back at an empty queue. -/
theorem delivered_once {es : List Event} {s : State} (hok : Along State.step Unbroken State.init es)
    (hrun : exec State.step State.init es = some s) :
    (∃ rest, lines es = s.received.map Prod.snd ++ rest ++ s.queue ∧ Away s rest) ∧
      (s.pc = .ldeq → s.queue = [] → s.received.map Prod.snd = lines es) := by
  have h := exec_once hok hrun
  have hlines : s.dequeued ++ s.queue = lines es := exec_lines hrun
  obtain ⟨rest, hrest, haway⟩ := h.away
  exact ⟨⟨rest, by rw [← hlines, hrest], haway⟩, h.received_all hrun⟩

/-- Two lines, over one connection that is made at the second attempt. -/
def sentOnce : List Event :=
  let ok := Event.handler true
  let line := [Event.server 0 true, .server 0 true, .server 0 true]
  [.lenq "one".toList, .lenq "two".toList, ok, ok, ok, .handler false, ok, ok, ok, ok] ++ line ++ [ok, ok, ok, ok] ++
    line ++ [ok]

theorem delivered_once_sentOnce : ∃ s, exec State.step State.init sentOnce = some s ∧
    s.received.map Prod.snd = ["one".toList, "two".toList] := by
  obtain ⟨s, hs, hpc, hqueue⟩ : ∃ s ∈ exec State.step State.init sentOnce, s.pc = .ldeq ∧ s.queue = [] := by decide
  exact ⟨s, hs, (delivered_once (by decide) hs).2 hpc hqueue⟩

end TradeC.Delivery
