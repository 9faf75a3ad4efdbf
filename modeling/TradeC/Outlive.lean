import TradeC.Answers
import Mathlib.Data.Fintype.Basic

/-! The steps of requesters and handlers keep the invariant of the hand-shakes, as long as
    `quote_handler` does not free a record that its requester has yet to read; a run in which it does,
    since it posts on `returned` and frees the record without waiting for the requester. -/

namespace TradeC.Handshake
open Run

section
set_option linter.unusedSectionVars false
variable {ι κ : Type*} [DecidableEq ι] [DecidableEq κ] {serves : κ → QueueId} {s : State ι κ}
  {i : ι} {k : κ}

/-! ### Steps -/

/-- The record of a requester that uses it or reads `srcReturned` is its handler's, which has put its
    semaphore there and waits. -/
theorem Inv.taken (hi : Inv serves s) {r : ℕ} (hmine : Mine s i r) (hkind : s.kind r ≠ .quote)
    (htaken : s.phase r = .taken) :
    ∃ k, s.server r = some k ∧ Signed s k r ∧ (s.record r).isSome := by
  obtain ⟨k, hserver, hawaits⟩ :=
    hi.awaits r hmine.old hkind (by simp [htaken]) (by simp [htaken])
  have hok := hi.srv k
  cases hp : s.srv k with
  | readSrc r' =>
    rw [hp] at hok hawaits
    cases hawaits
    exact ⟨k, hserver, hok.2.2.1, hok.1.alive⟩
  | wait r' m =>
    rw [hp] at hok hawaits
    cases hawaits
    exact ⟨k, hserver, hok.2.2.1, hok.1.alive⟩
  | _ =>
    rw [hp] at hawaits
    cases hawaits

theorem Inv.reqStep (hi : Inv serves s) {q : QueueId} {again : Bool} {s' : State ι κ}
    (hstep : reqStep s i q again = some s') : Inv serves s' := by
  have hok := hi.req i
  unfold Handshake.reqStep at hstep
  cases hp : s.req i with
  | idle =>
    simp only [hp, Option.some.injEq] at hstep
    subst hstep
    exact hi.enq hp q
  | readDest q' r =>
    rw [hp] at hok
    obtain ⟨hmine, hkind, hphase, halive⟩ := hok
    obtain ⟨c, hc⟩ := Option.isSome_iff_exists.mp halive
    obtain ⟨j, howner, hdest⟩ := hi.dest r c hc
    rw [hmine.owner] at howner
    cases howner
    simp only [hp, hc, Option.bind_some, hdest, Option.some.injEq] at hstep
    subst hstep
    exact hi.reqMove ⟨hmine, hkind, hphase, rfl⟩ (by rw [hp]; rfl)
  | wait q' r m =>
    simp only [hp, Option.map_eq_some_iff] at hstep
    obtain ⟨s₁, hw, rfl⟩ := hstep
    exact hi.reqWait hp hw
  | useResult r =>
    rw [hp] at hok
    obtain ⟨hmine, hkind, htaken⟩ := hok
    obtain ⟨k, -, -, halive⟩ := hi.taken hmine hkind htaken
    obtain ⟨c, hc⟩ := Option.isSome_iff_exists.mp halive
    simp only [hp, hc] at hstep
    split_ifs at hstep
    · cases hstep
      exact hi
    · cases hstep
      exact hi.reqMove ⟨hmine, hkind, htaken⟩ (by rw [hp]; rfl)
  | readSrc r =>
    rw [hp] at hok
    obtain ⟨hmine, hkind, htaken⟩ := hok
    obtain ⟨k, hserver, hsigned, -⟩ := hi.taken hmine hkind htaken
    have hsrc : (s.record r).bind Record.src = some (.srv k) := hsigned
    simp only [hp, hsrc, Option.some.injEq] at hstep
    subst hstep
    exact hi.reqMove ⟨hmine, hkind, htaken, k, hserver, rfl⟩ (by rw [hp]; rfl)
  | post r m =>
    simp only [hp, Option.some.injEq] at hstep
    subst hstep
    exact hi.reqPost hp
  | fault =>
    simp only [hp] at hstep
    cases hstep

/-- A handler does not free a record of a quote that a requester has yet to read. -/
def ReadFirst (serves : κ → QueueId) (s : State ι κ) : Event ι κ → Prop
  | .req .. => True
  | .srv k => serves k = .quote → ∀ r ∈ (s.srv k).frees, ∀ i, (s.req i).reads ≠ some r

theorem Inv.srvStep (hi : Inv serves s) {s' : State ι κ} (hread : ReadFirst serves s (.srv k))
    (hstep : srvStep serves s k = some s') : Inv serves s' := by
  have hok := hi.srv k
  unfold Handshake.srvStep at hstep
  cases hp : s.srv k with
  | deq =>
    simp only [hp] at hstep
    cases hq : s.queue (serves k) with
    | nil => simp [hq] at hstep
    | cons r rest =>
      simp only [hq, Option.some.injEq] at hstep
      subst hstep
      exact hi.deq hp hq
  | serve r =>
    rw [hp] at hok
    simp only [hp, Option.some.injEq] at hstep
    subst hstep
    refine hi.srvMove ?_ ?_
    · split_ifs with hq
      · exact ⟨hok.1, hok.2, fun h => absurd hq h⟩
      · exact hok
    · rw [hp]
      split_ifs <;> rfl
  | setResult r =>
    rw [hp] at hok
    obtain ⟨c, hc⟩ := Option.isSome_iff_exists.mp hok.1.alive
    simp only [hp, hc, Option.some.injEq] at hstep
    subst hstep
    have hi' := hi.setRecord { c with result := true } hc rfl fun j hj hs => by
      simpa [Signed, hc] using hs
    refine hi'.srvMove (k := k) ⟨⟨hok.1.old, hok.1.server, hok.1.kind, ?_⟩, hok.2⟩ ?_
    · simp [State.setRecord]
    · change _ = (s.srv k).awaits
      rw [hp]
      rfl
  | setSrc r =>
    rw [hp] at hok
    obtain ⟨c, hc⟩ := Option.isSome_iff_exists.mp hok.1.alive
    simp only [hp, hc, Option.some.injEq] at hstep
    subst hstep
    have hi' := hi.setRecord { c with src := some (.srv k) } hc rfl fun j hj _ => by
      rw [hok.1.server] at hj
      cases hj
      rfl
    refine hi'.srvMove (k := k)
      ⟨⟨hok.1.old, hok.1.server, hok.1.kind, ?_⟩, hok.2, fun _ => ?_⟩ ?_
    · simp [State.setRecord]
    · simp [Signed, State.setRecord]
    · change _ = (s.srv k).awaits
      rw [hp]
      rfl
  | readDest r =>
    rw [hp] at hok
    obtain ⟨hheld, hasked, hsigned⟩ := hok
    obtain ⟨c, hc⟩ := Option.isSome_iff_exists.mp hheld.alive
    obtain ⟨j, howner, hdest⟩ := hi.dest r c hc
    simp only [hp, hc, Option.bind_some, hdest, Option.some.injEq] at hstep
    subst hstep
    exact hi.srvMove ⟨hheld, hasked, hsigned, j, howner, rfl⟩ (by rw [hp]; rfl)
  | post r m =>
    simp only [hp, Option.some.injEq] at hstep
    subst hstep
    exact hi.srvPost hp
  | readSrc r =>
    rw [hp] at hok
    obtain ⟨hheld, hq, hsigned, hphase⟩ := hok
    have hsrc : (s.record r).bind Record.src = some (.srv k) := hsigned
    simp only [hp, hsrc, Option.some.injEq] at hstep
    subst hstep
    exact hi.srvMove ⟨hheld, hq, hsigned, rfl, hphase⟩ (by rw [hp]; rfl)
  | wait r m =>
    simp only [hp, Option.map_eq_some_iff] at hstep
    obtain ⟨s₁, hw, rfl⟩ := hstep
    exact hi.srvWait hp hw
  | free r =>
    rw [hp] at hok
    simp only [hp, Option.some.injEq] at hstep
    subst hstep
    refine hi.free hp fun i q hi' => ?_
    have hcur : (s.req i).cur = some r := by rw [hi']; rfl
    by_cases hq : serves k = .quote
    · exact hread hq r (by rw [hp]; rfl) i (by rw [hi']; rfl)
    -- of a database request, the requester has returned the record
    · exact ((hi.req i).phase hcur).2 (hok.2.2 hq)
  | fault =>
    simp only [hp] at hstep
    cases hstep

theorem Inv.step (hi : Inv serves s) {e : Event ι κ} {s' : State ι κ}
    (hread : ReadFirst serves s e) (hstep : step serves s e = some s') : Inv serves s' := by
  cases e with
  | req i q again => exact hi.reqStep hstep
  | srv k => exact hi.srvStep hread hstep

theorem inv_init : Inv serves (init : State ι κ) where
  queued q r hr := by cases hr
  nodup q := List.nodup_nil
  unserved r _ := rfl
  dest r c hc := by cases hc
  srv k := trivial
  req i := trivial
  asks i r hm := by cases hm.old
  awaits r hr := by cases hr
  reqSem i := rfl
  srvSem k := rfl

/-! ### Runs -/

/-- What is asked of the hand-shakes: a requester reads records that are not freed, and waits on its
    own semaphore, for the answer to its own record. -/
structure Sound (s : State ι κ) : Prop where
  reads : ∀ i r, (s.req i).reads = some r → (s.record r).isSome
  waits : ∀ i q r m, s.req i = .wait q r m →
    m = .req i ∧ s.owner r = some i ∧ (0 < s.reqSem i → s.phase r = .answered)
  fault : ∀ i, s.req i ≠ .fault

theorem Inv.sound (hi : Inv serves s) : Sound s where
  reads i r hr := by
    have hok := hi.req i
    cases hp : s.req i with
    | readDest q r' =>
      rw [hp] at hok hr
      cases hr
      exact hok.2.2.2
    | useResult r' =>
      rw [hp] at hok hr
      cases hr
      obtain ⟨k, -, -, halive⟩ := hi.taken hok.1 hok.2.1 hok.2.2
      exact halive
    | readSrc r' =>
      rw [hp] at hok hr
      cases hr
      obtain ⟨k, -, -, halive⟩ := hi.taken hok.1 hok.2.1 hok.2.2
      exact halive
    | _ =>
      rw [hp] at hr
      cases hr
  waits i q r m hp := by
    have hok := hi.req i
    have hsem := hi.reqSem i
    rw [hp] at hok hsem
    refine ⟨hok.2.2.2, hok.1.owner, fun hpos => ?_⟩
    by_contra hne
    rw [hsem] at hpos
    simp [ReqPc.tokens, ReqPc.asks, hne] at hpos
  fault i hp := by
    have hok := hi.req i
    rw [hp] at hok
    exact hok

/-- In every run in which no quote record is freed before its requester has read it: no requester
    reads a freed record, and each wait is ended by the answer to the requester's own record. -/
theorem records_outlive {es : List (Event ι κ)} {s : State ι κ}
    (hread : Along (Handshake.step serves) (ReadFirst serves) init es)
    (h : exec (Handshake.step serves) init es = some s) : Sound s :=
  (exec_inv_along (fun _ _ _ hi hok hs => Inv.step hi hok hs) es init s inv_init hread h).sound

end

/-! ### Two hand-shakes, and a record that is freed too early -/

instance (s : State Unit QueueId) : (e : Event Unit QueueId) → Decidable (ReadFirst id s e)
  | .req .. => .isTrue trivial
  | .srv k => inferInstanceAs (Decidable (k = .quote → ∀ r ∈ (s.srv k).frees, _))

/-- A requester writes to the database, uses the result, and then asks for a quote. -/
def writeThenQuote : List (Event Unit QueueId) :=
  [.req () .dbWrite false] ++ List.replicate 6 (.srv .dbWrite) ++
    [.req () .quote false, .req () .quote false, .req () .quote true, .req () .quote false] ++
    List.replicate 1 (.srv .dbWrite) ++ List.replicate 2 (.req () .quote false) ++
    List.replicate 2 (.srv .dbWrite) ++ List.replicate 2 (.req () .quote false) ++
    List.replicate 4 (.srv .quote) ++ [.req () .quote false, .srv .quote]

theorem records_outlive_writeThenQuote : ∃ s : State Unit QueueId,
    exec (step id) init writeThenQuote = some s ∧ s.phase 0 = .ended ∧ s.phase 1 = .taken ∧
      Sound s := by
  have hread : Along (step id) (ReadFirst id) (init : State Unit QueueId) writeThenQuote := by
    decide
  have hrun : ∃ s ∈ exec (step id) (init : State Unit QueueId) writeThenQuote,
      s.phase 0 = .ended ∧ s.phase 1 = .taken := by decide
  obtain ⟨s, hs, hended, htaken⟩ := hrun
  exact ⟨s, hs, hended, htaken, records_outlive hread hs⟩

/-- The quote is answered and its record freed before the requester comes to read `returned`. -/
def freedFirst : List (Event Unit QueueId) :=
  [.req () .quote false] ++ List.replicate 5 (.srv .quote)

theorem freedFirst_reads_freed : ∃ s : State Unit QueueId,
    exec (step id) init freedFirst = some s ∧ ¬ Sound s := by
  have hrun : ∃ s ∈ exec (step id) (init : State Unit QueueId) freedFirst,
      (s.req ()).reads = some 0 ∧ s.record 0 = none := by decide
  obtain ⟨s, hs, hreads, hfreed⟩ := hrun
  refine ⟨s, hs, fun hsound => ?_⟩
  have halive := hsound.reads () 0 hreads
  rw [hfreed] at halive
  cases halive

end TradeC.Handshake
