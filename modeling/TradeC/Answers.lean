import TradeC.Handshake
import Mathlib.Algebra.Order.Group.Nat
import Mathlib.Data.List.Nodup

/-! Requesters do not read freed records, as long as `quote_handler` does not free a record that its
    requester has yet to read.

    The phase of a record says who waits for whom: `asked` and `answered`, its requester waits for it;
    from `answered` to `returned`, the handler of a database request waits for the requester. -/

namespace TradeC.Handshake
open Run

/-! ### The places -/

section
variable {ι κ : Type*}

namespace ReqPc

/-- The record whose answer the thread waits for. -/
def asks : ReqPc ι κ → Option ℕ
  | .readDest _ r | .wait _ r _ => some r
  | _ => none

/-- The record that the thread deals with. -/
def cur : ReqPc ι κ → Option ℕ
  | .readDest _ r | .wait _ r _ | .useResult r | .readSrc r | .post r _ => some r
  | _ => none

/-- The record of which the thread reads a field next. -/
def reads : ReqPc ι κ → Option ℕ
  | .readDest _ r | .useResult r | .readSrc r => some r
  | _ => none

/-- The answer that is on its way to the thread. -/
def tokens (phase : ℕ → Phase) (p : ReqPc ι κ) : ℕ :=
  match p.asks with
  | some r => if phase r = .answered then 1 else 0
  | none => 0

end ReqPc

namespace SrvPc

/-- The record whose requester the handler waits for. -/
def awaits : SrvPc ι κ → Option ℕ
  | .readSrc r | .wait r _ => some r
  | _ => none

/-- The record that the handler deals with. -/
def cur : SrvPc ι κ → Option ℕ
  | .serve r | .setResult r | .setSrc r | .readDest r | .post r _ => some r
  | .readSrc r | .wait r _ | .free r => some r
  | _ => none

/-- The record that the handler frees next. -/
def frees : SrvPc ι κ → Option ℕ
  | .free r => some r
  | _ => none

/-- The post that is on its way to the handler. -/
def tokens (phase : ℕ → Phase) (p : SrvPc ι κ) : ℕ :=
  match p.awaits with
  | some r => if phase r = .returned then 1 else 0
  | none => 0

end SrvPc

/-! ### The invariant -/

section
variable (serves : κ → QueueId) (s : State ι κ)

/-- The handler has the record, and has not freed it. -/
structure Held (k : κ) (r : ℕ) : Prop where
  old : r < s.fresh
  server : s.server r = some k
  kind : s.kind r = serves k
  alive : (s.record r).isSome

/-- The handler's semaphore is in the record. -/
def Signed (k : κ) (r : ℕ) : Prop := (s.record r).bind Record.src = some (.srv k)

structure Mine (i : ι) (r : ℕ) : Prop where
  old : r < s.fresh
  owner : s.owner r = some i

/-- What a handler relies on at its place. -/
def SrvPc.Ok (k : κ) : SrvPc ι κ → Prop
  | .deq => True
  | .serve r | .setResult r | .setSrc r => Held serves s k r ∧ s.phase r = .asked
  | .readDest r => Held serves s k r ∧ s.phase r = .asked ∧ (serves k ≠ .quote → Signed s k r)
  | .post r m => Held serves s k r ∧ s.phase r = .asked ∧ (serves k ≠ .quote → Signed s k r) ∧
      ∃ i, s.owner r = some i ∧ m = .req i
  | .readSrc r => Held serves s k r ∧ serves k ≠ .quote ∧ Signed s k r ∧
      s.phase r ≠ .asked ∧ s.phase r ≠ .ended
  | .wait r m => Held serves s k r ∧ serves k ≠ .quote ∧ Signed s k r ∧ m = .srv k ∧
      s.phase r ≠ .asked ∧ s.phase r ≠ .ended
  | .free r => Held serves s k r ∧ s.phase r ≠ .asked ∧ (serves k ≠ .quote → s.phase r = .ended)
  | .fault => False

/-- What a requester relies on at its place. -/
def ReqPc.Ok (i : ι) : ReqPc ι κ → Prop
  | .idle => True
  | .readDest q r => Mine s i r ∧ s.kind r = q ∧ (s.phase r = .asked ∨ s.phase r = .answered) ∧
      (s.record r).isSome
  | .wait q r m => Mine s i r ∧ s.kind r = q ∧ (s.phase r = .asked ∨ s.phase r = .answered) ∧
      m = .req i
  | .useResult r | .readSrc r => Mine s i r ∧ s.kind r ≠ .quote ∧ s.phase r = .taken
  | .post r m => Mine s i r ∧ s.kind r ≠ .quote ∧ s.phase r = .taken ∧
      ∃ k, s.server r = some k ∧ m = .srv k
  | .fault => False

structure Inv : Prop where
  queued : ∀ q r, r ∈ s.queue q → r < s.fresh ∧ s.kind r = q ∧ s.server r = none ∧
    s.phase r = .asked ∧ (s.record r).isSome
  nodup : ∀ q, (s.queue q).Nodup
  unserved : ∀ r, s.fresh ≤ r → s.server r = none
  dest : ∀ r c, s.record r = some c → ∃ i, s.owner r = some i ∧ c.dest = some (.req i)
  srv : ∀ k, (s.srv k).Ok serves s k
  req : ∀ i, (s.req i).Ok s i
  asks : ∀ i r, Mine s i r → s.phase r = .asked ∨ s.phase r = .answered →
    (s.req i).asks = some r
  awaits : ∀ r, r < s.fresh → s.kind r ≠ .quote → s.phase r ≠ .asked → s.phase r ≠ .ended →
    ∃ k, s.server r = some k ∧ (s.srv k).awaits = some r
  reqSem : ∀ i, s.reqSem i = (s.req i).tokens s.phase
  srvSem : ∀ k, s.srvSem k = (s.srv k).tokens s.phase

end

/-- A record stays as its handler and its requester know it. -/
structure Same (s s' : State ι κ) (r : ℕ) : Prop where
  old : r < s.fresh → r < s'.fresh
  kind : s'.kind r = s.kind r
  owner : s'.owner r = s.owner r
  phase : s'.phase r = s.phase r
  server : ∀ k, s.server r = some k → s'.server r = some k
  alive : (s.record r).isSome → (s'.record r).isSome
  signed : ∀ k, s.server r = some k → Signed s k r → Signed s' k r

section Same
variable {serves : κ → QueueId} {s s' : State ι κ} {i : ι} {k : κ} {r : ℕ}

theorem Same.refl (s : State ι κ) (r : ℕ) : Same s s r :=
  ⟨id, rfl, rfl, rfl, fun _ h => h, id, fun _ _ h => h⟩

theorem Held.same (h : Held serves s k r) (hs : Same s s' r) : Held serves s' k r :=
  ⟨hs.old h.old, hs.server k h.server, hs.kind.trans h.kind, hs.alive h.alive⟩

theorem Mine.same (h : Mine s i r) (hs : Same s s' r) : Mine s' i r :=
  ⟨hs.old h.old, hs.owner.trans h.owner⟩

theorem SrvPc.Ok.same {p : SrvPc ι κ} (h : p.Ok serves s k) (hs : ∀ r ∈ p.cur, Same s s' r) :
    p.Ok serves s' k := by
  cases p with
  | deq => trivial
  | fault => exact h
  | serve r => exact ⟨h.1.same (hs r rfl), (hs r rfl).phase.trans h.2⟩
  | setResult r => exact ⟨h.1.same (hs r rfl), (hs r rfl).phase.trans h.2⟩
  | setSrc r => exact ⟨h.1.same (hs r rfl), (hs r rfl).phase.trans h.2⟩
  | readDest r =>
    obtain ⟨hheld, hphase, hsigned⟩ := h
    exact ⟨hheld.same (hs r rfl), (hs r rfl).phase.trans hphase,
      fun hq => (hs r rfl).signed k hheld.server (hsigned hq)⟩
  | post r m =>
    obtain ⟨hheld, hphase, hsigned, i, howner, hm⟩ := h
    exact ⟨hheld.same (hs r rfl), (hs r rfl).phase.trans hphase,
      fun hq => (hs r rfl).signed k hheld.server (hsigned hq), i,
      (hs r rfl).owner.trans howner, hm⟩
  | readSrc r =>
    obtain ⟨hheld, hq, hsigned, hphase⟩ := h
    exact ⟨hheld.same (hs r rfl), hq, (hs r rfl).signed k hheld.server hsigned,
      (hs r rfl).phase ▸ hphase⟩
  | wait r m =>
    obtain ⟨hheld, hq, hsigned, hm, hphase⟩ := h
    exact ⟨hheld.same (hs r rfl), hq, (hs r rfl).signed k hheld.server hsigned, hm,
      (hs r rfl).phase ▸ hphase⟩
  | free r =>
    obtain ⟨hheld, hphase⟩ := h
    exact ⟨hheld.same (hs r rfl), (hs r rfl).phase ▸ hphase⟩

theorem ReqPc.Ok.same {p : ReqPc ι κ} (h : p.Ok s i) (hs : ∀ r ∈ p.cur, Same s s' r) :
    p.Ok s' i := by
  cases p with
  | idle => trivial
  | fault => exact h
  | readDest q r =>
    obtain ⟨hmine, hq, hphase, halive⟩ := h
    exact ⟨hmine.same (hs r rfl), (hs r rfl).kind.trans hq, (hs r rfl).phase ▸ hphase,
      (hs r rfl).alive halive⟩
  | wait q r m =>
    obtain ⟨hmine, hq, hphase, hm⟩ := h
    exact ⟨hmine.same (hs r rfl), (hs r rfl).kind.trans hq, (hs r rfl).phase ▸ hphase, hm⟩
  | useResult r =>
    obtain ⟨hmine, hq, hphase⟩ := h
    exact ⟨hmine.same (hs r rfl), (hs r rfl).kind ▸ hq, (hs r rfl).phase.trans hphase⟩
  | readSrc r =>
    obtain ⟨hmine, hq, hphase⟩ := h
    exact ⟨hmine.same (hs r rfl), (hs r rfl).kind ▸ hq, (hs r rfl).phase.trans hphase⟩
  | post r m =>
    obtain ⟨hmine, hq, hphase, k, hserver, hm⟩ := h
    exact ⟨hmine.same (hs r rfl), (hs r rfl).kind ▸ hq, (hs r rfl).phase.trans hphase, k,
      (hs r rfl).server k hserver, hm⟩

/-- A handler's record is its own. -/
theorem SrvPc.Ok.server {p : SrvPc ι κ} (h : p.Ok serves s k) (hr : p.cur = some r) :
    Held serves s k r := by
  cases p <;> cases hr <;> exact h.1

/-- A requester's record is its own. -/
theorem ReqPc.Ok.owner {p : ReqPc ι κ} (h : p.Ok s i) (hr : p.cur = some r) : Mine s i r := by
  cases p <;> cases hr <;> exact h.1

theorem ReqPc.cur_of_asks {p : ReqPc ι κ} (h : p.asks = some r) : p.cur = some r := by
  cases p <;> simp_all [asks, cur]

theorem SrvPc.cur_of_awaits {p : SrvPc ι κ} (h : p.awaits = some r) : p.cur = some r := by
  cases p <;> simp_all [awaits, cur]

/-- What is on its way depends on the phase of the place's record only. -/
theorem ReqPc.tokens_congr {p : ReqPc ι κ} {phase phase' : ℕ → Phase}
    (h : ∀ r ∈ p.cur, phase' r = phase r) : p.tokens phase' = p.tokens phase := by
  unfold tokens
  cases hr : p.asks with
  | none => rfl
  | some r => simp only [h r (cur_of_asks hr)]

/-- To a handler all phases but `returned` are alike. -/
theorem SrvPc.tokens_of_iff {p : SrvPc ι κ} {phase phase' : ℕ → Phase}
    (h : ∀ r, phase' r = .returned ↔ phase r = .returned) : p.tokens phase' = p.tokens phase := by
  unfold tokens
  simp only [h]

theorem SrvPc.tokens_congr {p : SrvPc ι κ} {phase phase' : ℕ → Phase}
    (h : ∀ r ∈ p.cur, phase' r = phase r) : p.tokens phase' = p.tokens phase := by
  unfold tokens
  cases hr : p.awaits with
  | none => rfl
  | some r => simp only [h r (cur_of_awaits hr)]

end Same

/-! ### Moves that change nothing shared -/

set_option linter.unusedSectionVars false
variable [DecidableEq ι] [DecidableEq κ] {serves : κ → QueueId} {s : State ι κ} {i : ι} {k : κ}

/-- The place of a thread is no part of what is known of a record. -/
theorem Same.gotoReq {s' : State ι κ} {r : ℕ} (h : Same s s' r) (p : ReqPc ι κ) :
    Same s (s'.gotoReq i p) r :=
  ⟨h.old, h.kind, h.owner, h.phase, h.server, h.alive, h.signed⟩

theorem Same.gotoSrv {s' : State ι κ} {r : ℕ} (h : Same s s' r) (p : SrvPc ι κ) :
    Same s (s'.gotoSrv k p) r :=
  ⟨h.old, h.kind, h.owner, h.phase, h.server, h.alive, h.signed⟩

/-- A property of the requesters' places, after one of them has moved. -/
theorem forall_req {P : ι → ReqPc ι κ → Prop} {p : ReqPc ι κ} (hself : P i p)
    (hothers : ∀ j, j ≠ i → P j (s.req j)) (j : ι) : P j (Function.update s.req i p j) := by
  by_cases hj : j = i
  · rw [hj, Function.update_self]
    exact hself
  · rw [Function.update_of_ne hj]
    exact hothers j hj

theorem forall_srv {P : κ → SrvPc ι κ → Prop} {p : SrvPc ι κ} (hself : P k p)
    (hothers : ∀ j, j ≠ k → P j (s.srv j)) (j : κ) : P j (Function.update s.srv k p j) := by
  by_cases hj : j = k
  · rw [hj, Function.update_self]
    exact hself
  · rw [Function.update_of_ne hj]
    exact hothers j hj

theorem Inv.reqMove (hi : Inv serves s) {p : ReqPc ι κ} (hok : p.Ok s i)
    (hasks : p.asks = (s.req i).asks) : Inv serves (s.gotoReq i p) where
  queued := hi.queued
  nodup := hi.nodup
  unserved := hi.unserved
  dest := hi.dest
  srv k := (hi.srv k).same fun r _ => (Same.refl s r).gotoReq p
  req := forall_req (hok.same fun r _ => (Same.refl s r).gotoReq p)
    fun j _ => (hi.req j).same fun r _ => (Same.refl s r).gotoReq p
  asks := forall_req (P := fun j p => ∀ r, Mine (s.gotoReq i _) j r →
      s.phase r = .asked ∨ s.phase r = .answered → p.asks = some r)
    (fun r hm hph => hasks.trans (hi.asks i r ⟨hm.old, hm.owner⟩ hph))
    fun j _ r hm hph => hi.asks j r ⟨hm.old, hm.owner⟩ hph
  awaits := hi.awaits
  reqSem := forall_req (P := fun j p => s.reqSem j = p.tokens s.phase)
    (by simpa only [ReqPc.tokens, hasks] using hi.reqSem i) fun j _ => hi.reqSem j
  srvSem := hi.srvSem

theorem Inv.srvMove (hi : Inv serves s) {p : SrvPc ι κ} (hok : p.Ok serves s k)
    (hawaits : p.awaits = (s.srv k).awaits) : Inv serves (s.gotoSrv k p) where
  queued := hi.queued
  nodup := hi.nodup
  unserved := hi.unserved
  dest := hi.dest
  srv := forall_srv (hok.same fun r _ => (Same.refl s r).gotoSrv p)
    fun j _ => (hi.srv j).same fun r _ => (Same.refl s r).gotoSrv p
  req i := (hi.req i).same fun r _ => (Same.refl s r).gotoSrv p
  asks i r hm hph := hi.asks i r ⟨hm.old, hm.owner⟩ hph
  awaits r hlt hq hasked hended := by
    obtain ⟨j, hserver, hj⟩ := hi.awaits r hlt hq hasked hended
    refine ⟨j, hserver, ?_⟩
    change (Function.update s.srv k p j).awaits = some r
    by_cases hjk : j = k
    · rw [hjk, Function.update_self, hawaits, ← hjk, hj]
    · rw [Function.update_of_ne hjk, hj]
  reqSem := hi.reqSem
  srvSem := forall_srv (P := fun j p => s.srvSem j = p.tokens s.phase)
    (by simpa only [SrvPc.tokens, hawaits] using hi.srvSem k) fun j _ => hi.srvSem j

/-! ### Enqueue and dequeue -/

theorem mem_enq {q q' : QueueId} {r : ℕ} (hr : r ∈ (s.enq i q).queue q') :
    r ∈ s.queue q' ∨ (q' = q ∧ r = s.fresh) := by
  simp only [State.enq, Function.update_apply] at hr
  split_ifs at hr with hq
  · subst hq
    simpa using hr
  · exact .inl hr

theorem same_enq {q : QueueId} {r : ℕ} (hr : r < s.fresh) : Same s (s.enq i q) r where
  old _ := Nat.lt_succ_of_lt hr
  kind := Function.update_of_ne hr.ne _ _
  owner := Function.update_of_ne hr.ne _ _
  phase := Function.update_of_ne hr.ne _ _
  server _ h := h
  alive h := by
    simp only [State.enq, Function.update_of_ne hr.ne]
    exact h
  signed _ _ h := by
    simp only [Signed, State.enq, Function.update_of_ne hr.ne]
    exact h

theorem Inv.enq (hi : Inv serves s) (hp : s.req i = .idle) (q : QueueId) :
    Inv serves ((s.enq i q).gotoReq i (.readDest q s.fresh)) where
  queued q' r hr := by
    rcases mem_enq (i := i) hr with hold | ⟨rfl, rfl⟩
    · obtain ⟨hlt, hkind, hserver, hphase, halive⟩ := hi.queued q' r hold
      have hsame := same_enq (i := i) (q := q) hlt
      exact ⟨hsame.old hlt, hsame.kind.trans hkind, hserver, hsame.phase.trans hphase,
        hsame.alive halive⟩
    · exact ⟨Nat.lt_succ_self _, Function.update_self .., hi.unserved _ le_rfl,
        Function.update_self .., by simp [State.enq, State.gotoReq]⟩
  nodup q' := by
    simp only [State.enq, State.gotoReq, Function.update_apply]
    split_ifs with hq
    · refine (hi.nodup q).append (List.nodup_singleton _) fun r hr hr' => ?_
      rw [List.mem_singleton.mp hr'] at hr
      exact lt_irrefl _ (hi.queued q _ hr).1
    · exact hi.nodup q'
  unserved r hr := hi.unserved r (Nat.le_of_succ_le hr)
  dest r c hc := by
    simp only [State.enq, State.gotoReq, Function.update_apply] at hc ⊢
    split_ifs at hc ⊢ with hr
    · cases hc
      exact ⟨i, rfl, rfl⟩
    · exact hi.dest r c hc
  srv k := (hi.srv k).same fun r hr => (same_enq ((hi.srv k).server hr).old).gotoReq _
  req := forall_req
    ⟨⟨Nat.lt_succ_self _, Function.update_self ..⟩, Function.update_self ..,
      .inl (Function.update_self ..), by simp [State.enq, State.gotoReq]⟩
    fun j _ => (hi.req j).same fun r hr => (same_enq ((hi.req j).owner hr).old).gotoReq _
  asks j r hm hph := by
    have howner := hm.owner
    simp only [State.enq, State.gotoReq, Function.update_apply] at howner hph ⊢
    by_cases hr : r = s.fresh
    · simp only [hr, if_true, Option.some.injEq] at howner ⊢
      rw [if_pos howner.symm]
      rfl
    · rw [if_neg hr] at howner hph
      have hlt : r < s.fresh := lt_of_le_of_ne (Nat.lt_succ_iff.mp hm.old) hr
      have hasks := hi.asks j r ⟨hlt, howner⟩ hph
      split_ifs with hj
      · rw [hj, hp] at hasks
        cases hasks
      · exact hasks
  awaits r hlt hq hasked hended := by
    simp only [State.enq, State.gotoReq, Function.update_apply] at hlt hq hasked hended ⊢
    by_cases hr : r = s.fresh
    · simp [hr] at hasked
    · rw [if_neg hr] at hq hasked hended
      exact hi.awaits r (lt_of_le_of_ne (Nat.lt_succ_iff.mp hlt) hr) hq hasked hended
  reqSem := by
    refine forall_req (P := fun j p => s.reqSem j = p.tokens (s.enq i q).phase) ?_ fun j _ => ?_
    · rw [hi.reqSem i, hp]
      simp [ReqPc.tokens, ReqPc.asks, State.enq]
    · rw [hi.reqSem j]
      exact (ReqPc.tokens_congr fun r hr => (same_enq ((hi.req j).owner hr).old).phase).symm
  srvSem k := by
    change s.srvSem k = (s.srv k).tokens (s.enq i q).phase
    rw [hi.srvSem k]
    exact (SrvPc.tokens_congr fun r hr => (same_enq ((hi.srv k).server hr).old).phase).symm

theorem Inv.deq (hi : Inv serves s) {r : ℕ} {rest : List ℕ} (hp : s.srv k = .deq)
    (hq : s.queue (serves k) = r :: rest) : Inv serves (({ s with
      queue := Function.update s.queue (serves k) rest
      server := Function.update s.server r (some k) }).gotoSrv k (.serve r)) := by
  obtain ⟨hlt, hkind, hserver, hphase, halive⟩ := hi.queued (serves k) r (by simp [hq])
  have hnodup := hi.nodup (serves k)
  rw [hq] at hnodup
  -- the record that is taken has had no handler
  have hsame : ∀ r', Same s (({ s with
      queue := Function.update s.queue (serves k) rest
      server := Function.update s.server r (some k) }).gotoSrv k (.serve r)) r' := fun r' =>
    ⟨id, rfl, rfl, rfl, fun k' hk' => by
      change Function.update s.server r (some k) r' = some k'
      rw [Function.update_of_ne (fun h => by simp [h, hserver] at hk'), hk'], id, fun _ _ h => h⟩
  constructor
  case queued =>
    intro q' r' hr'
    have hmem : r' ∈ s.queue q' ∧ r' ≠ r := by
      simp only [State.gotoSrv, Function.update_apply] at hr'
      split_ifs at hr' with hq'
      · subst hq'
        refine ⟨by simp [hq, hr'], ?_⟩
        rintro rfl
        exact (List.nodup_cons.mp hnodup).1 hr'
      · refine ⟨hr', ?_⟩
        rintro rfl
        exact hq' ((hi.queued q' r' hr').2.1.symm.trans hkind)
    obtain ⟨hlt', hkind', hserver', hphase', halive'⟩ := hi.queued q' r' hmem.1
    refine ⟨hlt', hkind', ?_, hphase', halive'⟩
    change Function.update s.server r (some k) r' = none
    rw [Function.update_of_ne hmem.2, hserver']
  case nodup =>
    intro q'
    simp only [State.gotoSrv, Function.update_apply]
    split_ifs
    · exact (List.nodup_cons.mp hnodup).2
    · exact hi.nodup q'
  case unserved =>
    intro r' hr'
    change Function.update s.server r (some k) r' = none
    rw [Function.update_of_ne (hlt.trans_le hr').ne']
    exact hi.unserved r' hr'
  case dest => exact hi.dest
  case srv =>
    exact forall_srv ⟨⟨hlt, Function.update_self .., hkind, halive⟩, hphase⟩
      fun j _ => (hi.srv j).same fun r' _ => hsame r'
  case req => exact fun i => (hi.req i).same fun r' _ => hsame r'
  case asks => exact fun i r' hm hph => hi.asks i r' ⟨hm.old, hm.owner⟩ hph
  case awaits =>
    intro r' hlt' hq' hasked hended
    obtain ⟨j, hj, hawaits⟩ := hi.awaits r' hlt' hq' hasked hended
    refine ⟨j, (hsame r').server j hj, ?_⟩
    change (Function.update s.srv k (.serve r) j).awaits = some r'
    rw [Function.update_of_ne, hawaits]
    rintro rfl
    rw [hp] at hawaits
    cases hawaits
  case reqSem => exact hi.reqSem
  case srvSem =>
    refine forall_srv (P := fun j p => s.srvSem j = p.tokens s.phase) ?_ fun j _ => hi.srvSem j
    rw [hi.srvSem k, hp]
    rfl

/-! ### Writing a field -/

/-- A handler writes a field of its record; the requester's semaphore stays. -/
theorem Inv.setRecord (hi : Inv serves s) {r : ℕ} {c : Record ι κ} (c' : Record ι κ) (hc : s.record r = some c)
    (hdest : c'.dest = c.dest) (hsrc : ∀ j, s.server r = some j → Signed s j r →
      c'.src = some (.srv j)) : Inv serves (s.setRecord r (some c')) := by
  have hsame : ∀ r', Same s (s.setRecord r (some c')) r' := fun r' =>
    ⟨id, rfl, rfl, rfl, fun _ h => h, fun h => by
      simp only [State.setRecord, Function.update_apply]
      split_ifs
      · rfl
      · exact h, fun j hj h => by
      simp only [Signed, State.setRecord, Function.update_apply]
      split_ifs with hr
      · subst hr
        exact hsrc j hj h
      · exact h⟩
  constructor
  case queued =>
    intro q r' hr'
    obtain ⟨hlt, hkind, hserver, hphase, halive⟩ := hi.queued q r' hr'
    exact ⟨hlt, hkind, hserver, hphase, (hsame r').alive halive⟩
  case nodup => exact hi.nodup
  case unserved => exact hi.unserved
  case dest =>
    intro r' c'' hc''
    simp only [State.setRecord, Function.update_apply] at hc''
    split_ifs at hc'' with hr
    · cases hc''
      obtain ⟨i, howner, hd⟩ := hi.dest r c hc
      exact ⟨i, hr ▸ howner, hdest.trans hd⟩
    · exact hi.dest r' c'' hc''
  case srv => exact fun j => (hi.srv j).same fun r' _ => hsame r'
  case req => exact fun i => (hi.req i).same fun r' _ => hsame r'
  case asks => exact fun i r' hm hph => hi.asks i r' ⟨hm.old, hm.owner⟩ hph
  case awaits => exact hi.awaits
  case reqSem => exact hi.reqSem
  case srvSem => exact hi.srvSem

/-! ### Semaphores -/

theorem same_setPhase {s' : State ι κ} {r r' : ℕ} {ph : Phase} (h : Same s s' r') (hr : r' ≠ r) :
    Same s (s'.setPhase r ph) r' :=
  ⟨h.old, h.kind, h.owner, (Function.update_of_ne hr ..).trans h.phase, h.server, h.alive,
    h.signed⟩

theorem same_semPost (m : Sem ι κ) (r : ℕ) : Same s (s.semPost m) r := by
  cases m <;> exact ⟨id, rfl, rfl, rfl, fun _ h => h, id, fun _ _ h => h⟩

/-- Another requester has another record. -/
theorem Inv.ne_of_owner (hi : Inv serves s) {j : ι} {r r' : ℕ} (hr : s.owner r = some i)
    (hj : j ≠ i) (hcur : (s.req j).cur = some r') : r' ≠ r := by
  rintro rfl
  have howner := ((hi.req j).owner hcur).owner
  rw [hr] at howner
  exact hj (Option.some.inj howner).symm

/-- Another handler has another record. -/
theorem Inv.ne_of_server (hi : Inv serves s) {j : κ} {r r' : ℕ} (hr : s.server r = some k)
    (hj : j ≠ k) (hcur : (s.srv j).cur = some r') : r' ≠ r := by
  rintro rfl
  have hserver := ((hi.srv j).server hcur).server
  rw [hr] at hserver
  exact hj (Option.some.inj hserver).symm

/-- Past the post, a handler does not notice that its requester takes the answer, or returns it. -/
theorem SrvPc.Ok.passed {p : SrvPc ι κ} {s' : State ι κ} {r : ℕ} (h : p.Ok serves s k)
    (hsame : ∀ r', r' ≠ r → Same s s' r') (hheld : Held serves s k r → Held serves s' k r)
    (hsigned : Signed s k r → Signed s' k r) (hold : s.phase r ≠ .asked ∧ s.phase r ≠ .ended)
    (hnew : s'.phase r ≠ .asked ∧ s'.phase r ≠ .ended) : p.Ok serves s' k := by
  by_cases hr : p.cur = some r
  · cases p with
    | readSrc r' =>
      cases hr
      exact ⟨hheld h.1, h.2.1, hsigned h.2.2.1, hnew⟩
    | wait r' m =>
      cases hr
      exact ⟨hheld h.1, h.2.1, hsigned h.2.2.1, h.2.2.2.1, hnew⟩
    | free r' =>
      cases hr
      exact ⟨hheld h.1, hnew.1, fun hq => absurd (h.2.2 hq) hold.2⟩
    | serve r' =>
      cases hr
      exact absurd h.2 hold.1
    | setResult r' =>
      cases hr
      exact absurd h.2 hold.1
    | setSrc r' =>
      cases hr
      exact absurd h.2 hold.1
    | readDest r' =>
      cases hr
      exact absurd h.2.1 hold.1
    | post r' m =>
      cases hr
      exact absurd h.2.1 hold.1
    | deq => cases hr
    | fault => cases hr
  · refine h.same fun r' hr' => hsame r' ?_
    rintro rfl
    exact hr hr'

/-- The requester stays at its place when the answer comes. -/
theorem ReqPc.Ok.answered {p : ReqPc ι κ} {s' : State ι κ} {r : ℕ} (h : p.Ok s i)
    (hasks : p.asks = some r) (hm : Mine s' i r) (hkind : s'.kind r = s.kind r)
    (halive : (s.record r).isSome → (s'.record r).isSome) (hphase : s'.phase r = .answered) :
    p.Ok s' i := by
  cases p with
  | readDest q r' =>
    cases hasks
    exact ⟨hm, hkind.trans h.2.1, .inr hphase, halive h.2.2.2⟩
  | wait q r' m =>
    cases hasks
    exact ⟨hm, hkind.trans h.2.1, .inr hphase, h.2.2.2⟩
  | _ => cases hasks

/-- `sem_post(dbWrite->destReturned)`, `sem_post(quoteReq->returned)`. -/
theorem Inv.srvPost (hi : Inv serves s) {r : ℕ} {m : Sem ι κ} (hp : s.srv k = .post r m) :
    Inv serves (((s.semPost m).setPhase r .answered).gotoSrv k
      (if serves k = .quote then .free r else .readSrc r)) := by
  obtain ⟨hheld, hasked, hsigned, i, howner, rfl⟩ : (SrvPc.post r m).Ok serves s k := hp ▸ hi.srv k
  have hasks : (s.req i).asks = some r := hi.asks i r ⟨hheld.old, howner⟩ (.inl hasked)
  set p' : SrvPc ι κ := if serves k = .quote then .free r else .readSrc r with hp'
  set s' := ((s.semPost (.req i)).setPhase r .answered).gotoSrv k p' with hs'
  have hsame : ∀ r', r' ≠ r → Same s s' r' := fun r' hr' =>
    (same_setPhase (same_semPost (.req i) r') hr').gotoSrv _
  have hphase : s'.phase r = .answered := Function.update_self ..
  have hphase' : ∀ r', r' ≠ r → s'.phase r' = s.phase r' := fun r' hr' => (hsame r' hr').phase
  constructor
  case queued =>
    intro q r' hr'
    obtain ⟨hlt, hkind, hserver, hph, halive⟩ := hi.queued q r' hr'
    refine ⟨hlt, hkind, hserver, (hphase' r' ?_).trans hph, halive⟩
    rintro rfl
    rw [hheld.server] at hserver
    cases hserver
  case nodup => exact hi.nodup
  case unserved => exact hi.unserved
  case dest => exact hi.dest
  case srv =>
    refine forall_srv ?_ fun j hj => (hi.srv j).same fun r' hr' =>
      hsame r' (hi.ne_of_server hheld.server hj hr')
    have hheld' : Held serves s' k r := ⟨hheld.old, hheld.server, hheld.kind, hheld.alive⟩
    rw [hp']
    split_ifs with hq
    · exact ⟨hheld', by simp [hphase], fun h => absurd hq h⟩
    · exact ⟨hheld', hq, hsigned hq, by simp [hphase], by simp [hphase]⟩
  case req =>
    intro j
    by_cases hj : j = i
    · subst hj
      exact (hi.req j).answered hasks ⟨hheld.old, howner⟩ rfl id hphase
    · exact (hi.req j).same fun r' hr' => hsame r' (hi.ne_of_owner howner hj hr')
  case asks =>
    intro j r' hm hph
    by_cases hr : r' = r
    · subst hr
      exact hi.asks j r' ⟨hm.old, hm.owner⟩ (.inl hasked)
    · rw [hphase' r' hr] at hph
      exact hi.asks j r' ⟨hm.old, hm.owner⟩ hph
  case awaits =>
    intro r' hlt hq hne hended
    by_cases hr : r' = r
    · subst hr
      have hquote : serves k ≠ .quote := hheld.kind ▸ hq
      refine ⟨k, hheld.server, ?_⟩
      change (Function.update s.srv k p' k).awaits = some r'
      rw [Function.update_self, hp', if_neg hquote]
      rfl
    · rw [hphase' r' hr] at hne hended
      obtain ⟨j, hj, hawaits⟩ := hi.awaits r' hlt hq hne hended
      refine ⟨j, hj, ?_⟩
      change (Function.update s.srv k p' j).awaits = some r'
      rw [Function.update_of_ne, hawaits]
      rintro rfl
      rw [hp] at hawaits
      cases hawaits
  case reqSem =>
    intro j
    change Function.update s.reqSem i (s.reqSem i + 1) j = (s.req j).tokens s'.phase
    by_cases hj : j = i
    · subst hj
      rw [Function.update_self, hi.reqSem j]
      simp [ReqPc.tokens, hasks, hasked, hphase]
    · rw [Function.update_of_ne hj, hi.reqSem j]
      exact (ReqPc.tokens_congr fun r' hr' => hphase' r' (hi.ne_of_owner howner hj hr')).symm
  case srvSem =>
    refine forall_srv (P := fun j p => s.srvSem j = p.tokens s'.phase) ?_ fun j hj => ?_
    · rw [hi.srvSem k, hp, hp']
      split_ifs <;> simp [SrvPc.tokens, SrvPc.awaits, hphase]
    · rw [hi.srvSem j]
      exact (SrvPc.tokens_congr fun r' hr' =>
        hphase' r' (hi.ne_of_server hheld.server hj hr')).symm

/-- `sem_wait` of a requester, which the answer to its own record ends. -/
theorem Inv.reqWait (hi : Inv serves s) {q : QueueId} {r : ℕ} {m : Sem ι κ} {s₁ : State ι κ}
    (hp : s.req i = .wait q r m) (hw : s.semWait m = some s₁) :
    Inv serves ((s₁.setPhase r .taken).gotoReq i (if q = .quote then .idle else .useResult r)) := by
  obtain ⟨hmine, hkind, hopen, rfl⟩ : (ReqPc.wait q r m).Ok s i := hp ▸ hi.req i
  have hasks : (s.req i).asks = some r := by rw [hp]; rfl
  have hsem := hi.reqSem i
  simp only [State.semWait, Option.ite_none_left_eq_some, Option.some.injEq] at hw
  obtain ⟨hpos, rfl⟩ := hw
  have hanswered : s.phase r = .answered := by
    by_contra hne
    simp [ReqPc.tokens, hasks, hne] at hsem
    exact hpos hsem
  simp only [ReqPc.tokens, hasks, hanswered, if_true] at hsem
  set p' : ReqPc ι κ := if q = .quote then .idle else .useResult r with hp'
  set s' := (({ s with reqSem := Function.update s.reqSem i (s.reqSem i - 1) }).setPhase r
    .taken).gotoReq i p' with hs'
  have hbase : ∀ r', Same s { s with reqSem := Function.update s.reqSem i (s.reqSem i - 1) } r' :=
    fun r' => ⟨id, rfl, rfl, rfl, fun _ h => h, id, fun _ _ h => h⟩
  have hsame : ∀ r', r' ≠ r → Same s s' r' := fun r' hr' =>
    (same_setPhase (hbase r') hr').gotoReq _
  have hphase : s'.phase r = .taken := Function.update_self ..
  have hphase' : ∀ r', r' ≠ r → s'.phase r' = s.phase r' := fun r' hr' => (hsame r' hr').phase
  have hidle : p'.asks = none := by
    rw [hp']
    split_ifs <;> rfl
  constructor
  case queued =>
    intro q' r' hr'
    obtain ⟨hlt, hk, hserver, hph, halive⟩ := hi.queued q' r' hr'
    refine ⟨hlt, hk, hserver, (hphase' r' ?_).trans hph, halive⟩
    rintro rfl
    rw [hanswered] at hph
    cases hph
  case nodup => exact hi.nodup
  case unserved => exact hi.unserved
  case dest => exact hi.dest
  case srv =>
    exact fun j => (hi.srv j).passed hsame (fun h => ⟨h.old, h.server, h.kind, h.alive⟩) id
      (by simp [hanswered]) (by simp [hphase])
  case req =>
    refine forall_req ?_ fun j hj => (hi.req j).same fun r' hr' =>
      hsame r' (hi.ne_of_owner hmine.owner hj hr')
    rw [hp']
    split_ifs with hq
    · trivial
    · exact ⟨⟨hmine.old, hmine.owner⟩, fun h => hq (hkind.symm.trans h), hphase⟩
  case asks =>
    refine forall_req (P := fun j p => ∀ r', Mine s' j r' →
      s'.phase r' = .asked ∨ s'.phase r' = .answered → p.asks = some r') ?_ fun j hj => ?_
    · intro r' hm hph
      by_cases hr : r' = r
      · subst hr
        simp [hphase] at hph
      · rw [hphase' r' hr] at hph
        have h := hi.asks i r' ⟨hm.old, hm.owner⟩ hph
        rw [hasks] at h
        exact absurd (Option.some.inj h).symm hr
    · intro r' hm hph
      have hr : r' ≠ r := by
        rintro rfl
        exact hj (Option.some.inj (hm.owner.symm.trans hmine.owner))
      rw [hphase' r' hr] at hph
      exact hi.asks j r' ⟨hm.old, hm.owner⟩ hph
  case awaits =>
    intro r' hlt hq hne hended
    by_cases hr : r' = r
    · subst hr
      exact hi.awaits r' hlt hq (by simp [hanswered]) (by simp [hanswered])
    · rw [hphase' r' hr] at hne hended
      exact hi.awaits r' hlt hq hne hended
  case reqSem =>
    intro j
    change Function.update s.reqSem i (s.reqSem i - 1) j =
      (Function.update s.req i p' j).tokens s'.phase
    by_cases hj : j = i
    · subst hj
      rw [Function.update_self, Function.update_self, hsem]
      simp [ReqPc.tokens, hidle]
    · rw [Function.update_of_ne hj, Function.update_of_ne hj, hi.reqSem j]
      exact (ReqPc.tokens_congr fun r' hr' =>
        hphase' r' (hi.ne_of_owner hmine.owner hj hr')).symm
  case srvSem =>
    intro j
    change s.srvSem j = (s.srv j).tokens s'.phase
    rw [hi.srvSem j]
    refine (SrvPc.tokens_of_iff fun r' => ?_).symm
    by_cases hr : r' = r
    · simp [hr, hphase, hanswered]
    · rw [hphase' r' hr]

/-- `sem_post(dbResp->srcReturned)`. -/
theorem Inv.reqPost (hi : Inv serves s) {r : ℕ} {m : Sem ι κ} (hp : s.req i = .post r m) :
    Inv serves (((s.semPost m).setPhase r .returned).gotoReq i .idle) := by
  obtain ⟨hmine, hkind, htaken, k, hserver, rfl⟩ : (ReqPc.post r m).Ok s i := hp ▸ hi.req i
  have hawaits : (s.srv k).awaits = some r := by
    obtain ⟨j, hj, h⟩ := hi.awaits r hmine.old hkind (by simp [htaken]) (by simp [htaken])
    rw [hserver] at hj
    cases hj
    exact h
  set s' := ((s.semPost (.srv k)).setPhase r .returned).gotoReq i .idle with hs'
  have hsame : ∀ r', r' ≠ r → Same s s' r' := fun r' hr' =>
    (same_setPhase (same_semPost (.srv k) r') hr').gotoReq _
  have hphase : s'.phase r = .returned := Function.update_self ..
  have hphase' : ∀ r', r' ≠ r → s'.phase r' = s.phase r' := fun r' hr' => (hsame r' hr').phase
  constructor
  case queued =>
    intro q' r' hr'
    obtain ⟨hlt, hk, hsrv, hph, halive⟩ := hi.queued q' r' hr'
    refine ⟨hlt, hk, hsrv, (hphase' r' ?_).trans hph, halive⟩
    rintro rfl
    rw [htaken] at hph
    cases hph
  case nodup => exact hi.nodup
  case unserved => exact hi.unserved
  case dest => exact hi.dest
  case srv =>
    exact fun j => (hi.srv j).passed hsame (fun h => ⟨h.old, h.server, h.kind, h.alive⟩) id
      (by simp [htaken]) (by simp [hphase])
  case req =>
    exact forall_req trivial fun j hj => (hi.req j).same fun r' hr' =>
      hsame r' (hi.ne_of_owner hmine.owner hj hr')
  case asks =>
    refine forall_req (P := fun j p => ∀ r', Mine s' j r' →
      s'.phase r' = .asked ∨ s'.phase r' = .answered → p.asks = some r') ?_ fun j hj => ?_
    · intro r' hm hph
      by_cases hr : r' = r
      · subst hr
        simp [hphase] at hph
      · rw [hphase' r' hr] at hph
        have h := hi.asks i r' ⟨hm.old, hm.owner⟩ hph
        rw [hp] at h
        cases h
    · intro r' hm hph
      have hr : r' ≠ r := by
        rintro rfl
        exact hj (Option.some.inj (hm.owner.symm.trans hmine.owner))
      rw [hphase' r' hr] at hph
      exact hi.asks j r' ⟨hm.old, hm.owner⟩ hph
  case awaits =>
    intro r' hlt hq hne hended
    by_cases hr : r' = r
    · subst hr
      exact ⟨k, hserver, hawaits⟩
    · rw [hphase' r' hr] at hne hended
      exact hi.awaits r' hlt hq hne hended
  case reqSem =>
    refine forall_req (P := fun j p => s.reqSem j = p.tokens s'.phase) ?_ fun j hj => ?_
    · rw [hi.reqSem i, hp]
      rfl
    · rw [hi.reqSem j]
      exact (ReqPc.tokens_congr fun r' hr' =>
        hphase' r' (hi.ne_of_owner hmine.owner hj hr')).symm
  case srvSem =>
    intro j
    change Function.update s.srvSem k (s.srvSem k + 1) j = (s.srv j).tokens s'.phase
    by_cases hj : j = k
    · subst hj
      rw [Function.update_self, hi.srvSem j]
      simp [SrvPc.tokens, hawaits, htaken, hphase]
    · rw [Function.update_of_ne hj, hi.srvSem j]
      exact (SrvPc.tokens_congr fun r' hr' => hphase' r' (hi.ne_of_server hserver hj hr')).symm

theorem ReqPc.Ok.phase {p : ReqPc ι κ} {r : ℕ} (h : p.Ok s i) (hr : p.cur = some r) :
    s.phase r ≠ .returned ∧ s.phase r ≠ .ended := by
  cases p with
  | readDest q r' =>
    cases hr
    rcases h.2.2.1 with h | h <;> simp [h]
  | wait q r' m =>
    cases hr
    rcases h.2.2.1 with h | h <;> simp [h]
  | useResult r' =>
    cases hr
    simp [h.2.2]
  | readSrc r' =>
    cases hr
    simp [h.2.2]
  | post r' m =>
    cases hr
    simp [h.2.2.1]
  | idle => cases hr
  | fault => cases hr

/-- `sem_wait(dbWrite->srcReturned)`. -/
theorem Inv.srvWait (hi : Inv serves s) {r : ℕ} {m : Sem ι κ} {s₁ : State ι κ}
    (hp : s.srv k = .wait r m) (hw : s.semWait m = some s₁) :
    Inv serves ((s₁.setPhase r .ended).gotoSrv k (.free r)) := by
  obtain ⟨hheld, hq, _, rfl, _⟩ : (SrvPc.wait r m).Ok serves s k := hp ▸ hi.srv k
  have hawaits : (s.srv k).awaits = some r := by rw [hp]; rfl
  have hsem := hi.srvSem k
  simp only [State.semWait, Option.ite_none_left_eq_some, Option.some.injEq] at hw
  obtain ⟨hpos, rfl⟩ := hw
  have hreturned : s.phase r = .returned := by
    by_contra hne
    simp [SrvPc.tokens, hawaits, hne] at hsem
    exact hpos hsem
  simp only [SrvPc.tokens, hawaits, hreturned, if_true] at hsem
  set s' := (({ s with srvSem := Function.update s.srvSem k (s.srvSem k - 1) }).setPhase r
    .ended).gotoSrv k (.free r) with hs'
  have hbase : ∀ r', Same s { s with srvSem := Function.update s.srvSem k (s.srvSem k - 1) } r' :=
    fun r' => ⟨id, rfl, rfl, rfl, fun _ h => h, id, fun _ _ h => h⟩
  have hsame : ∀ r', r' ≠ r → Same s s' r' := fun r' hr' =>
    (same_setPhase (hbase r') hr').gotoSrv _
  have hphase : s'.phase r = .ended := Function.update_self ..
  have hphase' : ∀ r', r' ≠ r → s'.phase r' = s.phase r' := fun r' hr' => (hsame r' hr').phase
  have hreq : ∀ j r', (s.req j).cur = some r' → r' ≠ r := by
    rintro j r' hr' rfl
    exact ((hi.req j).phase hr').1 hreturned
  constructor
  case queued =>
    intro q' r' hr'
    obtain ⟨hlt, hk, hserver, hph, halive⟩ := hi.queued q' r' hr'
    refine ⟨hlt, hk, hserver, (hphase' r' ?_).trans hph, halive⟩
    rintro rfl
    rw [hreturned] at hph
    cases hph
  case nodup => exact hi.nodup
  case unserved => exact hi.unserved
  case dest => exact hi.dest
  case srv =>
    exact forall_srv ⟨⟨hheld.old, hheld.server, hheld.kind, hheld.alive⟩, by simp [hphase],
      fun _ => hphase⟩
      fun j hj => (hi.srv j).same fun r' hr' => hsame r' (hi.ne_of_server hheld.server hj hr')
  case req => exact fun j => (hi.req j).same fun r' hr' => hsame r' (hreq j r' hr')
  case asks =>
    intro j r' hm hph
    have hr : r' ≠ r := by
      rintro rfl
      simp [hphase] at hph
    rw [hphase' r' hr] at hph
    exact hi.asks j r' ⟨hm.old, hm.owner⟩ hph
  case awaits =>
    intro r' hlt hq' hne hended
    have hr : r' ≠ r := by
      rintro rfl
      exact hended hphase
    rw [hphase' r' hr] at hne hended
    obtain ⟨j, hj, h⟩ := hi.awaits r' hlt hq' hne hended
    refine ⟨j, hj, ?_⟩
    change (Function.update s.srv k (.free r) j).awaits = some r'
    rw [Function.update_of_ne, h]
    rintro rfl
    rw [hawaits] at h
    exact hr (Option.some.inj h).symm
  case reqSem =>
    intro j
    change s.reqSem j = (s.req j).tokens s'.phase
    rw [hi.reqSem j]
    exact (ReqPc.tokens_congr fun r' hr' => hphase' r' (hreq j r' hr')).symm
  case srvSem =>
    intro j
    change Function.update s.srvSem k (s.srvSem k - 1) j =
      (Function.update s.srv k (.free r) j).tokens s'.phase
    by_cases hj : j = k
    · subst hj
      rw [Function.update_self, Function.update_self, hsem]
      rfl
    · rw [Function.update_of_ne hj, Function.update_of_ne hj, hi.srvSem j]
      exact (SrvPc.tokens_congr fun r' hr' =>
        hphase' r' (hi.ne_of_server hheld.server hj hr')).symm

/-! ### Freeing -/

/-- A requester that has read its semaphore's address does not read the record of a quote again. -/
theorem ReqPc.Ok.freed {p : ReqPc ι κ} {r : ℕ} (h : p.Ok s i) (hread : ∀ q, p ≠ .readDest q r) :
    p.Ok (s.setRecord r none) i := by
  cases p with
  | readDest q r' =>
    have hr : r' ≠ r := by
      rintro rfl
      exact hread q rfl
    obtain ⟨hmine, hq, hphase, halive⟩ := h
    refine ⟨⟨hmine.old, hmine.owner⟩, hq, hphase, ?_⟩
    simpa [State.setRecord, Function.update_of_ne hr] using halive
  | wait q r' m => exact ⟨⟨h.1.old, h.1.owner⟩, h.2⟩
  | useResult r' => exact ⟨⟨h.1.old, h.1.owner⟩, h.2⟩
  | readSrc r' => exact ⟨⟨h.1.old, h.1.owner⟩, h.2⟩
  | post r' m => exact ⟨⟨h.1.old, h.1.owner⟩, h.2⟩
  | idle => trivial
  | fault => exact h

/-- The end of a handler's turn: `free(dbWrite)`, `free(quoteReq)`. -/
theorem Inv.free (hi : Inv serves s) {r : ℕ} (hp : s.srv k = .free r)
    (hread : ∀ i q, s.req i ≠ .readDest q r) :
    Inv serves ((s.setRecord r none).gotoSrv k .deq) := by
  obtain ⟨hheld, _⟩ : (SrvPc.free r).Ok serves s k := hp ▸ hi.srv k
  have hsame : ∀ r', r' ≠ r → Same s ((s.setRecord r none).gotoSrv k .deq) r' := fun r' hr' =>
    ⟨id, rfl, rfl, rfl, fun _ h => h, fun h => by
      simpa [State.setRecord, State.gotoSrv, Function.update_of_ne hr'] using h, fun _ _ h => by
      simpa [Signed, State.setRecord, State.gotoSrv, Function.update_of_ne hr'] using h⟩
  constructor
  case queued =>
    intro q r' hr'
    obtain ⟨hlt, hkind, hserver, hph, halive⟩ := hi.queued q r' hr'
    refine ⟨hlt, hkind, hserver, hph, (hsame r' ?_).alive halive⟩
    rintro rfl
    rw [hheld.server] at hserver
    cases hserver
  case nodup => exact hi.nodup
  case unserved => exact hi.unserved
  case dest =>
    intro r' c hc
    simp only [State.setRecord, State.gotoSrv, Function.update_apply] at hc
    split_ifs at hc
    exact hi.dest r' c hc
  case srv =>
    exact forall_srv trivial fun j hj => (hi.srv j).same fun r' hr' =>
      hsame r' (hi.ne_of_server hheld.server hj hr')
  case req =>
    intro i
    exact ((hi.req i).freed (hread i)).same fun r' _ => (Same.refl _ r').gotoSrv _
  case asks => exact fun i r' hm hph => hi.asks i r' ⟨hm.old, hm.owner⟩ hph
  case awaits =>
    intro r' hlt hq hne hended
    obtain ⟨j, hj, h⟩ := hi.awaits r' hlt hq hne hended
    refine ⟨j, hj, ?_⟩
    change (Function.update s.srv k .deq j).awaits = some r'
    rw [Function.update_of_ne, h]
    rintro rfl
    rw [hp] at h
    cases h
  case reqSem => exact hi.reqSem
  case srvSem =>
    refine forall_srv (P := fun j p => s.srvSem j = p.tokens s.phase) ?_ fun j _ => hi.srvSem j
    rw [hi.srvSem k, hp]
    rfl

end

end TradeC.Handshake
