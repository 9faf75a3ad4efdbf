import TradeC.Shared

/-! Transaction servers over one set of tables, of which some fail.

    A user is sent to one of the servers, which loads it from the tables, and to another one when that has
    failed. A server that has failed stays away: `main` deletes every row before it serves, so that it can only be
    started together with all the others. What is shared outlives the memory of a server: the tables hold the
    account that the user left there, and the money of all changes by what is settled. -/

namespace TradeC
open Run Decimal Table

/-! ### Servers -/

/-- None is a server that has failed. Of the others the requests, the tables and what is settled are those that all
    share. -/
structure Servers (ι : Type*) where
  server : ι → Option Server
  requests : List (List Stmt)
  db : Db
  settled : List (UserID × Settlement)

inductive Turn (ι : Type*) where
  | event (i : ι) (e : Event)
  | fail (i : ι)

/-- The user that an event loads. -/
def Event.newUser : Event → Option UserID
  | .connect u => some u
  | _ => none

theorem Event.newUser_eq {e : Event} {u : UserID} (h : e.newUser = some u) : e = .connect u := by
  cases e with
  | connect v => exact congrArg Event.connect (Option.some.inj h)
  | command => cases h
  | quote => cases h
  | examine => cases h

namespace Servers
variable {ι : Type*}

/-- All of the servers have been started, over empty tables. -/
def started (ι : Type*) : Servers ι := ⟨fun _ => some Server.init, [], Db.init, []⟩

/-- A server, with what it shares. -/
def view (S : Servers ι) (m : Server) : Server :=
  { m with requests := S.requests, db := S.db, settled := S.settled }

/-- No server that is running has the user in memory. -/
def Unserved (S : Servers ι) (u : UserID) : Prop := ∀ i, ∀ m ∈ S.server i, m.user u = none

variable [DecidableEq ι]

/-- After a step of server `i`, which leaves `s`. -/
def put (S : Servers ι) (i : ι) (s : Server) : Servers ι :=
  ⟨Function.update S.server i (some s), s.requests, s.db, s.settled⟩

/-- After server `i` has failed. -/
def without (S : Servers ι) (i : ι) : Servers ι := { S with server := Function.update S.server i none }

theorem server_put {S : Servers ι} {i j : ι} {s m : Server} (h : (S.put i s).server j = some m) :
    j = i ∧ m = s ∨ j ≠ i ∧ S.server j = some m := by
  change Function.update S.server i (some s) j = some m at h
  by_cases hji : j = i
  · subst hji
    rw [Function.update_self] at h
    exact .inl ⟨rfl, (Option.some.inj h).symm⟩
  · rw [Function.update_of_ne hji] at h
    exact .inr ⟨hji, h⟩

theorem server_without {S : Servers ι} {i j : ι} {m : Server} (h : (S.without i).server j = some m) :
    j ≠ i ∧ S.server j = some m := by
  change Function.update S.server i none j = some m at h
  by_cases hji : j = i
  · subst hji
    rw [Function.update_self] at h
    cases h
  · rw [Function.update_of_ne hji] at h
    exact ⟨hji, h⟩

end Servers

section
variable {ι : Type*}

def turn [DecidableEq ι] (w : ℤ → ℤ) (S : Servers ι) : Turn ι → Option (Servers ι)
  | .event i e => (S.server i).bind fun m => (step w (S.view m) e).map (S.put i)
  | .fail i => (S.server i).map fun _ => S.without i

/-- The conditions of the mirror, of one turn, and that a user is loaded where no other server has it. -/
def CleanTurn (S : Servers ι) : Turn ι → Prop
  | .event i e => (∀ m ∈ S.server i, Clean (S.view m) e) ∧ ∀ u ∈ e.newUser, S.Unserved u
  | .fail _ => True

instance [Fintype ι] (S : Servers ι) (u : UserID) : Decidable (S.Unserved u) :=
  decidable_of_iff (∀ i, ∀ m ∈ S.server i, (m.user u).isNone) (by simp [Servers.Unserved])

instance [Fintype ι] (S : Servers ι) : ∀ t : Turn ι, Decidable (CleanTurn S t)
  | .event i e => inferInstanceAs (Decidable ((∀ m ∈ S.server i, Clean (S.view m) e) ∧ ∀ u ∈ e.newUser, S.Unserved u))
  | .fail _ => inferInstanceAs (Decidable True)

end

/-! ### The invariant -/

/-- Another server's step leaves what the invariant says of a server. -/
theorem Server.Survives.of_rows {s s' : Server} (hs : s.Survives) (huser : s'.user = s.user)
    (hmem : s'.mem = s.mem) (hstocks : s'.stocks = s.stocks) (hrows : s'.db.part s.loaded = s.db.part s.loaded)
    (hdb : s'.db.Sound) : s'.Survives := by
  have hloaded : s'.loaded = s.loaded := by
    funext u
    rw [Server.loaded, Server.loaded, huser]
  have hpart : s'.part.db = s.part.db := by
    have hself : s'.db.part s'.loaded = s.db.part s.loaded := hloaded ▸ hrows
    exact hself
  have hbook : s'.part.book = s.part.book := by
    simp only [Server.book, Server.part, Server.user_withDb, Server.mem_withDb, huser, hmem]
  have hk := hs.kept
  have huser' : s'.part.user = s.part.user := huser
  have hmem' : s'.part.mem = s.part.mem := hmem
  have hstocks' : s'.part.stocks = s.part.stocks := hstocks
  refine ⟨⟨⟨hmem' ▸ hk.wf.mem, ?_, ?_, ?_, hstocks' ▸ hk.wf.nodup, ?_⟩, hmem' ▸ hk.indexed, hbook ▸ hk.priced,
    ⟨?_, ?_⟩, ?_⟩, hdb⟩
  · rw [huser']
    exact hk.wf.us
  · rw [huser', hmem']
    exact hk.wf.owner
  · rw [hstocks', hmem']
    exact hk.wf.listed
  · rw [hpart, huser']
    exact hk.wf.rows
  · rw [huser']
    exact hk.stored.balance
  · rw [hmem']
    exact hk.stored.trigger
  · rw [hpart, hbook]
    exact hk.mirrors

/-- Only a connection loads a user. -/
theorem step_newUser {w : ℤ → ℤ} {s s' : Server} {e : Event} (h : step w s e = some s') {u : UserID}
    (hu : s'.loaded u = true) : s.loaded u = true ∨ e.newUser = some u := by
  cases he : e.loads with
  | false =>
    rw [step_loaded he h] at hu
    exact .inl hu
  | true =>
    cases e with
    | connect v =>
      simp only [step] at h
      split_ifs at h
      cases h
      obtain ⟨usr, huser, -⟩ := user_addUser w s v
      rw [Server.loaded, huser] at hu
      by_cases huv : u = v
      · exact .inr (congrArg some huv.symm)
      · rw [Function.update_of_ne huv] at hu
        exact .inl hu
    | command => cases he
    | quote => cases he
    | examine => cases he

namespace Servers
variable {ι : Type*}

/-- Each server that is running keeps its part, no user is in two of them, and the database has answered every
    request. -/
structure Held (S : Servers ι) : Prop where
  sound : S.db.Sound
  survives : ∀ {i m}, S.server i = some m → (S.view m).Survives
  apart : ∀ {i j m m' u}, S.server i = some m → S.server j = some m' → m.loaded u = true → m'.loaded u = true → i = j
  answered : S.requests.foldlM Db.answer Db.init = some S.db

theorem held_started : (started ι).Held where
  sound := Db.sound_init
  survives h := by
    cases h
    exact survives_empty rfl rfl rfl Db.sound_init
  apart h _ hu := by
    cases h
    cases hu
  answered := rfl

variable [DecidableEq ι] {S S' : Servers ι}

theorem Held.without (hS : S.Held) (i : ι) : (S.without i).Held where
  sound := hS.sound
  survives hj := hS.survives (server_without hj).2
  apart hj hk := hS.apart (server_without hj).2 (server_without hk).2
  answered := hS.answered

section Step
variable (hS : S.Held) {i : ι} {m s' : Server} {e : Event} (hm : S.server i = some m)
  (hnew : ∀ u ∈ e.newUser, S.Unserved u) (h : step wrap64 (S.view m) e = some s')
include hS hm hnew h

omit [DecidableEq ι] in
/-- The step writes no rows of the others' users. -/
theorem Held.rows {j : ι} {m' : Server} (hj : S.server j = some m') (hji : j ≠ i) :
    s'.db.part m'.loaded = S.db.part m'.loaded := by
  refine step_rows (s := S.view m) (fun u hu => ⟨?_, ?_⟩) h
  · by_contra hne
    exact hji (hS.apart hj hm hu (Option.isSome_iff_ne_none.mpr hne))
  · rintro rfl
    have hnone := hnew u rfl j m' hj
    rw [Server.loaded, hnone] at hu
    cases hu

omit [DecidableEq ι] in
/-- Nor does it load one of them. -/
theorem Held.others {j : ι} {m' : Server} (hj : S.server j = some m') (hji : j ≠ i) {u : UserID}
    (hu : m'.loaded u = true) : s'.loaded u = false := by
  refine Bool.eq_false_iff.mpr fun hu' => ?_
  rcases step_newUser h hu' with hold | hconn
  · exact hji (hS.apart hj hm hu hold)
  · have hnone := hnew u hconn j m' hj
    rw [Server.loaded, hnone] at hu
    cases hu

theorem Held.event (hclean : Clean (S.view m) e) : (S.put i s').Held := by
  have hs' := event_survives (hS.survives hm) hclean h
  refine ⟨hs'.sound, ?_, ?_, ?_⟩
  · intro j m' hj
    rcases server_put hj with ⟨rfl, rfl⟩ | ⟨hji, hj⟩
    · exact hs'
    · have hrows : s'.db.part m'.loaded = S.db.part m'.loaded := hS.rows hm hnew h hj hji
      exact (hS.survives hj).of_rows rfl rfl rfl hrows hs'.sound
  · intro j k m₁ m₂ u hj hk hu₁ hu₂
    rcases server_put hj with ⟨rfl, rfl⟩ | ⟨hji, hj'⟩
    · rcases server_put hk with ⟨rfl, -⟩ | ⟨hki, hk⟩
      · rfl
      · rw [hS.others hm hnew h hk hki hu₂] at hu₁
        cases hu₁
    · rcases server_put hk with ⟨rfl, rfl⟩ | ⟨hki, hk⟩
      · rw [hS.others hm hnew h hj' hji hu₁] at hu₂
        cases hu₂
      · exact hS.apart hj' hk hu₁ hu₂
  · obtain ⟨reqs, hreqs, hdb, htaken⟩ := event_taken (hS.survives hm) hclean h
    have hreqs' : s'.requests = S.requests ++ reqs := hreqs
    have hdb' : s'.db = S.db.runs reqs := hdb
    have hanswers : s'.requests.foldlM Db.answer Db.init = some s'.db := by
      rw [hreqs', List.foldlM_append, hS.answered, hdb']
      exact answers_taken S.db htaken
    exact hanswers

end Step
end Servers

section Runs
variable {ι : Type*} [DecidableEq ι]

theorem turn_event {w : ℤ → ℤ} {S S' : Servers ι} {i : ι} {e : Event} (h : turn w S (.event i e) = some S') :
    ∃ m s', S.server i = some m ∧ step w (S.view m) e = some s' ∧ S' = S.put i s' := by
  obtain ⟨m, hm, h⟩ := Option.bind_eq_some_iff.mp h
  obtain ⟨s', hstep, rfl⟩ := Option.map_eq_some_iff.mp h
  exact ⟨m, s', hm, hstep, rfl⟩

theorem turn_fail {w : ℤ → ℤ} {S S' : Servers ι} {i : ι} (h : turn w S (.fail i) = some S') :
    ∃ m, S.server i = some m ∧ S' = S.without i := by
  obtain ⟨m, hm, rfl⟩ := Option.map_eq_some_iff.mp h
  exact ⟨m, hm, rfl⟩

theorem turn_held {S S' : Servers ι} {t : Turn ι} (hS : S.Held) (hclean : CleanTurn S t)
    (h : turn wrap64 S t = some S') : S'.Held := by
  cases t with
  | event i e =>
    obtain ⟨m, s', hm, hstep, rfl⟩ := turn_event h
    exact hS.event hm hclean.2 hstep (hclean.1 m hm)
  | fail i =>
    obtain ⟨m, -, rfl⟩ := turn_fail h
    exact hS.without i

theorem exec_held {S S' : Servers ι} {ts : List (Turn ι)} (hS : S.Held)
    (hclean : Along (turn wrap64) CleanTurn S ts) (h : exec (turn wrap64) S ts = some S') : S'.Held :=
  exec_inv_along (fun _ _ _ hS hok hturn => turn_held hS hok hturn) ts S S' hS hclean h

end Runs

/-- A buy trigger holds 5.00 at the first of two servers, and has its price. -/
def escrowed : List (Turn Bool) :=
  [.event false (.connect aUser), .event false (commandAt 100000 100 "ADD" "100.00"),
    .event false (commandAt 100000 100 "SET_BUY_AMOUNT" "ABC,5.00"),
    .event false (commandAt 100000 100 "SET_BUY_TRIGGER" "ABC,2.00")]

def otherUser : UserID := ⟨"zzzzzzzzzz".toList, by decide⟩

/-- It fires at the second one, for three shares. -/
def firesElsewhere : List (Turn Bool) :=
  escrowed ++ [.event true (.connect otherUser), .fail false, .event true (.connect aUser),
    .event true (.examine 0 150 100000)]

section Away
variable {ι : Type*} [DecidableEq ι] {w : ℤ → ℤ} {u : UserID}

theorem turn_away {S S' : Servers ι} {t : Turn ι} (hu : S.Unserved u) (ht : ∀ i, t ≠ .event i (.connect u))
    (h : turn w S t = some S') :
    S'.Unserved u ∧ S'.db.part (fun v => decide (v = u)) = S.db.part fun v => decide (v = u) := by
  cases t with
  | event i e =>
    obtain ⟨m, s', hm, hstep, rfl⟩ := turn_event h
    have hne : e ≠ .connect u := fun heq => ht i (congrArg _ heq)
    have hself : ∀ v, decide (v = u) = true → (S.view m).user v = none ∧ e ≠ .connect v := by
      intro v hv
      obtain rfl := of_decide_eq_true hv
      exact ⟨hu i m hm, hne⟩
    refine ⟨fun j m' hj => ?_, step_rows hself hstep⟩
    rcases Servers.server_put hj with ⟨rfl, rfl⟩ | ⟨-, hj⟩
    · by_contra hin
      rcases step_newUser hstep (Option.isSome_iff_ne_none.mpr hin) with hold | hconn
      · have hnone : (S.view m).loaded u = false := congrArg Option.isSome (hu j m hm)
        rw [hnone] at hold
        cases hold
      · exact hne (Event.newUser_eq hconn)
    · exact hu j m' hj
  | fail i =>
    obtain ⟨m, -, rfl⟩ := turn_fail h
    exact ⟨fun j m' hj => hu j m' (Servers.server_without hj).2, rfl⟩

/-- While a user is in no memory nobody writes its rows. -/
theorem exec_away : ∀ {ts : List (Turn ι)} {S S' : Servers ι}, S.Unserved u → (∀ i, .event i (.connect u) ∉ ts) →
    exec (turn w) S ts = some S' →
    S'.db.part (fun v => decide (v = u)) = S.db.part fun v => decide (v = u) := by
  intro ts
  induction ts with
  | nil =>
    intro S S' _ _ h
    cases h
    rfl
  | cons t ts ih =>
    intro S S' hu ht h
    obtain ⟨S₁, hturn, hrun⟩ := exec_cons_some h
    obtain ⟨hu₁, hdb₁⟩ := turn_away hu (fun i heq => ht i (heq ▸ List.mem_cons_self)) hturn
    rw [ih hu₁ (fun i hmem => ht i (List.mem_cons_of_mem t hmem)) hrun, hdb₁]

end Away

/-- The trigger of `u` for the stock is in memory, with this amount and this price. -/
def Server.HasTrigger (s : Server) (u : UserID) (st : StockID) (ty : TType) (amount trig : ℤ) : Prop :=
  ∃ t ∈ s.mem.linked st, ∃ tr, s.mem.obj t = some tr ∧ tr.userObj = u ∧ tr.type = ty ∧
    tr.amount = amount ∧ tr.trig = trig

/-- `u` has in `s'` what it has in `s`, and no pending order. -/
structure Server.FoundAgain (s s' : Server) (u : UserID) (usr usr' : User) : Prop where
  loaded : s'.user u = some usr'
  idle : usr'.clearOrder = usr'
  balance : usr'.balance = usr.balance
  stocks : ∀ st, (getUserStock usr'.usTree st).map UserStock.num =
    (getUserStock usr.usTree st).map UserStock.num
  triggers : ∀ st ty amount trig, s'.HasTrigger u st ty amount trig ↔ s.HasTrigger u st ty amount trig

theorem Db.loads_of_part {db db' : Db} {u : UserID}
    (h : db'.part (fun v => decide (v = u)) = db.part fun v => decide (v = u)) (w : ℤ → ℤ) :
    db'.loadBalance w u = db.loadBalance w u ∧ db'.loadStocks u = db.loadStocks u ∧
      db'.loadTriggers w u = db.loadTriggers w u := by
  have hself : (fun v => decide (v = u)) u = true := decide_eq_true rfl
  refine ⟨?_, ?_, ?_⟩
  · exact (loadBalance_part w hself).symm.trans ((congrArg (loadBalance w · u) h).trans (loadBalance_part w hself))
  · exact (loadStocks_part hself).symm.trans ((congrArg (loadStocks · u) h).trans (loadStocks_part hself))
  · exact (loadTriggers_part w hself).symm.trans
      ((congrArg (loadTriggers w · u) h).trans (loadTriggers_part w hself))

theorem Server.Survives.found {s s₁ : Server} {u : UserID} {usr : User} (hs : s.Survives)
    (husr : s.user u = some usr) (hs₁ : s₁.Survives) (hu : s₁.user u = none)
    (hdb : s₁.db.part (fun v => decide (v = u)) = s.db.part fun v => decide (v = u)) :
    ∃ usr', s.FoundAgain (addUser wrap64 s₁ u) u usr usr' := by
  obtain ⟨usr', hl⟩ := hs₁.loads hu
  have hself : (addUser wrap64 s₁ u).user u = some usr' := by rw [hl.loaded, Function.update_self]
  have hfirst := hs.reloads husr
  have hlast := (survives_loads hs₁ hu hl).reloads hself
  obtain ⟨hbal, hstk, htrig⟩ := Db.loads_of_part hdb wrap64
  have htriggers : (addUser wrap64 s₁ u).db.loadTriggers wrap64 u = s₁.db.loadTriggers wrap64 u := by
    rw [hl.inserted, Db.run_insertAcct]
    split_ifs <;> rfl
  refine ⟨usr', hself, hl.idle, ?_, fun st => Option.ext fun n => ?_, fun st ty amount trig => ?_⟩
  · rw [hl.balance, hbal, hfirst.balance]
  · rw [hl.holds, hstk, hfirst.stock_iff]
  · have hlast' := hlast.trigger_iff st ty amount trig
    rw [htriggers, htrig] at hlast'
    exact hlast'.symm.trans (hfirst.trigger_iff st ty amount trig)

/-- The money of `u` in the tables: the balance and the funds of the buy triggers. -/
def Db.worth (db : Db) (u : UserID) : ℤ :=
  (db.accounts.map fun r => if r.1 = u then r.2 else 0).sum +
    (db.triggers.map fun r => if r.userID = u ∧ r.type = .b then r.reservedFunds else 0).sum

theorem sum_map_filter {ρ : Type*} {p : ρ → Bool} {f : ρ → ℤ} (hf : ∀ r, p r = false → f r = 0)
    (l : List ρ) : ((l.filter p).map f).sum = (l.map f).sum := by
  induction l with
  | nil => rfl
  | cons r l ih =>
    cases hp : p r with
    | true => rw [List.filter_cons_of_pos hp, List.map_cons, List.map_cons, List.sum_cons, List.sum_cons, ih]
    | false =>
      rw [List.filter_cons_of_neg (by simp [hp]), List.map_cons, List.sum_cons, ih, hf r hp, zero_add]

theorem Db.worth_part {db : Db} {P : UserID → Bool} {u : UserID} (hu : P u = true) :
    (db.part P).worth u = db.worth u := by
  have hne : ∀ {v}, P v = false → v ≠ u := by
    rintro v hv rfl
    rw [hu] at hv
    cases hv
  rw [worth, worth, part, sum_map_filter fun r hr => if_neg (hne hr),
    sum_map_filter fun r hr => if_neg fun h => hne hr h.1]

theorem Db.worth_insertAcct (db : Db) (u v : UserID) :
    (db.run [.insertAcct u "0.00".toList]).worth v = db.worth v := by
  rw [run_insertAcct]
  split_ifs
  · rfl
  · simp [worth]

/-- The triggers among the first `n` objects, as a table. -/
theorem Mem.Indexed.shows {m : Mem} (hi : m.Indexed) {n : ℕ} (hn : m.fresh ≤ n) :
    Shows Trigger.key Trigger.val ((List.range n).filterMap m.obj) fun k v =>
      ∃ t tr, m.obj t = some tr ∧ tr.key = k ∧ tr.val = v where
  nodup := by
    rw [List.map_filterMap]
    refine List.nodup_range.filterMap fun t t' k hk hk' => ?_
    obtain ⟨tr, htr, rfl⟩ := Option.map_eq_some_iff.mp hk
    obtain ⟨tr', htr', hkey⟩ := Option.map_eq_some_iff.mp hk'
    obtain ⟨hu, hst, hty⟩ : _ ∧ _ ∧ _ := by simpa [Trigger.key] using hkey
    have hfind := hi.finds htr'
    rw [hu, hst, hty, hi.finds htr] at hfind
    exact Option.some.inj hfind
  iff k v := by
    simp only [List.mem_filterMap, List.mem_range]
    constructor
    · rintro ⟨tr, ⟨t, -, htr⟩, hk, hv⟩
      exact ⟨t, tr, htr, hk, hv⟩
    · rintro ⟨t, tr, htr, hk, hv⟩
      exact ⟨tr, ⟨t, (hi.toWF.live htr).trans_le hn, htr⟩, hk, hv⟩

theorem sum_filterMap_range (obj : ℕ → Option Trigger) (g : Trigger → ℤ) (n : ℕ) :
    (((List.range n).filterMap obj).map g).sum = ∑ t ∈ Finset.range n, (obj t).elim 0 g := by
  induction n with
  | zero => rfl
  | succ n ih =>
    rw [List.range_succ, List.filterMap_append, List.map_append, List.sum_append, ih, Finset.sum_range_succ]
    cases hobj : obj n with
    | none => simp [hobj]
    | some tr => simp [hobj]

/-- Where the tables show the memory, they are worth the balance and the escrow. -/
theorem Server.Kept.worth {s : Server} (hs : s.Kept) (u : UserID) :
    s.db.worth u = s.book.balance u + s.escrow u := by
  have hbal : (s.db.accounts.map fun r => if r.1 = u then r.2 else 0).sum = s.book.balance u := by
    cases ha : s.book.acct u with
    | none =>
      rw [hs.mirrors.accounts.sum_key_none fun v => by simp [ha]]
      simp [Book.balance, ha]
    | some a =>
      rw [hs.mirrors.accounts.sum_key ⟨a, ha, rfl⟩]
      simp [Book.balance, ha]
  have htrig := hs.mirrors.triggers.sum_eq (hs.indexed.shows le_rfl)
    fun x => if x.1.1 = u ∧ x.1.2.2 = .b then x.2.1 else 0
  rw [sum_filterMap_range] at htrig
  rw [Db.worth, hbal, hs.wf.escrow_eq le_rfl, Book.escrow]
  refine congrArg (s.book.balance u + ·) (htrig.trans (Finset.sum_congr rfl fun t _ => ?_))
  have hobj : s.book.trig t = s.mem.obj t := rfl
  rw [hobj]
  cases s.mem.obj t <;> rfl

/-- A user that is not in memory has no money there. -/
theorem Server.WF.away {s : Server} (hw : s.WF) {u : UserID} (hu : s.user u = none) :
    s.book.balance u + s.escrow u = 0 := by
  have hbal : s.book.balance u = 0 := by simp [Book.balance, Server.book, hu]
  have hescrow : s.escrow u = 0 := by
    rw [hw.escrow_eq le_rfl]
    refine Finset.sum_eq_zero fun t _ => ?_
    have hobj : s.book.trig t = s.mem.obj t := rfl
    rw [hobj]
    cases htr : s.mem.obj t with
    | none => rfl
    | some tr =>
      refine if_neg fun h => ?_
      have hown := hw.owner htr
      rw [h.1, hu] at hown
      cases hown
  rw [hbal, hescrow, add_zero]

/-- The balance and the escrow in a server's memory change by what it settles. -/
theorem step_worth_part {s s' : Server} {e : Event} (hs : s.Survives) (hclean : Clean s e)
    (he : e.loads = false) (h : step wrap64 s e = some s') (u : UserID) :
    s'.part.book.balance u + s'.part.escrow u - ledger u s'.settled =
      s.part.book.balance u + s.part.escrow u - ledger u s.settled := by
  have hstep := step_part he h
  rw [step_fits hs.kept.wf (hclean.withDb _).fits] at hstep
  exact step_worth hs.kept.wf hstep u

/-- What the own users of a server are worth. -/
theorem step_worth_own {s s' : Server} {e : Event} {u : UserID} (hs : s.Survives) (hclean : Clean s e)
    (he : e.loads = false) (h : step wrap64 s e = some s') (hu : s.loaded u = true) :
    s'.db.worth u - ledger u s'.settled = s.db.worth u - ledger u s.settled := by
  have hs' := step_survives hs hclean he h
  have hworth := step_worth_part hs hclean he h u
  rw [← hs.kept.worth, ← hs'.kept.worth] at hworth
  have hin : s.part.db.worth u = s.db.worth u := Db.worth_part hu
  have hin' : s'.part.db.worth u = s'.db.worth u := Db.worth_part (step_loaded he h ▸ hu)
  rwa [hin, hin'] at hworth

/-- What the others are worth: their rows stay, and nothing is settled for them. -/
theorem step_worth_away {s s' : Server} {e : Event} {u : UserID} (hs : s.Survives) (hclean : Clean s e)
    (he : e.loads = false) (h : step wrap64 s e = some s') (hu : s.user u = none) :
    s'.db.worth u - ledger u s'.settled = s.db.worth u - ledger u s.settled := by
  have hs' := step_survives hs hclean he h
  have hworth := step_worth_part hs hclean he h u
  have hu' : s'.user u = none := by
    have hloaded : s'.loaded u = false := (congrFun (step_loaded he h) u).trans (congrArg Option.isSome hu)
    simpa [Server.loaded] using hloaded
  have hself : (fun v => decide (v = u)) u = true := decide_eq_true rfl
  have hrows : s'.db.part (fun v => decide (v = u)) = s.db.part fun v => decide (v = u) := by
    refine step_rows (fun v hv => ?_) h
    obtain rfl := of_decide_eq_true hv
    refine ⟨hu, ?_⟩
    rintro rfl
    cases he
  have hsame : s'.db.worth u = s.db.worth u :=
    (Db.worth_part hself).symm.trans ((congrArg (Db.worth · u) hrows).trans (Db.worth_part hself))
  rw [hs.kept.wf.away hu, hs'.kept.wf.away hu'] at hworth
  omega

/-- A clean step changes the worth of each user by what it settles for the user. -/
theorem event_worth {s s' : Server} {e : Event} (hs : s.Survives) (hclean : Clean s e)
    (h : step wrap64 s e = some s') (u : UserID) :
    s'.db.worth u - ledger u s'.settled = s.db.worth u - ledger u s.settled := by
  cases he : e.loads with
  | false =>
    cases hu : s.user u with
    | none => exact step_worth_away hs hclean he h hu
    | some usr => exact step_worth_own hs hclean he h (Option.isSome_of_eq_some hu)
  | true =>
    cases e with
    | connect v =>
      simp only [step, Option.isSome_iff_ne_none] at h
      split_ifs at h with hv
      cases h
      obtain ⟨usr, hl⟩ := hs.loads (not_not.mp hv)
      rw [hl.inserted, hl.settled, Db.worth_insertAcct]
    | command => cases he
    | quote => cases he
    | examine => cases he

theorem turn_worth {ι : Type*} [DecidableEq ι] {S S' : Servers ι} {t : Turn ι} (hS : S.Held) (hclean : CleanTurn S t)
    (h : turn wrap64 S t = some S') (u : UserID) :
    S'.db.worth u - ledger u S'.settled = S.db.worth u - ledger u S.settled := by
  cases t with
  | event i e =>
    obtain ⟨m, s', hm, hstep, rfl⟩ := turn_event h
    exact event_worth (hS.survives hm) (hclean.1 m hm) hstep u
  | fail i =>
    obtain ⟨m, -, rfl⟩ := turn_fail h
    rfl

end TradeC
