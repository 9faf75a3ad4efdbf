import TradeC.Simulation
import TradeC.Lib.Run
import Mathlib.Algebra.BigOperators.Group.Finset.Piecewise
import Mathlib.Algebra.BigOperators.Ring.Finset

/-! Conservation of money.

    A move changes a user's balance and the amounts in the user's buy triggers together by what it
    settles; the ledger of settlements is their sum. No condition is needed: it holds in every run,
    however the runs interleave. -/

namespace TradeC
open Run

/-- What a trigger holds of the money of `u`. -/
def escrowOf (u : UserID) : Option Trigger → ℤ
  | some tr => if tr.userObj = u ∧ tr.type = .b then tr.amount else 0
  | none => 0

/-- What a settlement brings into the account. -/
def Settlement.money : Settlement → ℤ
  | .add prc => prc
  | .commitBuy reserve => -reserve
  | .commitSell reserve => reserve
  | .firedBuy tbuy => -tbuy
  | .firedSell tsell => tsell

def ledger (u : UserID) (settled : List (UserID × Settlement)) : ℤ :=
  (settled.map fun x => if x.1 = u then x.2.money else 0).sum

/-- The amounts of the buy triggers of `u` that are linked in some stock's ring. -/
def Server.escrow (s : Server) (u : UserID) : ℤ :=
  ((s.stocks.flatMap s.mem.linked).map fun t => escrowOf u (s.mem.obj t)).sum

theorem ledger_append (u : UserID) (l l' : List (UserID × Settlement)) :
    ledger u (l ++ l') = ledger u l + ledger u l' := by
  simp [ledger]

@[simp] theorem ledger_nil (u : UserID) : ledger u [] = 0 := rfl

@[simp] theorem ledger_singleton (u u' : UserID) (x : Settlement) :
    ledger u [(u', x)] = if u' = u then x.money else 0 := by
  simp [ledger]

/-! ### One move -/

namespace Book

def balance (b : Book) (u : UserID) : ℤ := (b.acct u).elim 0 Account.balance

/-- The amounts of the buy triggers of `u` among the first `n` objects. -/
def escrow (b : Book) (n : ℕ) (u : UserID) : ℤ := ∑ t ∈ Finset.range n, escrowOf u (b.trig t)

variable (b : Book)

theorem balance_setAcct {u : UserID} {x : ℤ} (hx : b.balance u = x) (a : Account) (u' : UserID) :
    (b.setAcct u a).balance u' = b.balance u' + if u = u' then a.balance - x else 0 := by
  by_cases h : u = u'
  · subst h
    simp [balance, setAcct, ← hx]
  · simp [balance, setAcct, h, Ne.symm h]

@[simp] theorem balance_setTrig (t : TrigID) (tr : Option Trigger) (u : UserID) :
    (b.setTrig t tr).balance u = b.balance u := rfl

@[simp] theorem escrow_setAcct (n : ℕ) (u u' : UserID) (a : Account) :
    (b.setAcct u a).escrow n u' = b.escrow n u' := rfl

@[simp] theorem escrow_setAcct_setTrig (n : ℕ) (u u' : UserID) (a : Account) (t : TrigID)
    (tr : Option Trigger) :
    ((b.setAcct u a).setTrig t tr).escrow n u' = (b.setTrig t tr).escrow n u' := rfl

@[simp] theorem trig_setTrig_self (t : TrigID) (tr : Option Trigger) :
    (b.setTrig t tr).trig t = tr := by
  simp [setTrig]

/-- Objects from `n` on are not there before and after. -/
theorem escrow_setTrig {n : ℕ} {t : TrigID} {x tr : Option Trigger} (hx : b.trig t = x)
    (hn : ∀ t, n ≤ t → b.trig t = none) (hn' : ∀ t', n ≤ t' → (b.setTrig t tr).trig t' = none)
    (u : UserID) : (b.setTrig t tr).escrow n u = b.escrow n u + escrowOf u tr - escrowOf u x := by
  subst hx
  by_cases ht : t < n
  · have hmem := Finset.mem_range.mpr ht
    have hup : (fun i => escrowOf u (Function.update b.trig t tr i)) =
        Function.update (fun i => escrowOf u (b.trig i)) t (escrowOf u tr) := by
      funext i
      by_cases hi : i = t
      · simp [hi]
      · simp [hi]
    have hold := Finset.add_sum_erase (Finset.range n) (fun i => escrowOf u (b.trig i)) hmem
    simp only [escrow, setTrig, hup, Finset.sum_update_of_mem hmem, Finset.sdiff_singleton_eq_erase]
    linarith
  · have hout : ∀ i ∈ Finset.range n, i ≠ t := fun i hi h => ht (h ▸ Finset.mem_range.mp hi)
    have hsame : (b.setTrig t tr).escrow n u = b.escrow n u :=
      Finset.sum_congr rfl fun i hi => by simp [setTrig, hout i hi]
    have htr : tr = none := by simpa using hn' t (not_lt.mp ht)
    rw [hsame, hn t (not_lt.mp ht), htr]
    ring

theorem balance_of_acct {u : UserID} {a : Account} (h : b.acct u = some a) :
    b.balance u = a.balance := by
  simp [balance, h]

end Book

section Move
variable {find : UserID → StockID → TType → Option TrigID} {b b' : Book} {e : Event} {out : Output}

/-- A move changes a user's balance and escrow together by what it settles for the user. -/
theorem Move.worth (h : Move find b e out b') {n : ℕ} (hn : ∀ t, n ≤ t → b.trig t = none)
    (hn' : ∀ t, n ≤ t → b'.trig t = none) (u : UserID) :
    b'.balance u + b'.escrow n u = b.balance u + b.escrow n u + ledger u out.settled := by
  cases h with
  | idle => simp [Output.none]
  | @opened u₀ _ hu =>
    have hbal : b.balance u₀ = 0 := by simp [Book.balance, hu]
    simp [b.balance_setAcct hbal, Account.new]
  | added _ ha _ =>
    rw [b.balance_setAcct (b.balance_of_acct ha), b.escrow_setAcct, ledger_singleton]
    split_ifs
    · rw [Settlement.money]
      ring
    · ring
  | orderedBuy _ ha _ _ _ _ _ => simp [b.balance_setAcct (b.balance_of_acct ha), Output.none]
  | orderedSell _ ha _ _ _ _ _ => simp [b.balance_setAcct (b.balance_of_acct ha), Output.none]
  | cleared ha => simp [b.balance_setAcct (b.balance_of_acct ha), Output.none, Account.clear]
  | bought _ ha _ _ =>
    rw [b.balance_setAcct (b.balance_of_acct ha), b.escrow_setAcct, ledger_singleton]
    split_ifs
    · simp only [Settlement.money, Account.clear, Account.setHold]
      ring
    · ring
  | sold _ ha _ _ _ =>
    rw [b.balance_setAcct (b.balance_of_acct ha), b.escrow_setAcct, ledger_singleton]
    split_ifs
    · simp only [Settlement.money, Account.clear, Account.setHold]
      ring
    · ring
  | setBuy _ ha _ _ _ _ ht =>
    rw [Book.balance_setTrig, b.balance_setAcct (b.balance_of_acct ha),
      b.escrow_setAcct_setTrig, b.escrow_setTrig ht hn hn', ledger_nil]
    simp only [escrowOf, and_true]
    split_ifs <;> ring
  | setSell _ _ _ _ _ _ ht =>
    rw [Book.balance_setTrig, b.escrow_setTrig ht hn hn', ledger_nil]
    simp [escrowOf]
  | priced _ _ _ _ ht _ =>
    rw [Book.balance_setTrig, b.escrow_setTrig ht hn hn', ledger_nil]
    simp [escrowOf]
  | refunded _ ha _ ht hu hty =>
    rw [Book.balance_setTrig, b.balance_setAcct (b.balance_of_acct ha),
      b.escrow_setAcct_setTrig, b.escrow_setTrig ht hn hn', ledger_nil]
    simp only [escrowOf, hu, hty, and_true]
    split_ifs <;> ring
  | withdrawn _ _ ht _ hty =>
    rw [Book.balance_setTrig, b.escrow_setTrig ht hn hn', ledger_nil]
    simp [escrowOf, hty]
  | firedBuy _ ht ha hty _ _ _ =>
    rw [Book.balance_setTrig, b.balance_setAcct (b.balance_of_acct ha),
      b.escrow_setAcct_setTrig, b.escrow_setTrig ht hn hn', ledger_singleton]
    simp only [escrowOf, hty, and_true]
    split_ifs
    · simp only [Settlement.money, Account.setHold]
      ring
    · ring
  | firedSell _ ht ha hty _ _ _ _ _ =>
    rw [Book.balance_setTrig, b.balance_setAcct (b.balance_of_acct ha),
      b.escrow_setAcct_setTrig, b.escrow_setTrig ht hn hn', ledger_singleton]
    simp only [escrowOf, hty, reduceCtorEq, and_false, if_false]
    split_ifs
    · simp only [Settlement.money, Account.setHold]
      ring
    · ring

end Move

/-! ### Runs -/

/-- The rings link the live triggers, so the sum over the rings is the sum over the objects. -/
theorem Server.WF.escrow_eq {s : Server} (hw : s.WF) {n : ℕ} (hn : s.mem.fresh ≤ n) (u : UserID) :
    s.escrow u = s.book.escrow n u := by
  have hmem : ∀ t, t ∈ s.stocks.flatMap s.mem.linked ↔ (s.mem.obj t).isSome := by
    intro t
    simp only [List.mem_flatMap, hw.mem.mem_linked, Option.isSome_iff_exists]
    constructor
    · rintro ⟨_, _, tr, htr, _⟩
      exact ⟨tr, htr⟩
    · rintro ⟨tr, htr⟩
      exact ⟨tr.stockObj, hw.listed htr, tr, htr, rfl⟩
  have hnodup : (s.stocks.flatMap s.mem.linked).Nodup := by
    refine List.nodup_flatMap.mpr ⟨fun st _ => (hw.mem.shows st).nodup, ?_⟩
    refine hw.nodup.imp fun {st st'} hne t ht ht' => hne ?_
    obtain ⟨tr, htr, rfl⟩ := hw.mem.mem_linked.mp ht
    obtain ⟨tr', htr', rfl⟩ := hw.mem.mem_linked.mp ht'
    rw [Option.some.inj (htr.symm.trans htr')]
  rw [Server.escrow, ← List.sum_toFinset _ hnodup]
  refine Finset.sum_subset (fun t ht => ?_) fun t _ ht => ?_
  · obtain ⟨tr, htr⟩ := Option.isSome_iff_exists.mp ((hmem t).mp (List.mem_toFinset.mp ht))
    exact Finset.mem_range.mpr (lt_of_lt_of_le (hw.mem.live htr) hn)
  · have hnone : s.mem.obj t = none := by simpa [hmem] using ht
    simp [hnone, escrowOf]

/-- The equation of one user: balance and escrow on one side, what was settled on the other. -/
def Server.Conserves (s : Server) : Prop :=
  ∀ u usr, s.user u = some usr → usr.balance + s.escrow u = ledger u s.settled

theorem step_worth {s s' : Server} {e : Event} (hw : s.WF) (h : step id s e = some s') (u : UserID) :
    s'.book.balance u + s'.escrow u - ledger u s'.settled =
      s.book.balance u + s.escrow u - ledger u s.settled := by
  obtain ⟨hw', _, out, hmove, _, hset, _⟩ := step_steps hw h
  have hdead : ∀ {s : Server}, s.WF → ∀ {n}, s.mem.fresh ≤ n → ∀ t, n ≤ t → s.book.trig t = none := by
    intro s hw n hn t ht
    by_contra hne
    obtain ⟨tr, htr⟩ := Option.ne_none_iff_exists'.mp hne
    exact absurd (hw.mem.live htr) (not_lt.mpr (hn.trans ht))
  have hl : s.mem.fresh ≤ max s.mem.fresh s'.mem.fresh := le_max_left _ _
  have hr : s'.mem.fresh ≤ max s.mem.fresh s'.mem.fresh := le_max_right _ _
  have hworth := hmove.worth (hdead hw hl) (hdead hw' hr) u
  rw [hw.escrow_eq hl, hw'.escrow_eq hr, hset, ledger_append]
  linarith

/-- Conservation of money, in every run from the start: a user's balance with the amounts of the
    buy triggers still linked is what was added, sold and not spent. -/
theorem conservation_of_money {es : List Event} {s : Server}
    (h : exec (step id) Server.init es = some s) : s.Conserves := by
  have hinv : s.WF ∧ ∀ u, s.book.balance u + s.escrow u - ledger u s.settled = 0 := by
    have hstep : ∀ (s : Server) e s',
        (s.WF ∧ ∀ u, s.book.balance u + s.escrow u - ledger u s.settled = 0) →
        step id s e = some s' →
        s'.WF ∧ ∀ u, s'.book.balance u + s'.escrow u - ledger u s'.settled = 0 :=
      fun s e s' hi hs => ⟨(step_steps hi.1 hs).wf, fun u => by rw [step_worth hi.1 hs, hi.2]⟩
    refine exec_inv hstep es Server.init s ⟨Server.wf_init, fun u => ?_⟩ h
    simp [Server.init, Server.book, Book.balance, Server.escrow]
  intro u usr husr
  have hu := hinv.2 u
  rw [Book.balance_of_acct _ (Server.acct_book husr)] at hu
  exact sub_eq_zero.mp hu

/-- A buy trigger holds 5.00 and fires at 1.50, for three shares. -/
def escrowAndFire : List Event :=
  [.connect aUser,
    commandAt 100000 100 "ADD" "100.00",
    commandAt 100000 100 "SET_BUY_AMOUNT" "ABC,5.00",
    commandAt 100000 100 "SET_BUY_TRIGGER" "ABC,2.00",
    .examine 0 150 100000]

theorem conservation_of_money_fire :
    ∃ s, exec (step id) Server.init escrowAndFire = some s ∧ s.Conserves := by
  obtain ⟨s, hs⟩ : ∃ s, exec (step id) Server.init escrowAndFire = some s :=
    Option.isSome_iff_exists.mp (by decide)
  exact ⟨s, hs, conservation_of_money hs⟩

end TradeC
