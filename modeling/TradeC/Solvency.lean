import TradeC.Overflow
import TradeC.Lib.Run

/-! Holdings and balances stay non-negative, and pending orders stay covered, as long as no firing
    sell trigger takes shares that a pending SELL counts on.

    SELL fixes the number of shares and COMMIT_SELL subtracts it without looking at the holding again,
    while the sweep may fire in between. A holding driven below zero then makes the next sale amount
    negative, so that the balance is not safe either. -/

namespace TradeC
open Run Decimal

/-- The amounts in the fields of a command that has one. -/
def Event.amounts : Event → List CStr
  | .command c comm =>
    match delimSepNoCpy comm ',' with
    | [a] => if c.userCmd = "ADD".toList then [a] else []
    | [_, a] =>
      if c.userCmd ∈ ["BUY".toList, "SELL".toList, "SET_BUY_AMOUNT".toList, "SET_BUY_TRIGGER".toList,
        "SET_SELL_AMOUNT".toList, "SET_SELL_TRIGGER".toList] then [a] else []
    | _ => []
  | _ => []

/-- A sell trigger that fires on the stock of its user's pending SELL leaves the shares of it. -/
def LeavesPending (s : Server) : Event → Bool
  | .examine t quotePrice _ =>
    (s.mem.obj t).all fun tr => (s.user tr.userObj).all fun usr =>
      (getUserStock usr.usTree tr.stockObj).all fun uso =>
        !(tr.type = .s && tr.trig < quotePrice && tr.trig ≠ 0 && uso.num ≠ 0 && usr.buysell = -1 &&
          usr.stockObj = some tr.stockObj) ||
        usr.no + sellNo uso.num tr.amount quotePrice ≤ uso.num
  | _ => true

/-! ### One move -/

structure Account.Sound (a : Account) : Prop where
  held : ∀ {st n}, a.hold st = some n → 0 ≤ n
  funded : 0 ≤ a.balance
  reserve : 0 ≤ a.reserve
  no : 0 ≤ a.no
  buy : a.buysell = 1 → a.reserve ≤ a.balance
  sell : a.buysell = -1 → ∃ st n, a.stockObj = some st ∧ a.hold st = some n ∧ a.no ≤ n

structure Book.Sound (b : Book) : Prop where
  acct : ∀ {u a}, b.acct u = some a → a.Sound
  trig : ∀ {t tr}, b.trig t = some tr → 0 ≤ tr.amount

namespace Book.Sound
variable {b : Book} (hb : b.Sound)
include hb

theorem setAcct {u : UserID} {a : Account} (ha : a.Sound) : (b.setAcct u a).Sound where
  acct {u' a'} h := by
    by_cases hu : u' = u
    · subst hu
      simp only [Book.setAcct, Function.update_self, Option.some.injEq] at h
      exact h ▸ ha
    · exact hb.acct (by simpa [Book.setAcct, hu] using h)
  trig h := hb.trig h

theorem setTrig {t : TrigID} {tr? : Option Trigger} (htr : ∀ tr ∈ tr?, 0 ≤ tr.amount) :
    (b.setTrig t tr?).Sound where
  acct h := hb.acct h
  trig {t' tr'} h := by
    by_cases ht : t' = t
    · subst ht
      exact htr tr' (by simpa [Book.setTrig] using h)
    · exact hb.trig (by simpa [Book.setTrig, ht] using h)

end Book.Sound

theorem Account.Sound.clear {a : Account} (ha : a.Sound) : a.clear.Sound :=
  ⟨ha.held, ha.funded, le_rfl, le_rfl, fun h => by simp [Account.clear] at h,
    fun h => by simp [Account.clear] at h⟩

theorem sellNo_nonneg {n prc p : ℤ} (hn : 0 ≤ n) (hprc : 0 ≤ prc) (hp : 1 ≤ p) : 0 ≤ sellNo n prc p := by
  have hdiv : 0 ≤ prc.tdiv p := Int.tdiv_nonneg hprc (by omega)
  unfold sellNo
  omega

theorem sellNo_le (n prc p : ℤ) : sellNo n prc p ≤ n := min_le_left _ _

/-- What an amount pays for costs no more than the amount. -/
theorem cost_le {prc q : ℤ} (hprc : 0 ≤ prc) (hq : 1 ≤ q) : q * prc.tdiv q ≤ prc := by
  rw [Int.tdiv_eq_ediv_of_nonneg hprc]
  exact Int.mul_ediv_self_le (by omega)

theorem Account.Sound.shares {a : Account} (ha : a.Sound) (st : StockID) : 0 ≤ a.shares st := by
  unfold Account.shares
  cases h : a.hold st with
  | none => exact le_rfl
  | some n => exact ha.held h

/-- Holdings stay non-negative when one of them is set to a number that is. -/
theorem Account.Sound.held_setHold {a : Account} (ha : a.Sound) {x : ℤ} {st : StockID} {k : ℤ}
    (hk : 0 ≤ k) {st' : StockID} {n : ℤ}
    (h : ({ a with balance := x }.setHold st k).hold st' = some n) : 0 ≤ n := by
  by_cases hst : st' = st
  · subst hst
    simp only [Account.setHold, Function.update_self, Option.some.injEq] at h
    exact h ▸ hk
  · exact ha.held (by simpa [Account.setHold, hst] using h)

/-- A holding set to `k` still covers what a pending SELL counts on, when it did and `k` does. -/
theorem Account.Sound.sell_setHold {a : Account} (ha : a.Sound) (hside : a.buysell = -1) {x : ℤ}
    {st : StockID} {k : ℤ} (hk : a.stockObj = some st → a.no ≤ k) :
    ∃ st' n, ({ a with balance := x }.setHold st k).stockObj = some st' ∧
      ({ a with balance := x }.setHold st k).hold st' = some n ∧ a.no ≤ n := by
  obtain ⟨st', n, hst, hn, hcover⟩ := ha.sell hside
  by_cases heq : st' = st
  · subst heq
    exact ⟨st', k, hst, by simp [Account.setHold], hk hst⟩
  · exact ⟨st', n, hst, by simpa [Account.setHold, heq] using hn, hcover⟩

/-- The firing of a sell trigger leaves the shares of a pending SELL on its stock. -/
def Book.Leaves (b : Book) (e : Event) : Prop :=
  ∀ {t p now tr a n}, e = .examine t p now → b.trig t = some tr → b.acct tr.userObj = some a →
    tr.type = .s → tr.trig < p → tr.trig ≠ 0 → a.hold tr.stockObj = some n → n ≠ 0 →
    a.buysell = -1 → a.stockObj = some tr.stockObj → a.no + sellNo n tr.amount p ≤ n

theorem Event.Is.mem_amounts {e : Event} {c : Cmd} {name : String} {stk amt : CStr}
    (he : e.Is c name [stk, amt]) (hname : name ∈ ["BUY", "SELL", "SET_BUY_AMOUNT",
      "SET_BUY_TRIGGER", "SET_SELL_AMOUNT", "SET_SELL_TRIGGER"]) : amt ∈ e.amounts := by
  obtain ⟨comm, rfl, hcmd, hcomm⟩ := he
  have hin : c.userCmd ∈ ["BUY".toList, "SELL".toList, "SET_BUY_AMOUNT".toList,
      "SET_BUY_TRIGGER".toList, "SET_SELL_AMOUNT".toList, "SET_SELL_TRIGGER".toList] := by
    rw [hcmd]
    exact List.mem_map_of_mem (f := String.toList) hname
  simp only [Event.amounts, hcomm, if_pos hin, List.mem_singleton]

theorem Event.Is.mem_amounts_add {e : Event} {c : Cmd} {amt : CStr} (he : e.Is c "ADD" [amt]) :
    amt ∈ e.amounts := by
  obtain ⟨comm, rfl, hcmd, hcomm⟩ := he
  simp only [Event.amounts, hcomm, if_pos hcmd, List.mem_singleton]

section Move
variable {find : UserID → StockID → TType → Option TrigID} {b b' : Book} {e : Event} {out : Output}

theorem Move.sound (h : Move find b e out b') (hb : b.Sound)
    (hamt : ∀ amt ∈ e.amounts, -1 ≤ str2price id amt) (hleaves : b.Leaves e) : b'.Sound := by
  have hread : ∀ {amt}, amt ∈ e.amounts → str2price id amt ≠ -1 → 0 ≤ str2price id amt :=
    fun hmem hne => by have := hamt _ hmem; omega
  cases h with
  | idle => exact hb
  | opened _ _ =>
    exact hb.setAcct ⟨fun h => by simp [Account.new] at h, le_rfl, le_rfl, le_rfl,
      fun _ => le_rfl, fun h => by simp [Account.new] at h⟩
  | added he ha hprc =>
    have hs := hb.acct ha
    have hpos := hread he.mem_amounts_add hprc
    refine hb.setAcct ⟨hs.held, add_nonneg hs.funded hpos, hs.reserve, hs.no, fun h => ?_, hs.sell⟩
    have := hs.buy h
    simp only
    omega
  | orderedBuy he ha hprc _ hbal hq _ =>
    have hs := hb.acct ha
    have hpos := hread (he.mem_amounts (by simp)) hprc
    have hno : 0 ≤ (str2price id _).tdiv _ := Int.tdiv_nonneg hpos (le_trans zero_le_one hq)
    exact hb.setAcct ⟨hs.held, hs.funded, mul_nonneg (le_trans zero_le_one hq) hno, hno,
      fun _ => (cost_le hpos hq).trans hbal, fun h => by simp at h⟩
  | orderedSell he ha hprc _ hn _ hq =>
    have hs := hb.acct ha
    have hpos := hread (he.mem_amounts (by simp)) hprc
    have hno := sellNo_nonneg (hs.held hn) hpos hq
    exact hb.setAcct ⟨hs.held, hs.funded, mul_nonneg (le_trans zero_le_one hq) hno, hno,
      fun h => by simp at h, fun _ => ⟨_, _, rfl, hn, sellNo_le _ _ _⟩⟩
  | cleared ha => exact hb.setAcct (hb.acct ha).clear
  | bought _ ha hside _ =>
    have hs := hb.acct ha
    have hcover := hs.buy hside
    exact hb.setAcct ⟨hs.held_setHold (add_nonneg (hs.shares _) hs.no), sub_nonneg.mpr hcover, le_rfl, le_rfl,
      fun h => by simp [Account.clear] at h, fun h => by simp [Account.clear] at h⟩
  | sold _ ha hside hst hn =>
    have hs := hb.acct ha
    obtain ⟨st, n, hst', hn', hcover⟩ := hs.sell hside
    obtain rfl := Option.some.inj (hst.symm.trans hst')
    obtain rfl := Option.some.inj (hn.symm.trans hn')
    exact hb.setAcct ⟨hs.held_setHold (sub_nonneg.mpr hcover), add_nonneg hs.funded hs.reserve, le_rfl,
      le_rfl, fun h => by simp [Account.clear] at h, fun h => by simp [Account.clear] at h⟩
  | setBuy he ha hprc hidle hbal _ _ =>
    have hs := hb.acct ha
    have hpos := hread (he.mem_amounts (by simp)) hprc
    refine .setTrig ?_ (by simpa using hpos)
    refine hb.setAcct ⟨hs.held, sub_nonneg.mpr hbal, hs.reserve, hs.no, fun h => ?_, fun h => ?_⟩
    · simp [hidle] at h
    · simp [hidle] at h
  | setSell he _ hprc _ _ _ _ =>
    exact hb.setTrig (by simpa using hread (he.mem_amounts (by simp)) hprc)
  | priced _ _ _ _ ht _ => exact hb.setTrig (by simpa using hb.trig ht)
  | refunded _ ha _ ht _ _ =>
    have hs := hb.acct ha
    have hamount := hb.trig ht
    refine .setTrig ?_ (by simp)
    refine hb.setAcct ⟨hs.held, add_nonneg hs.funded hamount, hs.reserve, hs.no, fun h => ?_, hs.sell⟩
    have := hs.buy h
    simp only
    omega
  | withdrawn _ _ _ _ _ => exact hb.setTrig (by simp)
  | firedBuy _ ht ha _ hp _ _ =>
    have hs := hb.acct ha
    have hamount := hb.trig ht
    have hno := Int.tdiv_nonneg hamount (le_trans zero_le_one hp)
    have hcost := cost_le hamount hp
    have hfunded := hs.funded
    refine .setTrig ?_ (by simp)
    refine hb.setAcct ⟨hs.held_setHold (add_nonneg (hs.shares _) hno), ?_, hs.reserve, hs.no,
      fun h => ?_, fun h => ?_⟩
    · simp only [Account.setHold]
      omega
    · have := hs.buy h
      simp only [Account.setHold]
      omega
    · refine hs.sell_setHold h fun hst => ?_
      obtain ⟨st, n, hst', hn, hcover⟩ := hs.sell h
      obtain rfl := Option.some.inj (hst.symm.trans hst')
      simp only [Account.shares, hn, Option.getD_some]
      omega
  | firedSell he ht ha hty hp hpt ht0 hn hn0 =>
    have hs := hb.acct ha
    have hamount := hb.trig ht
    have hnum := hs.held hn
    have hno := sellNo_nonneg hnum hamount hp
    have hsale := mul_nonneg (le_trans zero_le_one hp) hno
    have hfunded := hs.funded
    refine .setTrig ?_ (by simp)
    refine hb.setAcct ⟨hs.held_setHold (sub_nonneg.mpr (sellNo_le _ _ _)), ?_, hs.reserve, hs.no,
      fun h => ?_, fun h => ?_⟩
    · simp only [Account.setHold]
      omega
    · have := hs.buy h
      simp only [Account.setHold]
      omega
    · refine hs.sell_setHold h fun hst => ?_
      have := hleaves he ht ha hty hpt ht0 hn hn0 h hst
      omega

end Move
/-! ### Runs -/

theorem LeavesPending.book {s : Server} {e : Event} (h : LeavesPending s e) : s.book.Leaves e := by
  rintro t p now tr a n rfl htr ha hty hpt ht0 hn hn0 hside hst
  obtain ⟨usr, husr, rfl⟩ := Option.map_eq_some_iff.mp ha
  obtain ⟨uso, huso, rfl⟩ := Option.map_eq_some_iff.mp hn
  have hobj : s.mem.obj t = some tr := htr
  simp only [LeavesPending, hobj, husr, huso, Option.all_some] at h
  simpa [hty, hpt, ht0, hn0, show usr.buysell = -1 from hside,
    show usr.stockObj = some tr.stockObj from hst, User.account] using h

/-- No amount of the event is read as negative, but for the -1 of a refusal. -/
def ReadAmounts (_ : Server) (e : Event) : Prop := ∀ amt ∈ e.amounts, -1 ≤ str2price id amt

/-- Every amount of the event has digits, a point and two digits. -/
def WebAmounts (_ : Server) (e : Event) : Prop := ∀ amt ∈ e.amounts, TwoPlaces amt

instance (s : Server) (e : Event) : Decidable (ReadAmounts s e) :=
  inferInstanceAs (Decidable (∀ amt ∈ e.amounts, -1 ≤ str2price id amt))

instance (s : Server) (e : Event) : Decidable (WebAmounts s e) :=
  inferInstanceAs (Decidable (∀ amt ∈ e.amounts, TwoPlaces amt))

theorem WebAmounts.read {s : Server} {e : Event} (h : WebAmounts s e) : ReadAmounts s e := by
  intro amt hmem
  have := str2price_nonneg (h amt hmem)
  omega

/-- What holds after every step: the server's own invariant, and sound books. -/
structure Server.Sound (s : Server) : Prop where
  wf : s.WF
  book : s.book.Sound

theorem step_sound {s s' : Server} {e : Event} (hs : s.Sound) (hamt : ReadAmounts s e)
    (hleaves : LeavesPending s e) (h : step id s e = some s') : s'.Sound := by
  obtain ⟨hw', _, out, hmove, _⟩ := step_steps hs.wf h
  exact ⟨hw', hmove.sound hs.book hamt (LeavesPending.book hleaves)⟩

theorem sound_init : Server.init.Sound :=
  ⟨Server.wf_init, fun h => by simp [Server.init, Server.book] at h,
    fun h => by simp [Server.init, Server.book, Mem.init] at h⟩

/-- Ten shares are bought, and offered by a sell trigger. -/
def offer : List Event :=
  [.connect aUser,
    commandAt 100000 100 "ADD" "1000.00",
    commandAt 100000 100 "BUY" "ABC,10.00",
    commandAt 100000 100 "COMMIT_BUY" none,
    commandAt 100000 100 "SET_SELL_AMOUNT" "ABC,9.00",
    commandAt 100000 100 "SET_SELL_TRIGGER" "ABC,0.50"]

/-- The trigger fires while a SELL of the same shares is pending, and the SELL is committed. -/
def offerTwice : List Event :=
  offer ++ [commandAt 100000 100 "SELL" "ABC,10.00", .examine 0 100 100000,
    commandAt 100000 100 "COMMIT_SELL" none]

/-! ### Overselling -/

/-- No holding is negative, and COMMIT_SELL would subtract no more than is held. -/
def Server.NoOversell (s : Server) : Prop :=
  ∀ u usr st uso, s.user u = some usr → getUserStock usr.usTree st = some uso →
    0 ≤ uso.num ∧ (usr.buysell = -1 → usr.stockObj = some st → usr.no ≤ uso.num)

/-- In every run in which each firing leaves the shares of a pending SELL, and no result leaves
    64 bits, nothing is oversold. -/
theorem no_overselling {es : List Event} {s : Server}
    (hamt : Along (step wrap64) ReadAmounts Server.init es)
    (hleaves : Along (step wrap64) (fun s e => LeavesPending s e) Server.init es)
    (hfits : Along (step wrap64) (Fits wrap64) Server.init es)
    (h : exec (step wrap64) Server.init es = some s) : s.NoOversell := by
  have hinv : s.Sound := by
    refine exec_inv_along (fun s e s' hs hok hstep => ?_) es Server.init s sound_init
      (along_and (along_and hamt hleaves) hfits) h
    rw [step_fits hs.wf hok.2] at hstep
    exact step_sound hs hok.1.1 hok.1.2 hstep
  intro u usr st uso husr huso
  have hsound := hinv.book.acct (Server.acct_book husr)
  have hold : usr.account.hold st = some uso.num := by simp [User.account, huso]
  refine ⟨hsound.held hold, fun hside hst => ?_⟩
  obtain ⟨st', n, hst', hn, hcover⟩ := hsound.sell hside
  obtain rfl := Option.some.inj (hst.symm.trans hst')
  obtain rfl := Option.some.inj (hold.symm.trans hn)
  exact hcover

/-- The trigger fires with no SELL pending. -/
theorem no_overselling_offer :
    ∃ s, exec (step wrap64) Server.init (offer ++ [.examine 0 100 100000]) = some s ∧
      s.NoOversell := by
  obtain ⟨s, hs⟩ : ∃ s, exec (step wrap64) Server.init (offer ++ [.examine 0 100 100000]) = some s :=
    Option.isSome_iff_exists.mp (by decide)
  exact ⟨s, hs, no_overselling (by decide) (by decide) (by decide) hs⟩

theorem offerTwice_oversells : ¬ ∀ es s, Along (step wrap64) ReadAmounts Server.init es →
    exec (step wrap64) Server.init es = some s → s.NoOversell := by
  intro h
  have hrun : ∃ s ∈ exec (step wrap64) Server.init offerTwice, ∃ usr ∈ s.user aUser,
      ∃ uso ∈ getUserStock usr.usTree stockABC, uso.num < 0 := by decide
  obtain ⟨s, hs, usr, husr, uso, huso, hneg⟩ := hrun
  exact absurd (h offerTwice s (by decide) hs _ usr _ uso husr huso).1 (not_le.mpr hneg)

/-! ### Solvency -/

/-- No balance is negative, and a pending BUY can be paid. -/
def Server.Solvent (s : Server) : Prop :=
  ∀ u usr, s.user u = some usr → 0 ≤ usr.balance ∧ (usr.buysell = 1 → usr.reserve ≤ usr.balance)

/-- In every run with web amounts in which each firing leaves the shares of a pending SELL, no balance
    is negative and every pending BUY can be paid. -/
theorem solvency {es : List Event} {s : Server}
    (hamt : Along (step id) WebAmounts Server.init es)
    (hleaves : Along (step id) (fun s e => LeavesPending s e) Server.init es)
    (h : exec (step id) Server.init es = some s) : s.Solvent := by
  have hinv : s.Sound :=
    exec_inv_along (fun _ _ _ hs hok hstep => step_sound hs hok.1.read hok.2 hstep) es Server.init s
      sound_init (along_and hamt hleaves) h
  intro u usr husr
  have hsound := hinv.book.acct (Server.acct_book husr)
  exact ⟨hsound.funded, hsound.buy⟩

/-- The trigger fires with no SELL pending. -/
theorem solvency_offer :
    ∃ s, exec (step id) Server.init (offer ++ [.examine 0 100 100000]) = some s ∧ s.Solvent := by
  obtain ⟨s, hs⟩ : ∃ s, exec (step id) Server.init (offer ++ [.examine 0 100 100000]) = some s :=
    Option.isSome_iff_exists.mp (by decide)
  exact ⟨s, hs, solvency (by decide) (by decide) hs⟩

/-- With ten shares oversold, one more SELL buys them back, at the price of that moment. -/
def buyBack : List Event :=
  offerTwice ++ [commandAt 200000 1000000 "SELL" "ABC,1.00",
    commandAt 200000 1000000 "COMMIT_SELL" none]

theorem buyBack_insolvent : ¬ ∀ es s, Along (step id) WebAmounts Server.init es →
    exec (step id) Server.init es = some s → s.Solvent := by
  intro h
  have hrun : ∃ s ∈ exec (step id) Server.init buyBack, ∃ usr ∈ s.user aUser,
      usr.balance < 0 := by decide
  obtain ⟨s, hs, usr, husr, hneg⟩ := hrun
  exact absurd (h buyBack s (by decide) hs _ usr husr).1 (not_le.mpr hneg)

end TradeC
