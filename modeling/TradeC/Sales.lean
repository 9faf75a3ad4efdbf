import TradeC.Trades
import TradeC.Money
import TradeC.WellFormed

/-! How many shares a sale sells.

    SELL and a firing both divide the amount by the price and add one. That rounds up, except where
    the price divides the amount: then one share more is sold than the amount needs. -/

namespace TradeC
open Run Server

/-- A sale as the amount `a` needs it at the price `p`: of the `h` shares held, the least number that
    brings in `a`; where `h` is enough, for at least `a` and for less than one share more. -/
def JustEnough (a p h sold proceeds : ℤ) : Prop :=
  ∃ n, IsLeast {n : ℤ | a ≤ n * p} n ∧ sold = min h n ∧ (n ≤ h → a ≤ proceeds ∧ proceeds < a + p)

/-- The amount is no multiple of the price, or no more shares are held than it needs; and the shares
    and what they bring in fit. -/
structure RoundsUp (a p h : ℤ) : Prop where
  multiple : p ∣ a → h ≤ a / p
  shares : a / p + 1 < 2 ^ 63
  proceeds : a / p < h → p * (a / p + 1) < 2 ^ 63

/-- The shares of a stock that a user holds. -/
def Server.held (s : Server) (u : UserID) (st : StockID) : Option ℤ :=
  (s.user u).bind fun usr => (getUserStock usr.usTree st).map UserStock.num

/-- From `s` to `s'` the user sells `sold` of `h` shares for `proceeds`. -/
structure Server.Sells (s s' : Server) (u : UserID) (st : StockID) (h sold proceeds : ℤ) : Prop where
  before : s.held u st = some h
  after : s'.held u st = some (h - sold)
  settled : ∃ x, s'.settled = s.settled ++ [(u, x)] ∧ x.money = proceeds

/-! ### Rounding -/

section Rounding
variable {a p h : ℤ}

theorem isLeast_shares (hp : 1 ≤ p) (a : ℤ) :
    IsLeast {n : ℤ | a ≤ n * p} (if p ∣ a then a / p else a / p + 1) := by
  have hpos : 0 < p := by omega
  split_ifs with hdvd
  · refine ⟨(Int.ediv_mul_cancel hdvd).ge, fun m hm => ?_⟩
    have hle : a / p * p ≤ m * p := by rwa [Int.ediv_mul_cancel hdvd]
    exact le_of_mul_le_mul_right hle hpos
  · refine ⟨(Int.lt_ediv_add_one_mul_self a hpos).le, fun m hm => ?_⟩
    have hne : a ≠ m * p := fun heq => hdvd ⟨m, by rw [heq, mul_comm]⟩
    have hlt : a / p < m := Int.ediv_lt_of_lt_mul hpos (lt_of_le_of_ne hm hne)
    omega

theorem justEnough_iff (hp : 1 ≤ p) {sold proceeds : ℤ} : JustEnough a p h sold proceeds ↔
    sold = min h (if p ∣ a then a / p else a / p + 1) ∧
      ((if p ∣ a then a / p else a / p + 1) ≤ h → a ≤ proceeds ∧ proceeds < a + p) := by
  have hleast := isLeast_shares hp a
  constructor
  · rintro ⟨n, hn, hsold, hproc⟩
    rw [hleast.unique hn]
    exact ⟨hsold, hproc⟩
  · rintro ⟨hsold, hproc⟩
    exact ⟨_, hleast, hsold, hproc⟩

theorem wrap64_of_ge {x : ℤ} (hlo : 2 ^ 63 ≤ x) (hhi : x < 2 ^ 64) : wrap64 x = x - 2 ^ 64 := by
  unfold wrap64 Int.bmod
  rw [Int.emod_eq_of_lt (by omega) (by omega)]
  norm_num
  omega

/-- A product that wraps does not come out between `a` and `a + p`. -/
theorem wrap64_between {x : ℤ} (ha : 0 < a) (hlo : a ≤ x) (hhi : x < a + p) (hfit : a + p ≤ 2 ^ 64) :
    (a ≤ wrap64 x ∧ wrap64 x < a + p) ↔ x < 2 ^ 63 := by
  constructor
  · rintro ⟨hw, -⟩
    by_contra hx
    rw [wrap64_of_ge (by omega) (by omega)] at hw
    omega
  · intro hx
    rw [(wrap64_eq_iff x).mpr ⟨by omega, hx⟩]
    exact ⟨hlo, hhi⟩

theorem sellShares_fits (hq : wrap64 (a.tdiv p + 1) = a.tdiv p + 1) :
    sellShares wrap64 h a p = min h (a.tdiv p + 1) := by
  rw [sellShares, hq]
  split_ifs <;> omega

/-- A quotient that is one below the greatest number makes the sale negative. -/
theorem sellShares_wraps (hh : 1 ≤ h) (hq : a.tdiv p + 1 = 2 ^ 63) :
    sellShares wrap64 h a p = -2 ^ 63 := by
  have hwrap : wrap64 (2 ^ 63) = -2 ^ 63 := by decide
  rw [sellShares, hq, hwrap, if_neg (by omega)]

variable (ha : 0 < a) (hp : 1 ≤ p) (hh : 1 ≤ h) (haw : wrap64 a = a) (hpw : wrap64 p = p)
  (hhw : wrap64 h = h)
include ha hp hh haw hpw hhw

omit hh hhw in
theorem justEnough_fits (hq : a / p + 1 < 2 ^ 63) :
    JustEnough a p h (min h (a / p + 1)) (wrap64 (p * min h (a / p + 1))) ↔ RoundsUp a p h := by
  have hpos : 0 < p := by omega
  have ha63 := ((wrap64_eq_iff a).mp haw).2
  have hp63 := ((wrap64_eq_iff p).mp hpw).2
  rw [justEnough_iff hp]
  by_cases hdvd : p ∣ a
  · rw [if_pos hdvd]
    have hmul : p * (a / p) = a := Int.mul_ediv_cancel' hdvd
    constructor
    · rintro ⟨hsold, -⟩
      exact ⟨fun _ => by omega, hq, fun hlt => by omega⟩
    · intro hr
      have hle := hr.multiple hdvd
      refine ⟨by omega, fun hge => ?_⟩
      rw [show min h (a / p + 1) = a / p by omega, hmul, haw]
      omega
  · rw [if_neg hdvd]
    have hlo : a < p * (a / p + 1) := mul_comm p _ ▸ Int.lt_ediv_add_one_mul_self a hpos
    have hhi : p * (a / p + 1) ≤ a + p := by linarith [Int.mul_ediv_self_le (x := a) hpos.ne']
    have hne : p * (a / p + 1) ≠ a + p := fun heq => hdvd ⟨a / p, by linarith⟩
    have hwrap := wrap64_between ha hlo.le (lt_of_le_of_ne hhi hne) (by omega)
    constructor
    · rintro ⟨-, hproc⟩
      refine ⟨fun h => absurd h hdvd, hq, fun hlt => hwrap.mp ?_⟩
      have := hproc (by omega)
      rwa [min_eq_right (by omega)] at this
    · intro hr
      refine ⟨rfl, fun hge => ?_⟩
      rw [min_eq_right hge]
      exact hwrap.mpr (hr.proceeds (by omega))

/-- What both places sell, and what is left of the holding. -/
theorem sale_iff :
    JustEnough a p h (h - wrap64 (h - sellShares wrap64 h a p))
      (wrap64 (p * sellShares wrap64 h a p)) ↔ RoundsUp a p h := by
  have hdiv : a.tdiv p = a / p := Int.tdiv_eq_ediv_of_nonneg ha.le
  have hnonneg : 0 ≤ a / p := Int.ediv_nonneg ha.le (by omega)
  have hle : a / p ≤ a := Int.ediv_le_self p ha.le
  have ha63 := ((wrap64_eq_iff a).mp haw).2
  have hh63 := ((wrap64_eq_iff h).mp hhw).2
  by_cases hq : a / p + 1 < 2 ^ 63
  · have hshares := sellShares_fits (h := h) (hdiv.symm ▸ (wrap64_eq_iff _).mpr ⟨by omega, hq⟩)
    rw [hdiv] at hshares
    have hleft : wrap64 (h - min h (a / p + 1)) = h - min h (a / p + 1) :=
      (wrap64_eq_iff _).mpr ⟨by omega, by omega⟩
    rw [hshares, hleft, sub_sub_cancel]
    exact justEnough_fits ha hp haw hpw hq
  · have hshares := sellShares_wraps (a := a) (p := p) hh (by omega)
    rw [hshares, wrap64_of_ge (by omega) (by omega)]
    constructor
    · rintro ⟨n, -, hsold, -⟩
      omega
    · intro hr
      exact absurd hr.shares hq

end Rounding

/-! ### Sales -/

theorem held_of {s : Server} {u : UserID} {st : StockID} {usr : User} {uso : UserStock}
    (husr : s.user u = some usr) (huso : getUserStock usr.usTree st = some uso) :
    s.held u st = some uso.num := by
  simp [Server.held, husr, huso]

theorem of_held {s : Server} {u : UserID} {st : StockID} {h : ℤ} (hs : s.held u st = some h) :
    ∃ usr uso, s.user u = some usr ∧ getUserStock usr.usTree st = some uso ∧ uso.num = h := by
  obtain ⟨usr, husr, hget⟩ := Option.bind_eq_some_iff.mp hs
  obtain ⟨uso, huso, hnum⟩ := Option.map_eq_some_iff.mp hget
  exact ⟨usr, uso, husr, huso, hnum⟩

/-- A step that leaves a record with less of a stock, and settles one sale, sells. -/
theorem Server.Effect.sells {s s' : Server} {u : UserID} {st : StockID} {usr usr' : User}
    {uso : UserStock} {m' : Mem} {x : Settlement} {req : List Stmt} {n : ℤ} (hw : s.WF)
    (husr : s.user u = some usr) (huso : getUserStock usr.usTree st = some uso)
    (hleft : usr'.usTree = setNum usr.usTree st uso n)
    (heff : s.Effect s' u usr' m' [(u, x)] req) :
    s.Sells s' u st uso.num (uso.num - n) x.money where
  before := held_of husr huso
  after := by
    have hget := (getUserStock_setNum (hw.us husr) huso n).2 st
    rw [if_pos rfl, ← hleft] at hget
    rw [held_of heff.at hget, sub_sub_cancel]
  settled := ⟨x, heff.settled, rfl⟩

section Sales
variable {s : Server} {u : UserID} {st : StockID} {a p h : ℤ}

/-- A SELL of a user without an order, committed in time. -/
def SoldByHand (s : Server) (u : UserID) (st : StockID) (a p : ℤ) (es : List Event) : Prop :=
  s.ByHand wrap64 "SELL" "COMMIT_SELL" u st a p es ∧ s.buysell u = 0

/-- A sell trigger that fires. -/
def SoldByTrigger (s : Server) (u : UserID) (st : StockID) (a p : ℤ) (es : List Event) : Prop :=
  ∃ t tr now, es = [.examine t p now] ∧ s.mem.obj t = some tr ∧ tr.type = .s ∧ tr.trig ≠ 0 ∧
    tr.trig < p ∧ tr.userObj = u ∧ tr.stockObj = st ∧ tr.amount = a

theorem sells_byHand (hw : s.WF) (hp : 1 ≤ p) (hh : h ≠ 0) (hheld : s.held u st = some h)
    {es : List Event} (hes : SoldByHand s u st a p es) :
    ∃ s', exec (step wrap64) s es = some s' ∧
      s.Sells s' u st h (h - wrap64 (h - sellShares wrap64 h a p))
        (wrap64 (p * sellShares wrap64 h a p)) := by
  obtain ⟨⟨c, c', e, e', rfl, he, he', rfl, hc, hprice, htime⟩, hidle⟩ := hes
  obtain ⟨usr, uso, husr, huso, rfl⟩ := of_held hheld
  rw [buysell_eq husr] at hidle
  obtain ⟨s', hs', heff⟩ := exec_sell he he' hc husr hidle huso hh hprice hp htime
  exact ⟨s', hs', heff.sells hw husr huso rfl⟩

theorem sells_byTrigger (hw : s.WF) (hh : h ≠ 0) (hheld : s.held u st = some h)
    {es : List Event} (hes : SoldByTrigger s u st a p es) {s' : Server}
    (hs' : exec (step wrap64) s es = some s') :
    s.Sells s' u st h (h - wrap64 (h - sellShares wrap64 h a p))
      (wrap64 (p * sellShares wrap64 h a p)) := by
  obtain ⟨t, tr, now, rfl, htr, hty, hzero, hpt, rfl, rfl, rfl⟩ := hes
  obtain ⟨usr, uso, husr, huso, rfl⟩ := of_held hheld
  obtain ⟨s₁, hs₁, hrun⟩ := exec_cons_some hs'
  obtain rfl : s₁ = s' := Option.some.inj hrun
  have hs := hs₁
  simp only [step] at hs
  split_ifs at hs with hguard
  have hlinked : ∃ st ∈ s.stocks, t ∈ s.mem.linked st := by simpa using hguard.2
  cases hrem : s.mem.removeTrigger t with
  | none =>
    simp only [Sweep.examine, htr, husr, Option.bind_some, hty, gt_iff_lt, if_pos (And.intro hpt hzero),
      Sweep.fireSell, huso, if_neg hh, consume] at hs
    simp only [lenq, settle, setUser, hrem, Option.map_none, reduceCtorEq] at hs
  | some r =>
    obtain ⟨s₂, hs₂, heff⟩ := step_fireSell (w := wrap64) now htr husr hlinked hty hguard.1 hpt
      hzero huso hh hrem
    obtain rfl : s₁ = s₂ := Option.some.inj (hs₁.symm.trans hs₂)
    exact heff.sells hw husr huso rfl

end Sales

/-- In every state of a run, a SELL and a firing of a sell trigger sell just enough shares exactly
    where rounding up does. -/
theorem sells_just_enough {es : List Event} {s : Server}
    (hrun : exec (step wrap64) Server.init es = some s) {u : UserID} {st : StockID} {a p h : ℤ}
    (ha : 0 < a) (hp : 1 ≤ p) (hh : 1 ≤ h) (hlong : wrap64 a = a ∧ wrap64 p = p ∧ wrap64 h = h)
    (hheld : s.held u st = some h) :
    (∀ es', SoldByHand s u st a p es' → ∃ s' sold proceeds, exec (step wrap64) s es' = some s' ∧
      s.Sells s' u st h sold proceeds ∧ (JustEnough a p h sold proceeds ↔ RoundsUp a p h)) ∧
    (∀ es' s', SoldByTrigger s u st a p es' → exec (step wrap64) s es' = some s' →
      ∃ sold proceeds, s.Sells s' u st h sold proceeds ∧
        (JustEnough a p h sold proceeds ↔ RoundsUp a p h)) := by
  have hiff := sale_iff ha hp hh hlong.1 hlong.2.1 hlong.2.2
  have hne : h ≠ 0 := by omega
  refine ⟨fun es' hes => ?_, fun es' s' hes hs' => ?_⟩
  · obtain ⟨s', hs', hsells⟩ := sells_byHand (exec_wf hrun) hp hne hheld hes
    exact ⟨s', _, _, hs', hsells, hiff⟩
  · exact ⟨_, _, sells_byTrigger (exec_wf hrun) hne hheld hes hs', hiff⟩

/-- Twenty shares are bought for a dollar each. -/
def twentyShares : List Event :=
  [.connect aUser,
    commandAt 100000 100 "ADD" "1000.00",
    commandAt 100000 100 "BUY" "ABC,20.00",
    commandAt 100000 100 "COMMIT_BUY" none]

/-- An order for an amount, and its commit. -/
def tradeFor (order commit : String) (amt : String) : List Event :=
  [commandAt 100000 100 order ("ABC," ++ amt), commandAt 100000 100 commit none]

def sellFor (amt : String) : List Event := tradeFor "SELL" "COMMIT_SELL" amt

theorem twentyShares_held : ∃ s ∈ exec (step wrap64) Server.init twentyShares,
    s.held aUser stockABC = some 20 ∧ s.buysell aUser = 0 ∧
      (s.stock stockABC).price = 100 ∧ (s.stock stockABC).ts = 100000 ∧
      ∃ s' ∈ exec (step wrap64) s (sellFor "10.00"), s'.held aUser stockABC = some 9 := by
  decide +kernel

theorem byHand_tradeFor {s : Server} (hprice : (s.stock stockABC).price = 100)
    (hts : (s.stock stockABC).ts = 100000) (order commit : String) {amt : String} {a : ℤ}
    (hf : delimSepNoCpy (some ("ABC," ++ amt).toList) ',' = ["ABC".toList, amt.toList])
    (ha : str2price wrap64 amt.toList = a) (hne : a ≠ -1) :
    s.ByHand wrap64 order commit aUser stockABC a 100 (tradeFor order commit amt) := by
  have hquote : ∀ c : Cmd, c.now = 100000 → s.quoteFor c stockABC = s.stock stockABC := by
    intro c hc
    simp [quoteFor, freshQuote, hts, hc, quoteTo]
  refine ⟨_, _, _, _, rfl, ⟨_, _, ⟨_, rfl, rfl, hf⟩, by decide, ha, hne⟩, ⟨_, rfl, rfl, rfl⟩, rfl, rfl,
    ?_, ?_⟩
  · rw [hquote _ rfl, hprice]
  · rw [hquote _ rfl, hts]
    exact sub_nonpos.mpr (by decide : (100000 : ℤ) ≤ 100000) |>.trans (by decide)

/-- Ten dollars and a half are eleven shares. -/
theorem sells_just_enough_eleven : ∃ s s' sold proceeds,
    exec (step wrap64) Server.init twentyShares = some s ∧
      exec (step wrap64) s (sellFor "10.50") = some s' ∧
      s.Sells s' aUser stockABC 20 sold proceeds ∧ JustEnough 1050 100 20 sold proceeds := by
  obtain ⟨s, hs, hheld, hidle, hprice, hts, -⟩ := twentyShares_held
  have hsell : SoldByHand s aUser stockABC 1050 100 (sellFor "10.50") :=
    ⟨byHand_tradeFor hprice hts _ _ (by decide) (by decide) (by decide), hidle⟩
  obtain ⟨s', sold, proceeds, hs', hsells, hiff⟩ := (sells_just_enough hs (by decide) (by decide)
    (by decide) ⟨by decide, by decide, by decide⟩ hheld).1 _ hsell
  exact ⟨s, s', sold, proceeds, hs, hs', hsells, hiff.mpr ⟨by decide, by decide, by decide⟩⟩

/-- Ten dollars are ten shares, and eleven are sold. -/
theorem tenDollars_sells_eleven : ¬ ∀ es s, exec (step wrap64) Server.init es = some s →
    ∀ u st a p h, 0 < a → 1 ≤ p → 1 ≤ h → wrap64 a = a ∧ wrap64 p = p ∧ wrap64 h = h →
      s.held u st = some h → ∀ es', SoldByHand s u st a p es' → ∃ s' sold proceeds,
        exec (step wrap64) s es' = some s' ∧ s.Sells s' u st h sold proceeds ∧
          JustEnough a p h sold proceeds := by
  intro hall
  obtain ⟨s, hs, hheld, hidle, hprice, hts, s₁, hs₁, hheld₁⟩ := twentyShares_held
  have hsell : SoldByHand s aUser stockABC 1000 100 (sellFor "10.00") :=
    ⟨byHand_tradeFor hprice hts _ _ (by decide) (by decide) (by decide), hidle⟩
  obtain ⟨s', sold, proceeds, hs', hsells, henough⟩ := hall _ s hs aUser stockABC 1000 100 20
    (by decide) (by decide) (by decide) ⟨by decide, by decide, by decide⟩ hheld _ hsell
  obtain rfl : s₁ = s' := Option.some.inj (hs₁.symm.trans hs')
  have hsold := hsells.after
  rw [hheld₁, Option.some.injEq] at hsold
  have hten := ((justEnough_iff (by decide)).mp henough).1
  rw [if_pos (by decide)] at hten
  omega

end TradeC
