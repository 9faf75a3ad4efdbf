import TradeC.Solvency

/-! The sums that the server writes are not negative, as long as no negative sale is settled.

    `price2str` writes a negative sum as a text that is no number, unless it is one of whole dollars. Balances,
    the reserve of a pending BUY and the amounts of triggers are never negative, even with a negative holding,
    until a sale of a negative number of shares is settled; this is all that the log and the tables need. -/

namespace TradeC

/-- No sale that is settled is negative. -/
def SalesCovered (s : Server) : Event → Bool
  | .command c commStr =>
    !(c.userCmd = "COMMIT_SELL".toList && delimSepNoCpy commStr ',' = []) ||
      (s.user c.userID).all fun usr => usr.buysell ≠ -1 || 0 ≤ usr.reserve
  | .examine t quotePrice _ =>
    !s.fires t quotePrice ||
      (s.mem.obj t).all fun tr => tr.type = .b ||
        (s.user tr.userObj).all fun usr =>
          (getUserStock usr.usTree tr.stockObj).all fun uso => 0 ≤ uso.num
  | _ => true

/-- `SalesCovered`, of the books. -/
structure Book.SalesCovered (b : Book) (e : Event) : Prop where
  sold : ∀ {c a}, e.Is c "COMMIT_SELL" [] → b.acct c.userID = some a → a.buysell = -1 → 0 ≤ a.reserve
  fired : ∀ {t p now tr a n}, e = .examine t p now → b.trig t = some tr →
    b.acct tr.userObj = some a → tr.type = .s → tr.trig < p → tr.trig ≠ 0 →
    a.hold tr.stockObj = some n → n ≠ 0 → 0 ≤ n

theorem SalesCovered.book {s : Server} {e : Event} (h : SalesCovered s e) :
    s.book.SalesCovered e where
  sold {c a} he ha hside := by
    obtain ⟨comm, rfl, hcmd, hcomm⟩ := he
    obtain ⟨usr, husr, rfl⟩ := Option.map_eq_some_iff.mp ha
    have hside' : usr.buysell = -1 := hside
    simpa [TradeC.SalesCovered, hcmd, hcomm, husr, hside', User.account] using h
  fired {t p now tr a n} he htr ha hty hpt ht0 hn hn0 := by
    subst he
    obtain ⟨usr, husr, rfl⟩ := Option.map_eq_some_iff.mp ha
    obtain ⟨uso, huso, rfl⟩ := Option.map_eq_some_iff.mp hn
    have hobj : s.mem.obj t = some tr := htr
    simpa [TradeC.SalesCovered, Server.fires, hobj, hty, hpt, ht0, husr, huso, hn0] using h

structure Account.Priced (a : Account) : Prop where
  funded : 0 ≤ a.balance
  reserve : a.buysell = 1 → 0 ≤ a.reserve
  buy : a.buysell = 1 → a.reserve ≤ a.balance

structure Book.Priced (b : Book) : Prop where
  acct : ∀ {u a}, b.acct u = some a → a.Priced
  trig : ∀ {t tr}, b.trig t = some tr → 0 ≤ tr.amount
  price : ∀ {t tr}, b.trig t = some tr → 0 ≤ tr.trig

namespace Book.Priced
variable {b : Book} (hb : b.Priced)
include hb

theorem setAcct {u : UserID} {a : Account} (ha : a.Priced) : (b.setAcct u a).Priced where
  acct {u' a'} h := by
    by_cases hu : u' = u
    · subst hu
      simp only [Book.setAcct, Function.update_self, Option.some.injEq] at h
      exact h ▸ ha
    · exact hb.acct (by simpa [Book.setAcct, hu] using h)
  trig h := hb.trig h
  price h := hb.price h

theorem setTrig {t : TrigID} {tr? : Option Trigger}
    (htr : ∀ tr ∈ tr?, 0 ≤ tr.amount ∧ 0 ≤ tr.trig) : (b.setTrig t tr?).Priced := by
  have hall : ∀ {t' tr'}, (b.setTrig t tr?).trig t' = some tr' → 0 ≤ tr'.amount ∧ 0 ≤ tr'.trig := by
    intro t' tr' h
    by_cases ht : t' = t
    · subst ht
      exact htr tr' (by simpa [Book.setTrig] using h)
    · have h' : b.trig t' = some tr' := by simpa [Book.setTrig, ht] using h
      exact ⟨hb.trig h', hb.price h'⟩
  exact ⟨fun h => hb.acct h, fun h => (hall h).1, fun h => (hall h).2⟩

end Book.Priced

/-- A higher balance does no harm. -/
theorem Account.Priced.raise {a : Account} (ha : a.Priced) {x : ℤ} (hx : a.balance ≤ x)
    (hold : StockID → Option ℤ) : ({ a with balance := x, hold := hold } : Account).Priced :=
  ⟨ha.funded.trans hx, ha.reserve, fun h => (ha.buy h).trans hx⟩

theorem Account.Priced.clear {a : Account} (h : 0 ≤ a.balance) : a.clear.Priced :=
  ⟨h, fun h => by simp [Account.clear] at h, fun h => by simp [Account.clear] at h⟩

theorem Move.priced_of {find : UserID → StockID → TType → Option TrigID} {b b' : Book} {e : Event}
    {out : Output} (h : Move find b e out b') (hb : b.Priced)
    (hamt : ∀ amt ∈ e.amounts, -1 ≤ str2price id amt) (hok : b.SalesCovered e) : b'.Priced := by
  have hread : ∀ {amt}, amt ∈ e.amounts → str2price id amt ≠ -1 → 0 ≤ str2price id amt :=
    fun hmem hne => by have := hamt _ hmem; omega
  cases h with
  | idle => exact hb
  | opened _ _ =>
    exact hb.setAcct ⟨le_rfl, fun h => by simp [Account.new] at h, fun h => by simp [Account.new] at h⟩
  | added he ha hprc =>
    have hpos := hread he.mem_amounts_add hprc
    exact hb.setAcct ((hb.acct ha).raise (by omega) _)
  | orderedBuy he ha hprc _ hbal hq _ =>
    have hpos := hread (he.mem_amounts (by simp)) hprc
    have hno := Int.tdiv_nonneg hpos (le_trans zero_le_one hq)
    exact hb.setAcct ⟨(hb.acct ha).funded, fun _ => mul_nonneg (le_trans zero_le_one hq) hno,
      fun _ => (cost_le hpos hq).trans hbal⟩
  | orderedSell _ ha _ _ _ _ _ =>
    exact hb.setAcct ⟨(hb.acct ha).funded, fun h => by simp at h, fun h => by simp at h⟩
  | cleared ha => exact hb.setAcct (.clear (hb.acct ha).funded)
  | bought _ ha hside _ => exact hb.setAcct (.clear (sub_nonneg.mpr ((hb.acct ha).buy hside)))
  | sold he ha hside _ _ =>
    exact hb.setAcct (.clear (add_nonneg (hb.acct ha).funded (hok.sold he ha hside)))
  | setBuy he ha hprc hidle hbal _ _ =>
    refine .setTrig ?_ (by simpa using hread (he.mem_amounts (by simp)) hprc)
    exact hb.setAcct ⟨sub_nonneg.mpr hbal, fun h => by simp [hidle] at h, fun h => by simp [hidle] at h⟩
  | setSell he _ hprc _ _ _ _ =>
    exact hb.setTrig (by simpa using hread (he.mem_amounts (by simp)) hprc)
  | priced he hname hprc _ ht _ =>
    have hpos := hread (he.mem_amounts (by rw [hname]; split <;> simp)) hprc
    exact hb.setTrig (by simpa using ⟨hb.trig ht, hpos⟩)
  | refunded _ ha _ ht _ _ =>
    have hamount := hb.trig ht
    refine .setTrig ?_ (by simp)
    exact hb.setAcct ((hb.acct ha).raise (by omega) _)
  | withdrawn _ _ _ _ _ => exact hb.setTrig (by simp)
  | firedBuy _ ht ha _ hp _ _ =>
    have hcost := cost_le (hb.trig ht) hp
    refine .setTrig ?_ (by simp)
    exact hb.setAcct ((hb.acct ha).raise (by dsimp only; omega) _)
  | firedSell he ht ha hty hp hpt ht0 hn hn0 =>
    have hsale := mul_nonneg (le_trans zero_le_one hp)
      (sellNo_nonneg (hok.fired he ht ha hty hpt ht0 hn hn0) (hb.trig ht) hp)
    refine .setTrig ?_ (by simp)
    exact hb.setAcct ((hb.acct ha).raise (le_add_of_nonneg_right hsale) _)

theorem priced_init : Server.init.book.Priced :=
  ⟨fun h => by simp [Server.init, Server.book] at h,
    fun h => by simp [Server.init, Server.book, Mem.init] at h,
    fun h => by simp [Server.init, Server.book, Mem.init] at h⟩

end TradeC
