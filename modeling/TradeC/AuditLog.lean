import TradeC.Money
import TradeC.Priced

/-! Replaying the audit log.

    The accTrans lines of a user, added up, give the user's balance, as long as no buy trigger fires:
    SET_BUY_AMOUNT has already logged the whole amount as removed, and the firing logs its cost as
    removed again without the amount coming back. A sale of a negative number of shares is logged with
    a text that is no number. -/

namespace TradeC
open Run Decimal

/-- One accTrans line, for the running sum of user `u`; no sum when the funds are no number. -/
def replayLine (u : UserID) (sum : ℤ) (line : UserID × CStr × CStr) : Option ℤ :=
  if line.1 = u then
    (numeric line.2.2).map fun funds =>
      if line.2.1 = "add".toList then sum + funds
      else if line.2.1 = "remove".toList then sum - funds
      else sum
  else some sum

def replay (u : UserID) (lines : List (UserID × CStr × CStr)) : Option ℤ :=
  lines.foldlM (replayLine u) 0

/-- For every user, the log replays to the balance. -/
def Server.Replays (s : Server) : Prop :=
  ∀ u usr, s.user u = some usr → replay u s.accTrans = some usr.balance

/-- No buy trigger fires. -/
def NoBuyFires (s : Server) : Event → Bool
  | .examine t quotePrice _ => !s.fires t quotePrice || (s.mem.obj t).all fun tr => tr.type = .s
  | _ => true

/-! ### One move -/

/-- `NoBuyFires`, of the books. -/
def Book.NoBuyFires (b : Book) (e : Event) : Prop :=
  ∀ {t p now tr}, e = .examine t p now → b.trig t = some tr → tr.type = .b → p < tr.trig →
    tr.amount.tdiv p = 0

section Move
variable {find : UserID → StockID → TType → Option TrigID} {b b' : Book} {e : Event} {out : Output}

/-- A single line whose funds are the text of `x` cents. -/
theorem replay_line {u u' : UserID} {funds : CStr} {x : ℤ} (hx : numeric funds = some x) (action : CStr)
    (sum : ℤ) : [(u', action, funds)].foldlM (replayLine u) sum =
      some (if u' = u then
        if action = "add".toList then sum + x else if action = "remove".toList then sum - x else sum
      else sum) := by
  rw [List.foldlM_cons, replayLine, hx]
  by_cases hu : u' = u
  · rw [if_pos hu, if_pos hu]
    rfl
  · rw [if_neg hu, if_neg hu]
    rfl

theorem replay_add {u u' : UserID} {funds : CStr} {x : ℤ} (hx : numeric funds = some x) (sum : ℤ) :
    [(u', "add".toList, funds)].foldlM (replayLine u) sum =
      some (sum + if u' = u then x else 0) := by
  rw [replay_line hx, if_pos rfl]
  split_ifs
  · rfl
  · rw [add_zero]

theorem replay_remove {u u' : UserID} {funds : CStr} {x : ℤ} (hx : numeric funds = some x) (sum : ℤ) :
    [(u', "remove".toList, funds)].foldlM (replayLine u) sum =
      some (sum - if u' = u then x else 0) := by
  have hne : "remove".toList ≠ "add".toList := by decide
  rw [replay_line hx, if_neg hne, if_pos rfl]
  split_ifs
  · rfl
  · rw [sub_zero]

/-- What a move logs takes the old balance to the new one. -/
theorem Move.replay (h : Move find b e out b') (hb : b.Priced)
    (hweb : ∀ amt ∈ e.amounts, TwoPlaces amt) (hok : b.SalesCovered e) (hbuy : b.NoBuyFires e)
    (u : UserID) :
    out.logs.foldlM (replayLine u) (b.balance u) = some (b'.balance u) := by
  cases h with
  | idle => rfl
  | @opened u₀ _ hu =>
    have hbal : b.balance u₀ = 0 := by simp [Book.balance, hu]
    simp [b.balance_setAcct hbal, Account.new]
  | added he ha _ =>
    rw [replay_add (str2price_twoPlaces (hweb _ he.mem_amounts_add)),
      b.balance_setAcct (b.balance_of_acct ha), add_sub_cancel_left]
  | orderedBuy _ ha _ _ _ _ _ => simp [b.balance_setAcct (b.balance_of_acct ha), Output.none]
  | orderedSell _ ha _ _ _ _ _ => simp [b.balance_setAcct (b.balance_of_acct ha), Output.none]
  | cleared ha => simp [b.balance_setAcct (b.balance_of_acct ha), Output.none, Account.clear]
  | bought _ ha hside _ =>
    rw [replay_remove (numeric_price2str ((hb.acct ha).reserve hside)),
      b.balance_setAcct (b.balance_of_acct ha)]
    simp only [Account.clear, Account.setHold]
    split_ifs <;> simp [sub_eq_add_neg]
  | sold he ha hside _ _ =>
    rw [replay_add (numeric_price2str (hok.sold he ha hside)),
      b.balance_setAcct (b.balance_of_acct ha)]
    simp only [Account.clear, Account.setHold, add_sub_cancel_left]
  | setBuy he ha _ _ _ _ _ =>
    rw [replay_remove (str2price_twoPlaces (hweb _ (he.mem_amounts (by simp)))),
      Book.balance_setTrig, b.balance_setAcct (b.balance_of_acct ha)]
    split_ifs <;> simp [sub_eq_add_neg]
  | setSell _ _ _ _ _ _ _ => rfl
  | priced _ _ _ _ _ _ => rfl
  | refunded _ ha _ ht _ _ =>
    rw [replay_add (numeric_price2str (hb.trig ht)), Book.balance_setTrig,
      b.balance_setAcct (b.balance_of_acct ha), add_sub_cancel_left]
  | withdrawn _ _ _ _ _ => rfl
  | firedBuy he ht _ hty _ hpt hno => exact absurd (hbuy he ht hty hpt) hno
  | firedSell he ht ha hty hp hpt ht0 hn hn0 =>
    have hsale := mul_nonneg (le_trans zero_le_one hp)
      (sellNo_nonneg (hok.fired he ht ha hty hpt ht0 hn hn0) (hb.trig ht) hp)
    rw [replay_add (numeric_price2str hsale), Book.balance_setTrig,
      b.balance_setAcct (b.balance_of_acct ha)]
    simp only [Account.setHold, add_sub_cancel_left]

end Move

/-! ### Runs -/

theorem NoBuyFires.book {s : Server} {e : Event} (h : NoBuyFires s e) : s.book.NoBuyFires e := by
  rintro t p now tr rfl htr hty hpt
  have hobj : s.mem.obj t = some tr := htr
  simpa [TradeC.NoBuyFires, Server.fires, hobj, hty, hpt] using h

/-- The invariant of the replay. -/
structure Server.Replayed (s : Server) : Prop where
  wf : s.WF
  priced : s.book.Priced
  replay : ∀ u, replay u s.accTrans = some (s.book.balance u)

theorem replayed_init : Server.init.Replayed := ⟨Server.wf_init, priced_init, fun _ => rfl⟩

theorem step_replayed {s s' : Server} {e : Event} (hs : s.Replayed) (hweb : WebAmounts s e)
    (hok : SalesCovered s e) (hbuy : NoBuyFires s e) (h : step id s e = some s') :
    s'.Replayed := by
  obtain ⟨hw', _, out, hmove, hlogs, _⟩ := step_steps hs.wf h
  refine ⟨hw', hmove.priced_of hs.priced hweb.read (SalesCovered.book hok), fun u => ?_⟩
  rw [hlogs, TradeC.replay, List.foldlM_append]
  have := hs.replay u
  rw [TradeC.replay] at this
  rw [this]
  exact hmove.replay hs.priced hweb (SalesCovered.book hok) (NoBuyFires.book hbuy) u

/-- In every run with two-decimal amounts in which no buy trigger fires and no negative sale is
    settled, and no result leaves 64 bits, the log replays to the balances. -/
theorem log_replays {es : List Event} {s : Server}
    (hweb : Along (step wrap64) WebAmounts Server.init es)
    (hok : Along (step wrap64) (fun s e => SalesCovered s e) Server.init es)
    (hbuy : Along (step wrap64) (fun s e => NoBuyFires s e) Server.init es)
    (hfits : Along (step wrap64) (Fits wrap64) Server.init es)
    (h : exec (step wrap64) Server.init es = some s) : s.Replays := by
  have hinv : s.Replayed := by
    refine exec_inv_along (fun s e s' hs hok hstep => ?_) es Server.init s replayed_init
      (along_and (along_and hweb (along_and hok hbuy)) hfits) h
    rw [step_fits hs.wf hok.2] at hstep
    exact step_replayed hs hok.1.1 hok.1.2.1 hok.1.2.2 hstep
  intro u usr husr
  rw [hinv.replay u, Book.balance_of_acct _ (Server.acct_book husr)]
  rfl

/-- A sell trigger fires. -/
theorem log_replays_offer :
    ∃ s, exec (step wrap64) Server.init (offer ++ [.examine 0 100 100000]) = some s ∧ s.Replays := by
  obtain ⟨s, hs⟩ : ∃ s, exec (step wrap64) Server.init (offer ++ [.examine 0 100 100000]) = some s :=
    Option.isSome_iff_exists.mp (by decide)
  exact ⟨s, hs, log_replays (by decide) (by decide) (by decide) (by decide) hs⟩

/-- A buy trigger fires: 95.50 are left of 100.00, and the log says 90.50. -/
theorem escrowAndFire_replays_less : ¬ ∀ es s, Along (step wrap64) WebAmounts Server.init es →
    exec (step wrap64) Server.init es = some s → s.Replays := by
  intro h
  have hrun : ∃ s ∈ exec (step wrap64) Server.init escrowAndFire, ∃ usr ∈ s.user aUser,
      replay aUser s.accTrans ≠ some usr.balance := by decide
  obtain ⟨s, hs, usr, husr, hne⟩ := hrun
  exact hne (h escrowAndFire s (by decide) hs _ usr husr)

end TradeC
