import TradeC.Trades

/-! The quotes of orders, and the triggers that a price fires.

    BUY and SELL answer with the quote that their order is made with. COMMIT looks at the time of its order,
    and a trigger that is examined is fired or left, by the price and by what its user holds. -/

namespace TradeC.Stale
open Server

/-! ### Orders -/

/-- The price and the time that BUY and SELL answer, after the number of shares. -/
def orderReply : List ℤ → Option Quote
  | [_, price, ts] => some ⟨price, ts⟩
  | _ => none

/-- The quote of an order that is made. -/
def ordered (c : Cmd) : Reply → Option Quote
  | .succ data => if c.userCmd = "BUY".toList ∨ c.userCmd = "SELL".toList then orderReply data else none
  | _ => none

section
variable {w : ℤ → ℤ} {s : Server} {c : Cmd} {cUser : User}

theorem ordered_eq_none (h : ¬ (c.userCmd = "BUY".toList ∨ c.userCmd = "SELL".toList)) (reply : Reply) :
    ordered c reply = none := by
  cases reply with
  | succ data => rw [ordered, if_neg h]
  | fail => rfl
  | badcmd => rfl
  | summary => rfl

theorem ordered_refused {reply : Reply} (h : reply.refused) : ordered c reply = none := by
  cases reply with
  | succ => cases h
  | fail => rfl
  | badcmd => rfl
  | summary => rfl

/-- What a command leaves of the order of its user if it makes none: the order, or no order. -/
def Leaves (s : Server) (c : Cmd) (cUser : User) (r : Server × Reply) : Prop :=
  s.Writes c.userID True (fun usr' => cUser.SameOrder usr' ∨ usr'.buysell = 0) r.1

variable {r : Server × Reply}

theorem leaves_spares (h : Spares s c cUser r) : Leaves s c cUser r :=
  h.mono id fun _ => .inl

theorem leaves_clears {side : ℤ} (h : Clears s c cUser side r) : Leaves s c cUser r :=
  h.mono (fun _ => trivial) fun _ hclear => .inr hclear.1

theorem leaves_places {side : ℤ} (h : Places s c cUser side r) (hrefused : r.2.refused) :
    Leaves s c cUser r := by
  rcases h with ⟨huser, -⟩ | ⟨usr', -, ⟨d, data, hsucc⟩, -⟩
  · exact .inl ⟨huser, trivial⟩
  · rw [hsucc] at hrefused
    cases hrefused

theorem leaves_dispatch {comm : List CStr}
    (hrefused : c.userCmd = "BUY".toList ∨ c.userCmd = "SELL".toList → r.2.refused)
    (hr : Command.dispatch w s c cUser comm = some r) : Leaves s c cUser r := by
  cases Command.dispatched hr with
  | commitBuy _ hr => exact leaves_clears (clears_commitBuy hr)
  | cancelBuy => exact leaves_clears (clears_cancelOrder 1)
  | commitSell _ hr => exact leaves_clears (clears_commitSell hr)
  | cancelSell => exact leaves_clears (clears_cancelOrder (-1))
  | displaySummary => exact leaves_spares (spares_of_eq rfl)
  | add => exact leaves_spares (spares_add _)
  | quote => exact leaves_spares (spares_quote _)
  | cancelSetBuy _ hr => exact leaves_spares (spares_cancelSetBuy hr)
  | cancelSetSell _ hr => exact leaves_spares (spares_cancelSetSell hr)
  | dumplog => exact leaves_spares (spares_dumplog _)
  | buy hcmd => exact leaves_places (places_buy _ _) (hrefused (.inl hcmd))
  | sell hcmd => exact leaves_places (places_sell _ _) (hrefused (.inr hcmd))
  | setBuyAmount => exact leaves_spares (spares_setBuyAmount _ _)
  | setBuyTrigger => exact leaves_spares (spares_setTrigger .b _ _)
  | setSellAmount => exact leaves_spares (spares_setSellAmount _ _)
  | setSellTrigger => exact leaves_spares (spares_setTrigger .s _ _)
  | badcmd _ => exact .inl ⟨rfl, trivial⟩

/-- COMMIT looks at the time of its order. -/
theorem commitBuy_time (hr : Command.commitBuy w s c cUser = some r) {data : List ℤ}
    (hsucc : r.2 = .succ data) : cUser.buysell ≠ 0 ∧ c.now - cUser.promptTime ≤ quoteTo := by
  unfold Command.commitBuy at hr
  dsimp only at hr
  split_ifs at hr with hside htime
  · cases hr
    cases hsucc
  · cases hr
    cases hsucc
  · refine ⟨fun h => ?_, not_lt.mp htime⟩
    rw [not_not.mp hside] at h
    exact absurd h (by decide)

theorem commitSell_time (hr : Command.commitSell w s c cUser = some r) {data : List ℤ}
    (hsucc : r.2 = .succ data) : cUser.buysell ≠ 0 ∧ c.now - cUser.promptTime ≤ quoteTo := by
  unfold Command.commitSell at hr
  dsimp only at hr
  split_ifs at hr with hside htime
  · cases hr
    cases hsucc
  · cases hr
    cases hsucc
  · refine ⟨fun h => ?_, not_lt.mp htime⟩
    rw [not_not.mp hside] at h
    exact absurd h (by decide)

/-! ### Firings -/

/-- The trigger is one that is fired at the price. -/
def fires (s : Server) (t : TrigID) (quotePrice : ℤ) : Bool :=
  (s.mem.obj t).any fun cTrigger =>
    (s.user cTrigger.userObj).any fun cUser =>
      match cTrigger.type with
      | .b => quotePrice < cTrigger.trig ∧ cTrigger.amount.tdiv quotePrice ≠ 0
      | .s =>
        quotePrice > cTrigger.trig ∧ cTrigger.trig ≠ 0 ∧
          (getUserStock cUser.usTree cTrigger.stockObj).any fun us => us.num ≠ 0

theorem settled_consume {s₁ s' : Server} {t : TrigID} {tr : Trigger} {req : List Stmt}
    {x : UserID × Settlement} (hset : s₁.settled = s.settled ++ [x]) (h : s₁.consume t tr req = some s') :
    s.settled.length < s'.settled.length := by
  obtain ⟨rm, -, rfl⟩ := Option.map_eq_some_iff.mp h
  change s.settled.length < s₁.settled.length
  rw [hset, List.length_append, List.length_singleton]
  exact Nat.lt_succ_self _

/-- A trigger is fired exactly if it is one that is fired at the price. -/
theorem settled_examine {s' : Server} {t : TrigID} {quotePrice now : ℤ}
    (h : Sweep.examine w s t quotePrice now = some s') :
    s.settled.length < s'.settled.length ↔ fires s t quotePrice = true := by
  obtain ⟨tr, htr, h⟩ := Option.bind_eq_some_iff.mp h
  obtain ⟨usr, husr, h⟩ := Option.bind_eq_some_iff.mp h
  have hsame : ∀ {P : Prop}, ¬ P → (s.settled.length < s.settled.length ↔ P) :=
    fun hno => ⟨fun h => absurd h (lt_irrefl _), fun h => absurd h hno⟩
  rw [fires, htr, Option.any_some, husr, Option.any_some]
  cases htype : tr.type with
  | b =>
    simp only [htype] at h
    rw [decide_eq_true_eq]
    split_ifs at h with hlow
    · unfold Sweep.fireBuy at h
      dsimp only at h
      split_ifs at h with hzero
      · cases h
        exact hsame fun hfires => hfires.2 hzero
      · exact iff_of_true (settled_consume rfl h) ⟨hlow, hzero⟩
    · cases h
      exact hsame fun hfires => hlow hfires.1
  | s =>
    simp only [htype] at h
    rw [decide_eq_true_eq]
    split_ifs at h with hhigh
    · unfold Sweep.fireSell at h
      dsimp only at h
      split at h
      · rename_i hnone
        cases h
        refine hsame fun hfires => ?_
        rw [hnone] at hfires
        exact Bool.noConfusion hfires.2.2
      · rename_i us hus
        have hheld : us.num ≠ 0 → quotePrice > tr.trig ∧ tr.trig ≠ 0 ∧
            ((getUserStock usr.usTree tr.stockObj).any fun us => us.num ≠ 0) = true := by
          intro hnum
          rw [hus]
          exact ⟨hhigh.1, hhigh.2, decide_eq_true hnum⟩
        split_ifs at h with hnum
        · cases h
          refine hsame fun hfires => ?_
          rw [hus] at hfires
          exact of_decide_eq_true hfires.2.2 hnum
        all_goals exact iff_of_true (settled_consume rfl h) (hheld hnum)
    · cases h
      exact hsame fun hfires => hhigh ⟨hfires.1, hfires.2.1⟩

end

end TradeC.Stale
