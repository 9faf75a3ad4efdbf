import TradeC.Overflow

/-! The values that a run stores are values of the machine.

    Balances, amounts and prices are results that `w` has been applied to, so that `w` leaves them
    alone; for `wrap64` they are below `2^63`, and their texts are read back without overflow. -/

namespace TradeC
open Decimal

/-! ### Reading a rendered price -/

theorem le_ofDigitChars : ∀ (cs : CStr) (a : ℕ), a ≤ Nat.ofDigitChars 10 cs a := by
  intro cs
  induction cs with
  | nil =>
    intro a
    simp [Nat.ofDigitChars_nil]
  | cons c cs ih =>
    intro a
    rw [Nat.ofDigitChars_cons]
    exact le_trans (by omega) (ih _)

/-- The digit loop passes only through numbers up to its result. -/
theorem mem_digits : ∀ {cs : CStr}, cs.all Char.isDigit → ∀ {acc : ℕ} {x : ℤ},
    x ∈ Arith.digits cs acc → 0 ≤ x ∧ x ≤ Nat.ofDigitChars 10 cs acc := by
  intro cs
  induction cs with
  | nil =>
    intro _ _ _ hx
    simp [Arith.digits] at hx
  | cons c cs ih =>
    intro h acc x hx
    rw [List.all_cons, Bool.and_eq_true] at h
    obtain ⟨hord, hlo, hhi⟩ := ord_digit h.1
    have hstep : (10 * (acc : ℤ) + ord c - 48) = ((10 * acc + (c.toNat - 48) : ℕ) : ℤ) := by
      rw [hord]
      push_cast [Nat.cast_sub hlo]
      ring
    rw [Arith.digits, if_neg (by omega), hstep, List.mem_cons] at hx
    rw [Nat.ofDigitChars_cons]
    rcases hx with rfl | hx
    · exact ⟨by positivity, by exact_mod_cast le_ofDigitChars cs _⟩
    · exact ih h.2 hx

theorem price_two {ip : CStr} {c₁ c₂ : Char} (hne : ip ≠ []) (h₁ : c₁.isDigit) :
    Arith.price (ip ++ ['.', c₁, c₂]) = Arith.priceDec (ip ++ ['.', c₁, c₂]) 3 := by
  have hpos : 0 < ip.length := List.length_pos_iff.mpr hne
  have hlen : (ip ++ ['.', c₁, c₂]).length = ip.length + 3 := by simp
  have hget₂ : (ip ++ ['.', c₁, c₂])[ip.length + 1]? = some c₁ := by
    rw [List.getElem?_append_right (by omega)]
    simp
  have hget₃ : (ip ++ ['.', c₁, c₂])[ip.length]? = some '.' := by
    rw [List.getElem?_append_right (by omega)]
    simp
  unfold Arith.price
  split
  · rename_i heq
    have := congrArg List.length heq
    simp only [hlen, List.length_cons, List.length_nil] at this
    omega
  · rw [hlen, if_neg (by omega), show ip.length + 3 - 2 = ip.length + 1 by omega, hget₂,
      if_neg (by simpa using ne_point_of_digit h₁), show ip.length + 3 - 3 = ip.length by omega,
      hget₃, if_neg (by simp)]

/-- Reading a rendered price passes only through numbers up to the price. -/
theorem mem_price_price2str {x y : ℤ} (hx : 0 ≤ x) (hy : y ∈ Arith.price (price2str x)) :
    0 ≤ y ∧ y ≤ x := by
  obtain ⟨ip, c₁, c₂, hs, hne, hip, h₁, h₂, hval⟩ := price2str_nonneg hx
  have hdec : [c₁, c₂].all Char.isDigit := by simp [h₁, h₂]
  have htake : (ip ++ ['.', c₁, c₂]).take ip.length = ip := List.take_left
  have hdrop : (ip ++ ['.', c₁, c₂]).drop (ip.length + 1) = [c₁, c₂] := by
    rw [List.drop_append]
    simp
  have hd₁ := digitLoop_digits hip 0
  have hd₂ := digitLoop_digits hdec 0
  have hlen : (ip ++ ['.', c₁, c₂]).length - 3 = ip.length := by simp
  simp only [Nat.cast_zero] at hd₁ hd₂
  rw [hs, price_two hne h₁, Arith.priceDec, hlen, htake, hdrop, hd₁, hd₂] at hy
  simp only [List.mem_append, List.mem_singleton] at hy
  simp only [val] at hval
  rcases hy with (hy | hy) | rfl
  · have hb := @mem_digits _ hip 0 _ hy
    omega
  · have hb := @mem_digits _ hdec 0 _ hy
    omega
  · omega

/-- A price of 64 bits is read back as it was rendered. -/
theorem str2price_wrap64 {x : ℤ} (hx : 0 ≤ x) (hw : wrap64 x = x) :
    str2price wrap64 (price2str x) = x := by
  rw [str2price_fits, str2price_price2str hx]
  intro y hy
  obtain ⟨h0, hle⟩ := mem_price_price2str hx hy
  have hb := (wrap64_eq_iff x).mp hw
  exact (wrap64_eq_iff y).mpr ⟨by omega, by omega⟩

/-! ### What a step stores -/

structure Server.Stored (w : ℤ → ℤ) (s : Server) : Prop where
  balance : ∀ {u usr}, s.user u = some usr → w usr.balance = usr.balance
  trigger : ∀ {t tr}, s.mem.obj t = some tr → w tr.amount = tr.amount ∧ w tr.trig = tr.trig

section Stored
variable {w : ℤ → ℤ} {s s' : Server}

theorem Server.Stored.of_eq (hs : s.Stored w) (hu : s'.user = s.user) (ho : s'.mem.obj = s.mem.obj) :
    s'.Stored w :=
  ⟨fun h => hs.balance (hu ▸ h), fun h => hs.trigger (ho ▸ h)⟩

theorem Server.Stored.of_quiet (hs : s.Stored w) (h : s.Quiet s') : s'.Stored w :=
  hs.of_eq h.user (by rw [h.mem])

theorem Server.Stored.setUser (hs : s.Stored w) {u : UserID} {usr : User}
    (hb : w usr.balance = usr.balance) : (s.setUser u usr).Stored w where
  balance {u' usr'} h := by
    by_cases hu : u' = u
    · subst hu
      simp only [Server.setUser, Function.update_self, Option.some.injEq] at h
      exact h ▸ hb
    · exact hs.balance (by simpa [Server.setUser, hu] using h)
  trigger h := hs.trigger h

theorem Server.Stored.setMem (hs : s.Stored w) {m : Mem} {t : TrigID} {tr? : Option Trigger}
    (hm : m.obj = Function.update s.mem.obj t tr?)
    (htr : ∀ tr ∈ tr?, w tr.amount = tr.amount ∧ w tr.trig = tr.trig) :
    Server.Stored w { s with mem := m } where
  balance h := hs.balance h
  trigger {t' tr'} h := by
    have h' : Function.update s.mem.obj t tr? t' = some tr' := hm ▸ h
    by_cases ht : t' = t
    · subst ht
      exact htr tr' (by simpa using h')
    · exact hs.trigger (by simpa [ht] using h')

/-- A trigger is added, or the one in its place is left. -/
theorem obj_addTrigger (m : Mem) (u : UserID) (tid : CStr) (st : StockID) (ty : TType) (amount trig : ℤ) :
    (m.addTrigger u tid st ty amount trig).1.obj = m.obj ∨
      ∃ path, (m.addTrigger u tid st ty amount trig).1.obj = Function.update m.obj m.fresh
        (some ⟨ty, trig, amount, tid, path, u, st⟩) := by
  unfold Mem.addTrigger
  set ip := Trie.insertPath (slot ty) st.str [] (m.tTree u) with hip
  obtain ⟨tree, temp⟩ := ip
  cases temp with
  | none => exact .inl rfl
  | some temp =>
    cases hobj : tree.objAt temp with
    | some t => exact .inl (by simp only [hobj])
    | none => exact .inr ⟨temp, by simp only [hobj]⟩

theorem Server.Stored.addTrigger (hs : s.Stored w) {u : UserID} {tid : CStr} {st : StockID}
    {ty : TType} {amount : ℤ} (h0 : w 0 = 0) (hamount : w amount = amount) :
    Server.Stored w { s with mem := (s.mem.addTrigger u tid st ty amount 0).1 } := by
  rcases obj_addTrigger s.mem u tid st ty amount 0 with hsame | ⟨path, hnew⟩
  · exact hs.of_eq rfl hsame
  · exact hs.setMem hnew (by simp [hamount, h0])

theorem str2priceDec_stored (hw : ∀ x, w (w x) = w x) (str : CStr) (dec : ℕ) :
    str2priceDec w str dec = -1 ∨ w (str2priceDec w str dec) = str2priceDec w str dec := by
  unfold str2priceDec
  split
  · exact .inl rfl
  · split
    · exact .inl rfl
    · exact .inr (hw _)

theorem str2price_stored (hw : ∀ x, w (w x) = w x) {str : CStr} (h : str2price w str ≠ -1) :
    w (str2price w str) = str2price w str := by
  refine Or.resolve_left ?_ h
  unfold str2price
  split
  · split_ifs
    · exact .inr (hw _)
    · exact .inl rfl
  · split_ifs
    · exact .inl rfl
    · exact str2priceDec_stored hw str 2
    · exact .inl rfl
    · exact str2priceDec_stored hw str 3

theorem obj_removeTrigger {m : Mem} {t : TrigID} {r : Mem × List (Path × Node TrigID)}
    (h : m.removeTrigger t = some r) : r.1.obj = Function.update m.obj t none := by
  obtain ⟨tr, _, h⟩ := Option.bind_eq_some_iff.mp h
  dsimp only at h
  split_ifs at h
  rw [← Option.some.inj h]

section Commands
variable {c : Cmd} {cUser : User} (hs : s.Stored w) (hw : ∀ x, w (w x) = w x)
  (hbal : w cUser.balance = cUser.balance)
include hs hw

theorem stored_add {amt : CStr} : (Command.add w s c cUser amt).1.Stored w := by
  unfold Command.add
  dsimp only
  split_ifs
  · exact hs
  · exact (Server.Stored.setUser (hs.of_eq rfl rfl) (hw _)).of_eq rfl rfl

omit hw in
theorem stored_quote {stk : CStr} : (Command.quote s c stk).1.Stored w := by
  unfold Command.quote
  split
  · exact hs
  · rename_i st _
    have hq := hs.of_quiet ((Server.quiet_logLine c stk spc spc).trans (Server.quiet_findStock st))
    dsimp only
    split_ifs
    · exact hq.of_eq rfl rfl
    · exact hq

omit hw in
include hbal in
theorem stored_buy {stk amt : CStr} : (Command.buy w s c cUser stk amt).1.Stored w := by
  unfold Command.buy
  split
  · exact hs
  rename_i st _
  dsimp only
  have hlog : (s.lenq (c.logLine stk spc amt)).Stored w := hs.of_eq rfl rfl
  have hq := hlog.of_quiet ((Server.quiet_findStock st).trans (Server.quiet_freshQuote c st))
  split_ifs
  · exact hs
  · exact hlog
  · exact hlog
  · exact hq
  · exact hq
  · exact hq.setUser hbal

include hbal in
theorem stored_commitBuy {r : Server × Reply} (h : Command.commitBuy w s c cUser = some r) :
    r.1.Stored w := by
  unfold Command.commitBuy at h
  dsimp only at h
  have hlog : (s.lenq (c.logLine spc spc spc)).Stored w := hs.of_eq rfl rfl
  split_ifs at h
  · cases h
    exact hlog
  · cases h
    exact hlog.setUser hbal
  · split at h
    · cases h
    · cases h
      refine .setUser ?_ ?_
      · exact hs.of_eq rfl rfl
      · exact hw _

omit hw in
include hbal in
theorem stored_cancelOrder (side : ℤ) : (Command.cancelOrder s c cUser side).1.Stored w := by
  unfold Command.cancelOrder
  dsimp only
  split_ifs
  · exact hs.of_eq rfl rfl
  · refine .setUser ?_ ?_
    · exact hs.of_eq rfl rfl
    · exact hbal

omit hw in
include hbal in
theorem stored_sell {stk amt : CStr} : (Command.sell w s c cUser stk amt).1.Stored w := by
  unfold Command.sell
  split
  · exact hs
  rename_i st _
  dsimp only
  have hlog := hs.of_quiet ((Server.quiet_logLine c stk spc amt).trans (Server.quiet_findStock st))
  have hq := hlog.of_quiet (Server.quiet_freshQuote c st)
  by_cases hprc : str2price w amt = -1
  · rw [if_pos hprc]
    exact hs
  rw [if_neg hprc]
  split
  · exact hlog
  · split_ifs
    · exact hlog
    · exact hlog
    · exact hq
    all_goals exact hq.setUser hbal

include hbal in
theorem stored_commitSell {r : Server × Reply} (h : Command.commitSell w s c cUser = some r) :
    r.1.Stored w := by
  unfold Command.commitSell at h
  dsimp only at h
  have hlog : (s.lenq (c.logLine spc spc spc)).Stored w := hs.of_eq rfl rfl
  split_ifs at h
  · cases h
    exact hlog
  · cases h
    exact hlog.setUser hbal
  · split at h
    · cases h
    · split at h
      · cases h
        exact hlog
      · cases h
        refine .setUser ?_ ?_
        · exact hs.of_eq rfl rfl
        · exact hw _

theorem stored_setBuyAmount (h0 : w 0 = 0) {stk amt : CStr} :
    (Command.setBuyAmount w s c cUser stk amt).1.Stored w := by
  unfold Command.setBuyAmount
  split
  · exact hs
  rename_i st _
  dsimp only
  have hlog : (s.lenq (c.logLine stk spc amt)).Stored w := hs.of_eq rfl rfl
  have hq := hlog.of_quiet (Server.quiet_findStock st)
  split_ifs with hprc
  · exact hs
  · exact hlog
  · exact hlog
  · split
    · exact hq
    · refine .of_eq (.addTrigger (.of_eq (.setUser hq ?_) rfl rfl) h0 (str2price_stored hw hprc))
        rfl rfl
      exact hw _

theorem stored_cancelSetBuy {stk : CStr} {r : Server × Reply}
    (h : Command.cancelSetBuy w s c cUser stk = some r) : r.1.Stored w := by
  unfold Command.cancelSetBuy at h
  split at h
  · cases h
    exact hs
  rename_i st _
  dsimp only at h
  have hq := hs.of_quiet ((Server.quiet_logLine c stk spc spc).trans (Server.quiet_findStock st))
  split at h
  · cases h
    exact hq
  · obtain ⟨tr, _, h⟩ := Option.bind_eq_some_iff.mp h
    obtain ⟨rm, hrem, rfl⟩ := Option.map_eq_some_iff.mp h
    refine .of_eq (.setMem (.setUser hq ?_) (obj_removeTrigger hrem) (by simp)) rfl rfl
    exact hw _

theorem stored_setTrigger {type : TType} {stk amt : CStr} :
    (Command.setTrigger w s c type stk amt).1.Stored w := by
  unfold Command.setTrigger
  split
  · exact hs
  rename_i st _
  dsimp only
  have hlog : (s.lenq (c.logLine stk spc amt)).Stored w := hs.of_eq rfl rfl
  have hq := hlog.of_quiet (Server.quiet_findStock st)
  split_ifs with hprc
  · exact hs
  · split
    · exact hq
    · rename_i t _
      refine .of_eq (.setMem hq rfl fun tr' htr' => ?_) rfl rfl
      obtain ⟨tr, htr, rfl⟩ := Option.map_eq_some_iff.mp (Option.mem_def.mp htr')
      exact ⟨(hq.trigger htr).1, str2price_stored hw hprc⟩

theorem stored_setSellAmount (h0 : w 0 = 0) {stk amt : CStr} :
    (Command.setSellAmount w s c cUser stk amt).1.Stored w := by
  unfold Command.setSellAmount
  split
  · exact hs
  rename_i st _
  dsimp only
  have hlog : (s.lenq (c.logLine stk spc amt)).Stored w := hs.of_eq rfl rfl
  have hq := hlog.of_quiet (Server.quiet_findStock st)
  split_ifs with hprc
  · exact hs
  · exact hlog
  · exact hq
  · exact hq
  · exact .of_eq (.addTrigger hq h0 (str2price_stored hw hprc)) rfl rfl

omit hw in
theorem stored_cancelSetSell {stk : CStr} {r : Server × Reply}
    (h : Command.cancelSetSell s c stk = some r) : r.1.Stored w := by
  unfold Command.cancelSetSell at h
  split at h
  · cases h
    exact hs
  rename_i st _
  dsimp only at h
  have hq := hs.of_quiet ((Server.quiet_logLine c stk spc spc).trans (Server.quiet_findStock st))
  split at h
  · cases h
    exact hq
  · obtain ⟨rm, hrem, rfl⟩ := Option.map_eq_some_iff.mp h
    exact .of_eq (.setMem hq (obj_removeTrigger hrem) (by simp)) rfl rfl

include hbal in
theorem stored_dispatch (h0 : w 0 = 0) {comm : List CStr} {r : Server × Reply}
    (h : Command.dispatch w s c cUser comm = some r) : r.1.Stored w := by
  cases Command.dispatched h with
  | commitBuy _ h => exact stored_commitBuy hs hw hbal h
  | cancelBuy _ => exact stored_cancelOrder hs hbal 1
  | commitSell _ h => exact stored_commitSell hs hw hbal h
  | cancelSell _ => exact stored_cancelOrder hs hbal (-1)
  | displaySummary _ => exact hs.of_eq rfl rfl
  | add _ => exact stored_add hs hw
  | quote _ => exact stored_quote hs
  | cancelSetBuy _ h => exact stored_cancelSetBuy hs hw h
  | cancelSetSell _ h => exact stored_cancelSetSell hs h
  | dumplog _ =>
    unfold Command.dumplog
    split_ifs
    · exact hs
    · exact hs.of_eq rfl rfl
  | buy _ => exact stored_buy hs hbal
  | sell _ => exact stored_sell hs hbal
  | setBuyAmount _ => exact stored_setBuyAmount hs hw h0
  | setBuyTrigger _ => exact stored_setTrigger hs hw
  | setSellAmount _ => exact stored_setSellAmount hs hw h0
  | setSellTrigger _ => exact stored_setTrigger hs hw
  | badcmd _ => exact hs

end Commands

section Firing
variable {t : TrigID} {tr : Trigger} {cUser : User} {p now : ℤ}

/-- A firing writes a balance and removes the trigger. -/
theorem stored_consume {s₁ : Server} {u : UserID} {usr : User} {req : List Stmt}
    (h : (s₁.setUser u usr).consume t tr req = some s') (hs : s.Stored w)
    (hu : s₁.user = s.user) (hm : s₁.mem = s.mem) (hb : w usr.balance = usr.balance) :
    s'.Stored w := by
  obtain ⟨r, hrem, rfl⟩ := Option.map_eq_some_iff.mp h
  have hs₁ : s₁.Stored w := hs.of_eq hu (by rw [hm])
  exact .of_eq (.setMem (hs₁.setUser hb) (obj_removeTrigger hrem) (by simp)) rfl rfl

theorem stored_fireBuy (hs : s.Stored w) (hw : ∀ x, w (w x) = w x)
    (h : Sweep.fireBuy w s t tr cUser p now = some s') : s'.Stored w := by
  unfold Sweep.fireBuy at h
  dsimp only at h
  split_ifs at h
  · cases h
    exact hs
  · exact stored_consume h hs rfl rfl (hw _)

theorem stored_fireSell (hs : s.Stored w) (hw : ∀ x, w (w x) = w x)
    (h : Sweep.fireSell w s t tr cUser p now = some s') : s'.Stored w := by
  unfold Sweep.fireSell at h
  dsimp only at h
  split at h
  · cases h
    exact hs
  · split_ifs at h
    · cases h
      exact hs
    all_goals exact stored_consume h hs rfl rfl (hw _)

theorem stored_examine (hs : s.Stored w) (hw : ∀ x, w (w x) = w x)
    (h : Sweep.examine w s t p now = some s') : s'.Stored w := by
  obtain ⟨tr, _, h⟩ := Option.bind_eq_some_iff.mp h
  obtain ⟨usr, _, h⟩ := Option.bind_eq_some_iff.mp h
  dsimp only at h
  split at h
  · split_ifs at h
    · exact stored_fireBuy hs hw h
    · cases h
      exact hs
  · split_ifs at h
    · exact stored_fireSell hs hw h
    · cases h
      exact hs

end Firing

/-- A step applies `w` to all that it stores. -/
theorem step_stored {e : Event} (h0 : w 0 = 0) (hw : ∀ x, w (w x) = w x) (hwf : s.WF)
    (hs : s.Stored w) (h : step w s e = some s') : s'.Stored w := by
  cases e with
  | connect u =>
    simp only [step, Option.isSome_iff_ne_none] at h
    split_ifs at h with hu
    cases h
    rw [addUser_fresh w hwf (not_not.mp hu)]
    exact (hs.setUser h0).of_eq rfl rfl
  | command c commStr =>
    obtain ⟨r, hr, rfl⟩ := Option.map_eq_some_iff.mp h
    obtain ⟨cUser, husr, hr⟩ := Option.bind_eq_some_iff.mp hr
    exact stored_dispatch hs hw (hs.balance husr) h0 hr
  | quote st q =>
    cases h
    exact hs.of_eq rfl rfl
  | examine t p now =>
    simp only [step] at h
    split_ifs at h
    exact stored_examine hs hw h

theorem stored_init : Server.init.Stored w :=
  ⟨fun h => by simp [Server.init] at h, fun h => by simp [Server.init, Mem.init] at h⟩

end Stored
end TradeC
