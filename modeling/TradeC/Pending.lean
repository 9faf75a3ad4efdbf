import TradeC.Headroom
import TradeC.Stale

/-! The pending order: five fields of a user that are set together and cleared together.

    BUY and SELL fill them, COMMIT and CANCEL of the same side clear them; what else happens to the user
    leaves them. The reserve is a product, in the arithmetic of the machine: that of BUY is no more than
    the amount, that of SELL is rounded up to one share more and may not fit. -/

namespace TradeC.Pending
open Run Server

structure State where
  server : Server
  /-- What is only recorded: the price of each user's last BUY or SELL that made an order. -/
  price : UserID → ℤ

/-- No user is loaded; the tables hold anything. -/
def initial (db : Db) : State := ⟨{ Server.init with db }, fun _ => 0⟩

/-- The state after a command, with the price of the order that it has made. -/
def State.record (s : State) (c : Cmd) (r : Server × Reply) : State :=
  match Stale.ordered c r.2 with
  | none => ⟨r.1, s.price⟩
  | some quote => ⟨r.1, Function.update s.price c.userID quote.price⟩

def step (s : State) : Event → Option State
  | .command c commStr => (commandHandler wrap64 s.server c commStr).map (s.record c)
  | e => (TradeC.step wrap64 s.server e).map fun server => { s with server }

/-! ### The record -/

/-- The order in a record is consistent, with stocks of the list and a price; `w` is what the machine keeps
    of the reserve. -/
structure Consistent (w : ℤ → ℤ) (stocks : List StockID) (price : ℤ) (usr : User) : Prop where
  side : usr.buysell = -1 ∨ usr.buysell = 0 ∨ usr.buysell = 1
  null : usr.buysell = 0 ↔ usr.stockObj = none
  clear : usr.buysell = 0 → usr.promptTime = 0 ∧ usr.reserve = 0 ∧ usr.no = 0
  stock : usr.buysell ≠ 0 → ∃ st ∈ stocks, usr.stockObj = some st
  priced : usr.buysell ≠ 0 → 1 ≤ price
  reserve : usr.buysell ≠ 0 → usr.reserve = w (usr.no * price)

def AllConsistent (w : ℤ → ℤ) (s : State) : Prop :=
  ∀ u usr, s.server.user u = some usr → Consistent w s.server.stocks (s.price u) usr

/-- The fields of the order are the same. -/
def SameFields (usr usr' : User) : Prop :=
  usr'.promptTime = usr.promptTime ∧ usr'.stockObj = usr.stockObj ∧ usr'.reserve = usr.reserve ∧
    usr'.no = usr.no ∧ usr'.buysell = usr.buysell

/-- A command that creates an order of a side. -/
def Creates (c : Cmd) (side : ℤ) : Prop :=
  c.userCmd = "BUY".toList ∧ side = 1 ∨ c.userCmd = "SELL".toList ∧ side = -1

/-- A command that clears an order of a side. -/
def ClearsSide (c : Cmd) (side : ℤ) : Prop :=
  (c.userCmd = "COMMIT_BUY".toList ∨ c.userCmd = "CANCEL_BUY".toList) ∧ side = 1 ∨
    (c.userCmd = "COMMIT_SELL".toList ∨ c.userCmd = "CANCEL_SELL".toList) ∧ side = -1

/-- What a step may do to the order of a loaded user: nothing; create one, where there is none; or clear it. -/
def Changes (e : Event) (u : UserID) (usr usr' : User) : Prop :=
  SameFields usr usr' ∨
    (∃ c commStr, e = .command c commStr ∧ c.userID = u ∧ usr.buysell = 0 ∧ Creates c usr'.buysell) ∨
    ∃ c commStr, e = .command c commStr ∧ c.userID = u ∧ ClearsSide c usr.buysell ∧
      usr'.buysell = 0

/-- The records are consistent, every step from here changes them only as it may, and a COMMIT of a user in memory
    has a result. -/
structure Orderly (s : State) : Prop where
  consistent : AllConsistent id s
  changes : ∀ e s', step s e = some s' → ∀ u usr, s.server.user u = some usr →
    ∃ usr', s'.server.user u = some usr' ∧ Changes e u usr usr'
  commit : ∀ c commStr, c.userCmd = "COMMIT_BUY".toList ∨ c.userCmd = "COMMIT_SELL".toList →
    delimSepNoCpy commStr ',' = [] → (s.server.user c.userID).isSome →
      (commandHandler wrap64 s.server c commStr).isSome

/-! ### The condition -/

/-- If the fields make SELL place an order, the price of the shares that it is for fits. -/
def SellFits (s : Server) (c : Cmd) (cUser : User) : List CStr → Prop
  | [stk, amt] => c.userCmd = "SELL".toList → ∀ st ∈ toStockID stk,
      ∀ us ∈ getUserStock cUser.usTree st, str2price wrap64 amt ≠ -1 → us.num ≠ 0 → cUser.buysell = 0 →
        1 ≤ (s.quoteFor c st).price → InLong ((s.quoteFor c st).price *
          sellShares wrap64 us.num (str2price wrap64 amt) (s.quoteFor c st).price)
  | _ => True

def Fits (s : State) : Event → Prop
  | .command c commStr => ∀ cUser ∈ s.server.user c.userID,
      SellFits s.server c cUser (delimSepNoCpy commStr ',')
  | .connect _ | .quote _ _ | .examine _ _ _ => True

instance decSellFits (s : Server) (c : Cmd) (cUser : User) : ∀ comm, Decidable (SellFits s c cUser comm)
  | [] => .isTrue trivial
  | [_] => .isTrue trivial
  | [stk, _] =>
    have (x : ℤ) : Decidable (InLong x) := inferInstanceAs (Decidable (_ ∧ _))
    inferInstanceAs (Decidable (_ → ∀ st ∈ toStockID stk, ∀ us ∈ getUserStock cUser.usTree st, _))
  | _ :: _ :: _ :: _ => .isTrue trivial

instance decFits (s : State) : ∀ e, Decidable (Fits s e)
  | .command c _ => inferInstanceAs (Decidable (∀ cUser ∈ s.server.user c.userID, SellFits ..))
  | .connect _ => .isTrue trivial
  | .quote _ _ => .isTrue trivial
  | .examine _ _ _ => .isTrue trivial

/-! ### What a command does to the order of its user -/

section
variable {s : Server} {c : Cmd} {cUser : User} {comm : List CStr} {r : Server × Reply}

/-- The command leaves the order, makes one or clears one; `fits` is whether a reserve that is made fits. -/
inductive Does (s : Server) (c : Cmd) (cUser : User) (fits : Prop) (r : Server × Reply) : Prop
  | keeps (user : s.Writes c.userID True cUser.SameOrder r.1) (ordered : Stale.ordered c r.2 = none)
      (fits : fits)
  | makes (side no : ℤ) (st : StockID) (creates : Creates c side) (idle : cUser.buysell = 0)
      (user : r.1.user = Function.update s.user c.userID (some (cUser.order (s.quoteFor c st).ts st
        (wrap64 ((s.quoteFor c st).price * no)) no side)))
      (ordered : Stale.ordered c r.2 = some (s.quoteFor c st)) (price : 1 ≤ (s.quoteFor c st).price)
      (stock : st ∈ r.1.stocks) (fits : fits ↔ InLong ((s.quoteFor c st).price * no))
  | clears (usr' : User) (clears : ClearsSide c cUser.buysell)
      (user : r.1.user = Function.update s.user c.userID (some usr'))
      (cleared : usr'.clearOrder = usr')
      (ordered : Stale.ordered c r.2 = none) (fits : fits)

theorem fits_other (h : c.userCmd ≠ "SELL".toList) : SellFits s c cUser comm := by
  unfold SellFits
  split
  · exact fun hsell => absurd hsell h
  · trivial

theorem fits_badcmd (h : c.userCmd ∉ Command.names comm) : SellFits s c cUser comm := by
  unfold SellFits
  split
  · intro hsell
    rw [hsell] at h
    exact absurd (by simp [Command.names]) h
  · trivial

theorem does_refused {fits : Prop} (huser : r.1.user = s.user) (hrefused : r.2.refused) (hfits : fits) :
    Does s c cUser fits r :=
  .keeps (.inl ⟨huser, trivial⟩) (Stale.ordered_refused hrefused) hfits

theorem inLong_str2price (amt : CStr) : InLong (str2price wrap64 amt) := by
  rw [str2price_eq_wrap64]
  exact (wrap64_eq_iff _).mp (Int.bmod_bmod)

theorem does_buy (hcmd : c.userCmd = "BUY".toList) (stk amt : CStr) :
    Does s c cUser (SellFits s c cUser [stk, amt]) (Command.buy wrap64 s c cUser stk amt) := by
  have hfits : SellFits s c cUser [stk, amt] := fits_other (by rw [hcmd]; decide)
  unfold Command.buy
  split
  · exact does_refused rfl rfl hfits
  rename_i st hst
  have hquote := quote_freshQuote s c st (c.logLine stk spc amt)
  have huser : (((s.lenq (c.logLine stk spc amt)).findStock st).freshQuote c st).user = s.user := by simp
  have hstock : st ∈ (((s.lenq (c.logLine stk spc amt)).findStock st).freshQuote c st).stocks :=
    (quiet_freshQuote c st).stocks (mem_findStock _ st)
  dsimp only
  generalize ((s.lenq (c.logLine stk spc amt)).findStock st).freshQuote c st = s₁ at hquote huser hstock ⊢
  rw [hquote]
  split_ifs with hprc hside hbal hprice hno
  · exact does_refused rfl rfl hfits
  · exact does_refused rfl rfl hfits
  · exact does_refused rfl rfl hfits
  · exact does_refused huser rfl hfits
  · exact does_refused huser rfl hfits
  · have hfit := inLong_cost (not_lt.mp hprice) (inLong_str2price amt)
    refine .makes 1 ((str2price wrap64 amt).tdiv (s.quoteFor c st).price) st (.inl ⟨hcmd, rfl⟩)
      (not_not.mp hside) ?_ ?_ (not_lt.mp hprice) hstock ⟨fun _ => hfit, fun _ => hfits⟩
    · rw [← huser]
      rfl
    · rw [Stale.ordered, if_pos (.inl hcmd), ← hquote]
      rfl

theorem does_sell (hcmd : c.userCmd = "SELL".toList) (stk amt : CStr) :
    Does s c cUser (SellFits s c cUser [stk, amt]) (Command.sell wrap64 s c cUser stk amt) := by
  unfold Command.sell
  cases hst : toStockID stk with
  | none =>
    refine does_refused rfl rfl fun _ st hst' => ?_
    rw [hst] at hst'
    cases hst'
  | some st =>
    have hone : ∀ {P : StockID → Prop}, P st → ∀ st' ∈ toStockID stk, P st' := by
      intro P hP st' hst'
      rw [hst] at hst'
      cases hst'
      exact hP
    have hquote := quote_freshQuote s c st (c.logLine stk spc amt)
    have huser : (((s.lenq (c.logLine stk spc amt)).findStock st).freshQuote c st).user = s.user := by simp
    have hstock : st ∈ (((s.lenq (c.logLine stk spc amt)).findStock st).freshQuote c st).stocks :=
      (quiet_freshQuote c st).stocks (mem_findStock _ st)
    dsimp only
    generalize ((s.lenq (c.logLine stk spc amt)).findStock st).freshQuote c st = s₁
      at hquote huser hstock ⊢
    rw [hquote]
    by_cases hprc : str2price wrap64 amt = -1
    · rw [if_pos hprc]
      exact does_refused rfl rfl fun _ => hone fun _ _ h => absurd hprc h
    rw [if_neg hprc]
    cases hus : getUserStock cUser.usTree st with
    | none =>
      refine does_refused (by simp) rfl fun _ => hone fun us hus' => ?_
      rw [hus] at hus'
      cases hus'
    | some us =>
      have hheld : ∀ {P : UserStock → Prop}, P us → ∀ us' ∈ getUserStock cUser.usTree st, P us' := by
        intro P hP us' hus'
        rw [hus] at hus'
        cases hus'
        exact hP
      dsimp only
      by_cases hnum : us.num = 0
      · rw [if_pos hnum]
        exact does_refused (by simp) rfl fun _ => hone (hheld fun _ h => absurd hnum h)
      rw [if_neg hnum]
      by_cases hside : cUser.buysell ≠ 0
      · rw [if_pos hside]
        exact does_refused (by simp) rfl fun _ => hone (hheld fun _ _ h => absurd h hside)
      rw [if_neg hside]
      by_cases hprice : (s.quoteFor c st).price < 1
      · rw [if_pos hprice]
        exact does_refused huser rfl fun _ => hone (hheld fun _ _ _ h => absurd h (not_le.mpr hprice))
      rw [if_neg hprice]
      refine .makes (-1) (sellShares wrap64 us.num (str2price wrap64 amt) (s.quoteFor c st).price) st
        (.inr ⟨hcmd, rfl⟩) (not_not.mp hside) ?_ ?_ (not_lt.mp hprice) hstock ⟨fun h => ?_, fun h => ?_⟩
      · rw [← huser]
        rfl
      · rw [Stale.ordered, if_pos (.inr hcmd), ← hquote]
        rfl
      · exact h hcmd st hst us hus hprc hnum (not_not.mp hside) (not_lt.mp hprice)
      · exact fun _ => hone (hheld fun _ _ _ _ => h)

theorem does_cancelOrder {side : ℤ} (hcmd : ClearsSide c side)
    (hord : ∀ reply, Stale.ordered c reply = none) (hfits : SellFits s c cUser comm) :
    Does s c cUser (SellFits s c cUser comm) (Command.cancelOrder s c cUser side) := by
  unfold Command.cancelOrder
  dsimp only
  split_ifs with hside
  · exact does_refused rfl rfl hfits
  · exact .clears cUser.clearOrder (not_not.mp hside ▸ hcmd) rfl rfl (hord _) hfits

theorem does_commitBuy (hcmd : ClearsSide c 1) (hord : ∀ reply, Stale.ordered c reply = none)
    (hfits : SellFits s c cUser comm) (hr : Command.commitBuy wrap64 s c cUser = some r) :
    Does s c cUser (SellFits s c cUser comm) r := by
  unfold Command.commitBuy at hr
  dsimp only at hr
  split_ifs at hr with hside htime
  · cases hr
    exact does_refused rfl rfl hfits
  · cases hr
    exact .clears _ (not_not.mp hside ▸ hcmd) rfl rfl (hord _) hfits
  · split at hr
    · cases hr
    · cases hr
      exact .clears _ (not_not.mp hside ▸ hcmd) rfl rfl (hord _) hfits

theorem does_commitSell (hcmd : ClearsSide c (-1)) (hord : ∀ reply, Stale.ordered c reply = none)
    (hfits : SellFits s c cUser comm) (hr : Command.commitSell wrap64 s c cUser = some r) :
    Does s c cUser (SellFits s c cUser comm) r := by
  unfold Command.commitSell at hr
  dsimp only at hr
  split_ifs at hr with hside htime
  · cases hr
    exact does_refused rfl rfl hfits
  · cases hr
    exact .clears _ (not_not.mp hside ▸ hcmd) rfl rfl (hord _) hfits
  · split at hr
    · cases hr
    split at hr
    · cases hr
      exact does_refused rfl rfl hfits
    · cases hr
      exact .clears _ (not_not.mp hside ▸ hcmd) rfl rfl (hord _) hfits

end

section
variable {w : ℤ → ℤ} {s : Server} {c : Cmd} {cUser : User} {comm : List CStr} {r : Server × Reply}

theorem does_dispatch (hr : Command.dispatch wrap64 s c cUser comm = some r) :
    Does s c cUser (SellFits s c cUser comm) r := by
  have hno : ∀ {name : CStr}, c.userCmd = name → ¬ (name = "BUY".toList ∨ name = "SELL".toList) →
      (∀ reply, Stale.ordered c reply = none) ∧ SellFits s c cUser comm := by
    rintro name rfl hname
    exact ⟨Stale.ordered_eq_none hname, fits_other fun h => hname (.inr h)⟩
  have hkeep : ∀ {name : CStr}, c.userCmd = name → ¬ (name = "BUY".toList ∨ name = "SELL".toList) →
      Spares s c cUser r → Does s c cUser (SellFits s c cUser comm) r :=
    fun heq hname h => .keeps h ((hno heq hname).1 _) (hno heq hname).2
  cases Command.dispatched hr with
  | commitBuy hcmd hr => exact does_commitBuy (.inl ⟨.inl hcmd, rfl⟩) (hno hcmd (by decide)).1 trivial hr
  | cancelBuy hcmd => exact does_cancelOrder (.inl ⟨.inr hcmd, rfl⟩) (hno hcmd (by decide)).1 trivial
  | commitSell hcmd hr => exact does_commitSell (.inr ⟨.inl hcmd, rfl⟩) (hno hcmd (by decide)).1 trivial hr
  | cancelSell hcmd => exact does_cancelOrder (.inr ⟨.inr hcmd, rfl⟩) (hno hcmd (by decide)).1 trivial
  | displaySummary hcmd => exact hkeep hcmd (by decide) (spares_of_eq rfl)
  | add hcmd => exact hkeep hcmd (by decide) (spares_add _)
  | quote hcmd => exact hkeep hcmd (by decide) (spares_quote _)
  | cancelSetBuy hcmd hr => exact hkeep hcmd (by decide) (spares_cancelSetBuy hr)
  | cancelSetSell hcmd hr => exact hkeep hcmd (by decide) (spares_cancelSetSell hr)
  | dumplog hcmd => exact hkeep hcmd (by decide) (spares_dumplog _)
  | buy hcmd => exact does_buy hcmd _ _
  | sell hcmd => exact does_sell hcmd _ _
  | setBuyAmount hcmd => exact hkeep hcmd (by decide) (spares_setBuyAmount _ _)
  | setBuyTrigger hcmd => exact hkeep hcmd (by decide) (spares_setTrigger .b _ _)
  | setSellAmount hcmd => exact hkeep hcmd (by decide) (spares_setSellAmount _ _)
  | setSellTrigger hcmd => exact hkeep hcmd (by decide) (spares_setTrigger .s _ _)
  | badcmd hcmd => exact does_refused rfl rfl (fits_badcmd hcmd)

/-! ### The list of stocks -/

theorem stocks_findStock (s : Server) (line : LogLine) (st : StockID) :
    s.stocks ⊆ ((s.lenq line).findStock st).stocks :=
  (quiet_findStock (s := s.lenq line) st).stocks

theorem stocks_freshQuote (s : Server) (line : LogLine) (st : StockID) :
    s.stocks ⊆ (((s.lenq line).findStock st).freshQuote c st).stocks :=
  List.Subset.trans (stocks_findStock s line st) (quiet_freshQuote c st).stocks

theorem stocks_buy (stk amt : CStr) : s.stocks ⊆ (Command.buy w s c cUser stk amt).1.stocks := by
  unfold Command.buy
  split
  · exact List.Subset.refl _
  dsimp only
  split_ifs <;> first | exact List.Subset.refl _ | exact stocks_freshQuote s _ _

theorem stocks_sell (stk amt : CStr) : s.stocks ⊆ (Command.sell w s c cUser stk amt).1.stocks := by
  unfold Command.sell
  split
  · exact List.Subset.refl _
  dsimp only
  split
  · exact List.Subset.refl _
  split
  · exact stocks_findStock s _ _
  · split_ifs <;> first | exact stocks_findStock s _ _ | exact stocks_freshQuote s _ _

theorem stocks_quote (stk : CStr) : s.stocks ⊆ (Command.quote s c stk).1.stocks := by
  unfold Command.quote
  split
  · exact List.Subset.refl _
  dsimp only
  split_ifs <;> exact stocks_findStock s _ _

theorem stocks_setBuyAmount (stk amt : CStr) :
    s.stocks ⊆ (Command.setBuyAmount w s c cUser stk amt).1.stocks := by
  unfold Command.setBuyAmount
  split
  · exact List.Subset.refl _
  dsimp only
  split_ifs
  · exact List.Subset.refl _
  · exact List.Subset.refl _
  · exact List.Subset.refl _
  · split <;> exact stocks_findStock s _ _

theorem stocks_setSellAmount (stk amt : CStr) :
    s.stocks ⊆ (Command.setSellAmount w s c cUser stk amt).1.stocks := by
  unfold Command.setSellAmount
  split
  · exact List.Subset.refl _
  dsimp only
  split_ifs <;> first | exact List.Subset.refl _ | exact stocks_findStock s _ _

theorem stocks_setTrigger (type : TType) (stk amt : CStr) :
    s.stocks ⊆ (Command.setTrigger w s c type stk amt).1.stocks := by
  unfold Command.setTrigger
  split
  · exact List.Subset.refl _
  dsimp only
  split_ifs
  · exact List.Subset.refl _
  · split <;> exact stocks_findStock s _ _

theorem stocks_cancelSetBuy {stk : CStr} (hr : Command.cancelSetBuy w s c cUser stk = some r) :
    s.stocks ⊆ r.1.stocks := by
  unfold Command.cancelSetBuy at hr
  split at hr
  · cases hr
    exact List.Subset.refl _
  dsimp only at hr
  split at hr
  · cases hr
    exact stocks_findStock s _ _
  · obtain ⟨tr, -, hr⟩ := Option.bind_eq_some_iff.mp hr
    obtain ⟨removed, -, rfl⟩ := Option.map_eq_some_iff.mp hr
    exact stocks_findStock s _ _

theorem stocks_cancelSetSell {stk : CStr} (hr : Command.cancelSetSell s c stk = some r) :
    s.stocks ⊆ r.1.stocks := by
  unfold Command.cancelSetSell at hr
  split at hr
  · cases hr
    exact List.Subset.refl _
  dsimp only at hr
  split at hr
  · cases hr
    exact stocks_findStock s _ _
  · obtain ⟨removed, -, rfl⟩ := Option.map_eq_some_iff.mp hr
    exact stocks_findStock s _ _

theorem stocks_commitBuy (hr : Command.commitBuy w s c cUser = some r) : r.1.stocks = s.stocks := by
  unfold Command.commitBuy at hr
  dsimp only at hr
  split_ifs at hr
  · cases hr
    rfl
  · cases hr
    rfl
  · split at hr <;> cases hr
    rfl

theorem stocks_commitSell (hr : Command.commitSell w s c cUser = some r) : r.1.stocks = s.stocks := by
  unfold Command.commitSell at hr
  dsimp only at hr
  split_ifs at hr
  · cases hr
    rfl
  · cases hr
    rfl
  · split at hr
    · cases hr
    · split at hr <;> cases hr <;> rfl

theorem stocks_cancelOrder (side : ℤ) : (Command.cancelOrder s c cUser side).1.stocks = s.stocks := by
  unfold Command.cancelOrder
  dsimp only
  split_ifs <;> rfl

theorem stocks_add (amt : CStr) : (Command.add w s c cUser amt).1.stocks = s.stocks := by
  unfold Command.add
  dsimp only
  split_ifs <;> rfl

theorem stocks_dumplog (file : CStr) : (Command.dumplog s c file).1.stocks = s.stocks := by
  unfold Command.dumplog
  split_ifs <;> rfl

/-- A command takes no stock from the list. -/
theorem stocks_dispatch (hr : Command.dispatch w s c cUser comm = some r) : s.stocks ⊆ r.1.stocks := by
  have hsame : r.1.stocks = s.stocks → s.stocks ⊆ r.1.stocks := fun h => h ▸ List.Subset.refl _
  cases Command.dispatched hr with
  | commitBuy _ hr => exact hsame (stocks_commitBuy hr)
  | cancelBuy _ => exact hsame (stocks_cancelOrder 1)
  | commitSell _ hr => exact hsame (stocks_commitSell hr)
  | cancelSell _ => exact hsame (stocks_cancelOrder (-1))
  | displaySummary _ => exact List.Subset.refl _
  | add _ => exact hsame (stocks_add _)
  | quote _ => exact stocks_quote _
  | cancelSetBuy _ hr => exact stocks_cancelSetBuy hr
  | cancelSetSell _ hr => exact stocks_cancelSetSell hr
  | dumplog _ => exact hsame (stocks_dumplog _)
  | buy _ => exact stocks_buy _ _
  | sell _ => exact stocks_sell _ _
  | setBuyAmount _ => exact stocks_setBuyAmount _ _
  | setBuyTrigger _ => exact stocks_setTrigger .b _ _
  | setSellAmount _ => exact stocks_setSellAmount _ _
  | setSellTrigger _ => exact stocks_setTrigger .s _ _
  | badcmd _ => exact List.Subset.refl _

end

section
variable {w : ℤ → ℤ} {s s' : Server} {e : Event}

theorem stocks_consume {t : TrigID} {tr : Trigger} {req : List Stmt} (h : s.consume t tr req = some s') :
    s'.stocks = s.stocks := by
  obtain ⟨removed, -, rfl⟩ := Option.map_eq_some_iff.mp h
  rfl

theorem stocks_examine {t : TrigID} {quotePrice now : ℤ}
    (h : Sweep.examine w s t quotePrice now = some s') : s'.stocks = s.stocks := by
  obtain ⟨tr, -, h⟩ := Option.bind_eq_some_iff.mp h
  obtain ⟨usr, -, h⟩ := Option.bind_eq_some_iff.mp h
  dsimp only at h
  split at h
  · split_ifs at h
    · unfold Sweep.fireBuy at h
      dsimp only at h
      split_ifs at h
      · cases h
        rfl
      · exact (stocks_consume h).trans rfl
    · cases h
      rfl
  · split_ifs at h
    · unfold Sweep.fireSell at h
      dsimp only at h
      split at h
      · cases h
        rfl
      · split_ifs at h
        · cases h
          rfl
        · exact (stocks_consume h).trans rfl
        · exact (stocks_consume h).trans rfl
    · cases h
      rfl

theorem foldl_stocks {α : Type*} {f : Server → α → Server} (hf : ∀ s a, s.stocks ⊆ (f s a).stocks) :
    ∀ (as : List α) (s : Server), s.stocks ⊆ (as.foldl f s).stocks := by
  intro as
  induction as with
  | nil =>
    intro _
    exact List.Subset.refl _
  | cons a as ih =>
    intro s
    exact List.Subset.trans (hf s a) (ih (f s a))

theorem stocks_addUser (u : UserID) : s.stocks ⊆ (addUser w s u).stocks := by
  unfold addUser
  refine List.Subset.trans (foldl_stocks ?_ _ _) (foldl_stocks ?_ _ _)
  · rintro s ⟨tID, st, ty, r⟩
    exact (quiet_findStock st).stocks
  · rintro s ⟨st, n⟩
    exact (quiet_findStock st).stocks

/-- No stock leaves the list. -/
theorem stocks_step (h : TradeC.step w s e = some s') : s.stocks ⊆ s'.stocks := by
  cases e with
  | connect u =>
    simp only [TradeC.step] at h
    split_ifs at h
    cases h
    exact stocks_addUser u
  | command c commStr =>
    obtain ⟨r, hr, rfl⟩ := Option.map_eq_some_iff.mp h
    obtain ⟨cUser, -, hr⟩ := Option.bind_eq_some_iff.mp hr
    exact stocks_dispatch hr
  | quote st q =>
    cases h
    exact List.Subset.refl _
  | examine t p now =>
    simp only [TradeC.step] at h
    split_ifs at h
    exact stocks_examine h ▸ List.Subset.refl _

end

/-! ### The record after a step -/

section
variable {w : ℤ → ℤ} {stocks stocks' : List StockID} {price : ℤ} {usr usr' : User}

theorem Consistent.sameFields (h : Consistent w stocks price usr) (hsame : SameFields usr usr')
    (hstocks : stocks ⊆ stocks') : Consistent w stocks' price usr' := by
  obtain ⟨htime, hstock, hreserve, hno, hside⟩ := hsame
  refine ⟨?_, ?_, ?_, ?_, ?_, ?_⟩
  · rw [hside]
    exact h.side
  · rw [hside, hstock]
    exact h.null
  · rw [hside, htime, hreserve, hno]
    exact h.clear
  · rw [hside, hstock]
    intro hpending
    obtain ⟨st, hst, heq⟩ := h.stock hpending
    exact ⟨st, hstocks hst, heq⟩
  · rw [hside]
    exact h.priced
  · rw [hside, hreserve, hno]
    exact h.reserve

theorem idle_of_cleared (hclear : usr.clearOrder = usr) : usr.buysell = 0 := by
  rw [← hclear]
  rfl

theorem consistent_cleared (hclear : usr.clearOrder = usr) : Consistent w stocks price usr := by
  rw [← hclear]
  have hidle : ∀ {P : Prop}, usr.clearOrder.buysell ≠ 0 → P := fun h => absurd rfl h
  exact ⟨.inr (.inl rfl), iff_of_true rfl rfl, fun _ => ⟨rfl, rfl, rfl⟩, hidle, hidle, hidle⟩

/-- An order that has been made is consistent exactly if its reserve is what `w` keeps of the product. -/
theorem consistent_order {ts reserve no side : ℤ} {st : StockID} (hside : side = 1 ∨ side = -1)
    (hst : st ∈ stocks) (hprice : 1 ≤ price) :
    Consistent w stocks price (usr.order ts st reserve no side) ↔ reserve = w (no * price) := by
  have hne : side ≠ 0 := by omega
  refine ⟨fun h => h.reserve hne, fun h => ⟨?_, ?_, ?_, ?_, ?_, ?_⟩⟩
  · rcases hside with rfl | rfl
    · exact .inr (.inr rfl)
    · exact .inl rfl
  · exact iff_of_false hne (by simp [User.order])
  · exact fun h => absurd h hne
  · exact fun _ => ⟨st, hst, rfl⟩
  · exact fun _ => hprice
  · exact fun _ => h

end

/-! ### Steps -/

section
variable {s s' : State} {e : Event}

theorem server_record (s : State) (c : Cmd) (r : Server × Reply) : (s.record c r).server = r.1 := by
  unfold State.record
  split <;> rfl

theorem record_none {c : Cmd} {r : Server × Reply} (h : Stale.ordered c r.2 = none) :
    (s.record c r).price = s.price := by
  rw [State.record, h]

theorem record_some {c : Cmd} {r : Server × Reply} {q : Quote} (h : Stale.ordered c r.2 = some q) :
    (s.record c r).price = Function.update s.price c.userID q.price := by
  rw [State.record, h]

theorem step_server (h : step s e = some s') : TradeC.step wrap64 s.server e = some s'.server := by
  cases e with
  | command c commStr =>
    obtain ⟨r, hr, rfl⟩ := Option.map_eq_some_iff.mp h
    rw [TradeC.step, hr, server_record]
    rfl
  | connect u =>
    obtain ⟨server, hr, rfl⟩ := Option.map_eq_some_iff.mp h
    exact hr
  | quote st q =>
    cases h
    rfl
  | examine t p now =>
    obtain ⟨server, hr, rfl⟩ := Option.map_eq_some_iff.mp h
    exact hr

/-- If the event is a command of `u`, its reserve fits. -/
def FitsFor (s : State) (e : Event) (u : UserID) : Prop :=
  ∀ c commStr, e = .command c commStr → c.userID = u → Fits s e

/-- What a step may leave of a user's record and its price. -/
inductive Leaves (s : State) (e : Event) (s' : State) (u : UserID) : Prop
  | keeps (price : s'.price u = s.price u)
      (user : Option.Rel SameFields (s.server.user u) (s'.server.user u)) (fits : FitsFor s e u)
  | makes (c : Cmd) (commStr : Option CStr) (usr : User) (ts no side : ℤ) (st : StockID)
      (event : e = .command c commStr ∧ c.userID = u) (creates : Creates c side)
      (before : s.server.user u = some usr) (idle : usr.buysell = 0)
      (after : s'.server.user u =
        some (usr.order ts st (wrap64 (s'.price u * no)) no side))
      (price : 1 ≤ s'.price u) (stock : st ∈ s'.server.stocks)
      (fits : Fits s e ↔ InLong (s'.price u * no))
  | clears (c : Cmd) (commStr : Option CStr) (usr usr' : User)
      (event : e = .command c commStr ∧ c.userID = u) (clears : ClearsSide c usr.buysell)
      (before : s.server.user u = some usr) (after : s'.server.user u = some usr')
      (cleared : usr'.clearOrder = usr') (fits : FitsFor s e u)
  | loads (usr' : User) (before : s.server.user u = none) (after : s'.server.user u = some usr')
      (cleared : usr'.clearOrder = usr') (fits : FitsFor s e u)

theorem rel_sameFields {o o' : Option User} (h : Option.Rel User.SameOrder o o') :
    Option.Rel SameFields o o' := by
  cases h with
  | none => exact .none
  | some h => exact .some ⟨h.promptTime, h.stockObj, h.reserve, h.no, h.buysell⟩

theorem rel_of_eq {o o' : Option User} (h : o' = o) : Option.Rel SameFields o o' := by
  rw [h]
  cases o with
  | none => exact .none
  | some usr => exact .some ⟨rfl, rfl, rfl, rfl, rfl⟩

/-- A user is loaded without an order. -/
theorem cleared_addUser (w : ℤ → ℤ) (s : Server) (u : UserID) : ∃ usr,
    (addUser w s u).user = Function.update s.user u (some usr) ∧ usr.clearOrder = usr := by
  unfold addUser
  have hset : ∀ {s₁ : Server} {usr : User} {req : List Stmt}, s₁.user = s.user →
      ((s₁.setUser u usr).dbenq req).user = Function.update s.user u (some usr) := fun h => by
    rw [user_dbenq, user_setUser, h]
  refine ⟨_, hset ?_, rfl⟩
  exact (foldl_user (by rintro s ⟨st, n⟩; exact user_findStock s st) _ _).trans
    (foldl_user (by rintro s ⟨tID, st, r⟩; exact user_findStock s st) _ _)

theorem leaves_command {c : Cmd} {commStr : Option CStr} (h : step s (.command c commStr) = some s')
    (u : UserID) : Leaves s (.command c commStr) s' u := by
  obtain ⟨r, hr, rfl⟩ := Option.map_eq_some_iff.mp h
  obtain ⟨cUser, husr, hr⟩ := Option.bind_eq_some_iff.mp hr
  have hfits : Fits s (.command c commStr) ↔ SellFits s.server c cUser (delimSepNoCpy commStr ',') := by
    rw [Fits, husr]
    exact ⟨fun h => h cUser rfl, fun h x hx => by cases hx; exact h⟩
  have hserver := server_record s c r
  have hother : u ≠ c.userID → FitsFor s (.command c commStr) u := by
    rintro hu _ _ ⟨⟩ heq
    exact absurd heq.symm hu
  cases does_dispatch hr with
  | keeps user ordered fits =>
    refine .keeps (by rw [record_none ordered]) ?_ fun _ _ _ _ => hfits.mpr fits
    rw [hserver]
    exact rel_sameFields ((user.mono id fun _ h => h).sameOrders husr u)
  | makes side no st creates idle user ordered price stock fits =>
    have hprice := record_some (s := s) ordered
    by_cases hu : u = c.userID
    · subst hu
      rw [← hserver] at stock user
      refine .makes c commStr cUser (s.server.quoteFor c st).ts no side st ⟨rfl, rfl⟩ creates husr idle
        ?_ ?_ stock ?_
      · rw [hprice, user, Function.update_self, Function.update_self]
      · rw [hprice, Function.update_self]
        exact price
      · rw [hprice, Function.update_self, hfits]
        exact fits
    · refine .keeps ?_ (rel_of_eq ?_) (hother hu)
      · rw [hprice, Function.update_of_ne hu]
      · rw [hserver, user, Function.update_of_ne hu]
  | clears usr' clears user cleared ordered fits =>
    rw [← hserver] at user
    by_cases hu : u = c.userID
    · subst hu
      exact .clears c commStr cUser usr' ⟨rfl, rfl⟩ clears husr (by rw [user, Function.update_self])
        cleared fun _ _ _ _ => hfits.mpr fits
    · refine .keeps (by rw [record_none ordered]) (rel_of_eq ?_) (hother hu)
      rw [user, Function.update_of_ne hu]

theorem leaves_step (h : step s e = some s') (u : UserID) : Leaves s e s' u := by
  cases e with
  | command c commStr => exact leaves_command h u
  | connect v =>
    obtain ⟨server, hr, rfl⟩ := Option.map_eq_some_iff.mp h
    rw [TradeC.step] at hr
    split_ifs at hr with hloaded
    cases hr
    obtain ⟨usr, huser, hclear⟩ := cleared_addUser wrap64 s.server v
    by_cases hu : u = v
    · subst hu
      exact .loads usr (Option.not_isSome_iff_eq_none.mp hloaded)
        ((congrFun huser u).trans (Function.update_self _ _ _)) hclear fun _ _ _ _ => trivial
    · exact .keeps rfl (rel_of_eq ((congrFun huser u).trans (Function.update_of_ne hu _ _)))
        fun _ _ _ _ => trivial
  | quote st q =>
    cases h
    exact .keeps rfl (rel_of_eq rfl) fun _ _ _ _ => trivial
  | examine t p now =>
    obtain ⟨server, hr, rfl⟩ := Option.map_eq_some_iff.mp h
    exact .keeps rfl (rel_sameFields (step_sameOrders hr rfl)) fun _ _ _ _ => trivial

end

/-! ### Runs -/

section
variable {s s' : State} {e : Event}

theorem side_of_creates {c : Cmd} {side : ℤ} (h : Creates c side) : side = 1 ∨ side = -1 := by
  rcases h with ⟨-, h⟩ | ⟨-, h⟩
  · exact .inl h
  · exact .inr h

/-- The record of a user after a step, under any reading of the reserve that an order made has. -/
theorem consistent_after {w : ℤ → ℤ} (hs : AllConsistent w s) (h : step s e = some s') {u : UserID}
    {usr' : User} (husr' : s'.server.user u = some usr')
    (hmade : ∀ no, (FitsFor s e u → InLong (s'.price u * no)) →
      wrap64 (s'.price u * no) = w (no * s'.price u)) :
    Consistent w s'.server.stocks (s'.price u) usr' := by
  cases leaves_step h u with
  | keeps price user =>
    rw [husr'] at user
    generalize hu : s.server.user u = o at user
    cases user with
    | some hsame =>
      rw [price]
      exact (hs u _ hu).sameFields hsame (stocks_step (step_server h))
  | makes c commStr usr ts no side st event creates before idle after price stock fits =>
    obtain rfl := Option.some.inj (husr'.symm.trans after)
    rw [consistent_order (side_of_creates creates) stock price]
    exact hmade no fun hfits => fits.mp (hfits c commStr event.1 event.2)
  | clears c commStr usr usr₁ event clears before after cleared =>
    obtain rfl := Option.some.inj (husr'.symm.trans after)
    exact consistent_cleared cleared
  | loads usr₁ before after cleared =>
    obtain rfl := Option.some.inj (husr'.symm.trans after)
    exact consistent_cleared cleared

/-- As the machine keeps the reserves, the records are consistent whatever fits. -/
theorem step_wrapped (hs : AllConsistent wrap64 s) (h : step s e = some s') : AllConsistent wrap64 s' :=
  fun _ _ husr' => consistent_after hs h husr' fun no _ => by rw [mul_comm]

/-- One step keeps the records consistent exactly if the reserve of an order that it makes fits. -/
theorem step_consistent (hs : AllConsistent id s) (h : step s e = some s') :
    AllConsistent id s' ↔ Fits s e := by
  constructor
  · intro hs'
    cases e with
    | command c commStr =>
      cases leaves_step h c.userID with
      | keeps _ _ fits => exact fits c commStr rfl rfl
      | makes c' commStr' usr ts no side st event creates before idle after price stock fits =>
        have hreserve := (consistent_order (side_of_creates creates) stock price).mp (hs' _ _ after)
        rw [id_eq, mul_comm no] at hreserve
        exact fits.mpr ((wrap64_eq_iff _).mp hreserve)
      | clears _ _ _ _ _ _ _ _ _ fits => exact fits c commStr rfl rfl
      | loads _ _ _ _ fits => exact fits c commStr rfl rfl
    | connect | quote | examine => trivial
  · intro hfits u usr' husr'
    refine consistent_after hs h husr' fun no hin => ?_
    rw [id_eq, mul_comm no]
    exact (wrap64_eq_iff _).mpr (hin fun _ _ _ _ => hfits)

theorem changes_step (h : step s e = some s') {u : UserID} {usr : User}
    (husr : s.server.user u = some usr) :
    ∃ usr', s'.server.user u = some usr' ∧ Changes e u usr usr' := by
  cases leaves_step h u with
  | keeps price user =>
    rw [husr] at user
    generalize hu : s'.server.user u = o at user
    cases user with
    | some hsame => exact ⟨_, rfl, .inl hsame⟩
  | makes c commStr usr₁ ts no side st event creates before idle after =>
    obtain rfl := Option.some.inj (husr.symm.trans before)
    exact ⟨_, after, .inr (.inl ⟨c, commStr, event.1, event.2, idle, creates⟩)⟩
  | clears c commStr usr₁ usr' event clears before after cleared =>
    obtain rfl := Option.some.inj (husr.symm.trans before)
    exact ⟨_, after, .inr (.inr ⟨c, commStr, event.1, event.2, clears, idle_of_cleared cleared⟩)⟩
  | loads usr' before =>
    rw [husr] at before
    cases before

/-- With a stock in every pending order, COMMIT has a result. -/
theorem commit_isSome {w : ℤ → ℤ} (hs : AllConsistent w s) {c : Cmd} {commStr : Option CStr}
    (hcmd : c.userCmd = "COMMIT_BUY".toList ∨ c.userCmd = "COMMIT_SELL".toList)
    (hcomm : delimSepNoCpy commStr ',' = []) (hloaded : (s.server.user c.userID).isSome) :
    (commandHandler wrap64 s.server c commStr).isSome := by
  obtain ⟨cUser, husr⟩ := Option.isSome_iff_exists.mp hloaded
  have hstock : cUser.buysell ≠ 0 → cUser.stockObj ≠ none := fun h hnull =>
    h ((hs _ _ husr).null.mpr hnull)
  rw [commandHandler, husr, Option.bind_some, hcomm]
  unfold Command.dispatch
  dsimp only
  rcases hcmd with hcmd | hcmd
  · rw [if_pos hcmd, Command.commitBuy]
    dsimp only
    split_ifs with hside htime
    · rfl
    · rfl
    · split
      · rename_i hnull
        refine absurd hnull (hstock fun h => hside ?_)
        omega
      · rfl
  · rw [if_neg (by rw [hcmd]; decide), if_neg (by rw [hcmd]; decide), if_pos hcmd, Command.commitSell]
    dsimp only
    split_ifs with hside htime
    · rfl
    · rfl
    · split
      · rename_i hnull
        refine absurd hnull (hstock fun h => hside ?_)
        omega
      · split <;> rfl

end

theorem orderly_of_consistent {s : State} (hwrap : AllConsistent wrap64 s) (hs : AllConsistent id s) :
    Orderly s where
  consistent := hs
  changes _ _ h _ _ husr := changes_step h husr
  commit _ _ := commit_isSome hwrap

theorem allConsistent_initial (w : ℤ → ℤ) (db : Db) : AllConsistent w (initial db) :=
  fun u usr h => by cases h

/-- All the states that a run comes through are in order exactly if each SELL of it that makes an order has
    a price of its shares that fits. -/
theorem orderly_iff (db : Db) (es : List Event) (s : State) (hrun : exec step (initial db) es = some s) :
    (∀ n s', exec step (initial db) (es.take n) = some s' → Orderly s') ↔
      Along step Fits (initial db) es := by
  have hstep : ∀ s e s', AllConsistent wrap64 s ∧ AllConsistent id s → step s e = some s' →
      (AllConsistent wrap64 s' ∧ AllConsistent id s' ↔ Fits s e) := by
    rintro s e s' ⟨hwrap, hs⟩ h
    rw [← step_consistent hs h]
    exact and_iff_right (step_wrapped hwrap h)
  have hinit := allConsistent_initial wrap64 db
  rw [← prefixes_iff_along hstep es _ s ⟨hinit, allConsistent_initial id db⟩ hrun]
  refine forall₃_congr fun n s' hn => ⟨fun h => ⟨?_, h.consistent⟩, fun h => ?_⟩
  · exact exec_inv (fun _ _ _ => step_wrapped) (es.take n) _ s' hinit hn
  · exact orderly_of_consistent h.1 h.2

/-- Ten shares bought, and five of them sold. -/
def someSell : List Event :=
  [.connect aUser, commandAt 100000 100 "ADD" (some "10.00"), commandAt 100000 100 "BUY" (some "ABC,10.00"),
    commandAt 101000 100 "COMMIT_BUY" none, commandAt 102000 100 "SELL" (some "ABC,4.50")]

theorem orderly_iff_someSell : ∃ s, exec step (initial Db.init) someSell = some s ∧
    ∀ n s', exec step (initial Db.init) (someSell.take n) = some s' → Orderly s' := by
  obtain ⟨s, hs⟩ : ∃ s, exec step (initial Db.init) someSell = some s := ⟨_, rfl⟩
  exact ⟨s, hs, (orderly_iff Db.init someSell s hs).mpr (by decide +kernel)⟩

/-- Ten shares bought at 1.00, and two of them sold when one is worth 2^62 cents. -/
def bigSell : List Event :=
  [.connect aUser, commandAt 100000 100 "ADD" (some "10.00"), commandAt 100000 100 "BUY" (some "ABC,10.00"),
    commandAt 101000 100 "COMMIT_BUY" none,
    commandAt 200000 (2 ^ 62) "SELL" (some "ABC,46116860184273879.04")]

/-- The reserve of that SELL is -2^63. -/
theorem reserve_overflows :
    ¬ ∀ es s, exec step (initial Db.init) es = some s → Orderly s := by
  intro h
  obtain ⟨s, hs⟩ : ∃ s, exec step (initial Db.init) bigSell = some s := ⟨_, rfl⟩
  have hget : (exec step (initial Db.init) bigSell).any fun s => (s.server.user aUser).any fun usr =>
      usr.buysell = -1 ∧ usr.no = 2 ∧ s.price aUser = 2 ^ 62 ∧ usr.reserve = -2 ^ 63 := by
    decide +kernel
  rw [hs, Option.any_some] at hget
  obtain ⟨usr, husr, hfields⟩ := (Option.any_eq_true _ _).mp hget
  obtain ⟨hside, hno, hprice, hreserve⟩ := of_decide_eq_true hfields
  have hexact := ((h bigSell s hs).consistent aUser usr husr).reserve (by rw [hside]; decide)
  rw [hreserve, hno, hprice] at hexact
  exact absurd hexact (by decide)

end TradeC.Pending
