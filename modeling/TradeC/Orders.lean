import TradeC.Refusal
import TradeC.System

/-! What the commands do to the record of their user, and to the order pending in it.

    BUY and SELL place an order where there is none, COMMIT and CANCEL clear it. The other commands, the
    quotes and the triggers leave it as it is, and no holding is ever removed, so that the stock of a
    pending sell is still held when it is committed. -/

namespace TradeC
open Server

/-- The record of a user holds one order at most, and a sell is of a stock held. -/
structure User.Sound (usr : User) : Prop where
  us : Trie.WF STOCK_CHARS usr.usTree
  side : usr.buysell = 0 ∨ usr.buysell = 1 ∨ usr.buysell = -1
  held : usr.buysell = -1 → ∀ st, usr.stockObj = some st → (getUserStock usr.usTree st).isSome

/-- The tree `us'` still holds what `us` does. -/
def Holds (us us' : Trie UserStock) : Prop :=
  Trie.WF STOCK_CHARS us → Trie.WF STOCK_CHARS us' ∧
    ∀ st, (getUserStock us st).isSome → (getUserStock us' st).isSome

/-- The pending order is the same, and what is held is still held. -/
structure User.SameOrder (usr usr' : User) : Prop where
  buysell : usr'.buysell = usr.buysell
  stockObj : usr'.stockObj = usr.stockObj
  promptTime : usr'.promptTime = usr.promptTime
  reserve : usr'.reserve = usr.reserve
  no : usr'.no = usr.no
  holds : Holds usr.usTree usr'.usTree

/-- The record of `u` is the only one that may be written: if it is not, `keep`; if it is, `write`. -/
def Server.Writes (s : Server) (u : UserID) (keep : Prop) (write : User → Prop) (s' : Server) : Prop :=
  s'.user = s.user ∧ keep ∨
    ∃ usr', s'.user = Function.update s.user u (some usr') ∧ write usr'

/-- `buysell` of a user, that of nobody being 0. -/
def Server.buysell (s : Server) (u : UserID) : ℤ := ((s.user u).map User.buysell).getD 0

theorem Server.buysell_eq {s : Server} {u : UserID} {usr : User} (h : s.user u = some usr) :
    s.buysell u = usr.buysell := by rw [buysell, h]; rfl

/-- The record of the user, where there is one. -/
def Server.SoundFor (s : Server) (u : UserID) : Prop := ∀ usr, s.user u = some usr → usr.Sound

/-! ### Holdings -/

theorem Holds.refl (us : Trie UserStock) : Holds us us := fun h => ⟨h, fun _ hs => hs⟩

theorem holds_setNum {us : Trie UserStock} {st : StockID} {uso : UserStock}
    (hs : getUserStock us st = some uso) (n : ℤ) : Holds us (setNum us st uso n) := by
  intro hus
  obtain ⟨hwf, hget⟩ := getUserStock_setNum hus hs n
  refine ⟨hwf, fun st' hst' => ?_⟩
  rw [hget]
  split_ifs
  · rfl
  · exact hst'

theorem holds_addUserStock {us : Trie UserStock} {st : StockID} (hs : getUserStock us st = none)
    (n : ℤ) : Holds us (addUserStock us st n).1 := by
  intro hus
  obtain ⟨-, hwf, hget⟩ := getUserStock_addUserStock hus hs n
  refine ⟨hwf, fun st' hst' => ?_⟩
  rw [hget]
  split_ifs
  · rfl
  · exact hst'

theorem holds_takeStock (w : ℤ → ℤ) (u : UserID) (us : Trie UserStock) (st : StockID) (n : ℤ) :
    Holds us (takeStock w u us st n).1 := by
  unfold takeStock
  split
  · rename_i hnone
    exact holds_addUserStock hnone n
  · rename_i uso hsome
    exact holds_setNum hsome _

/-- `addUserStock` makes a tree also where it finds the object. -/
theorem wf_addUserStock {us : Trie UserStock} (hus : Trie.WF STOCK_CHARS us) (st : StockID) (n : ℤ) :
    Trie.WF STOCK_CHARS (addUserStock us st n).1 := by
  obtain ⟨-, htree, -⟩ := Trie.insertPath_spec usSlot_lt hus hus.root (keyPath_usKey st)
  unfold addUserStock
  dsimp only
  split
  · exact htree
  · split
    · exact htree
    · exact Trie.wf_setObj htree _ _

theorem User.SameOrder.sound {usr usr' : User} (h : usr.SameOrder usr') (hs : usr.Sound) :
    usr'.Sound where
  us := (h.holds hs.us).1
  side := by
    rw [h.buysell]
    exact hs.side
  held hside st hst := (h.holds hs.us).2 st (hs.held (h.buysell ▸ hside) st (h.stockObj ▸ hst))

/-! ### Users -/

namespace Server
variable {s s' : Server} {u : UserID} {keep keep' : Prop} {write write' : User → Prop}

theorem user_consume {t : TrigID} {tr : Trigger} {req : List Stmt} (h : s.consume t tr req = some s') :
    s'.user = s.user := by
  obtain ⟨r, -, rfl⟩ := Option.map_eq_some_iff.mp h
  rfl

theorem Writes.mono (h : s.Writes u keep write s') (hk : keep → keep')
    (hw : ∀ usr', write usr' → write' usr') : s.Writes u keep' write' s' := by
  rcases h with ⟨hu, hkeep⟩ | ⟨usr', hu, hwrite⟩
  · exact .inl ⟨hu, hk hkeep⟩
  · exact .inr ⟨usr', hu, hw usr' hwrite⟩

theorem Writes.of_setUser {s₁ : Server} (hu : s₁.user = s.user) {usr' : User} (hw : write usr') :
    s.Writes u keep write (s₁.setUser u usr') := .inr ⟨usr', by simp [hu], hw⟩

/-- The records of the others stay. -/
theorem Writes.frame (h : s.Writes u keep write s') {v : UserID} (hv : v ≠ u) : s'.user v = s.user v := by
  rcases h with ⟨hu, -⟩ | ⟨usr', hu, -⟩
  · rw [hu]
  · rw [hu, Function.update_of_ne hv]

end Server

/-! ### The six commands of the orders -/

def Cmd.isOrder (c : Cmd) : Bool :=
  c.userCmd = "BUY".toList || c.userCmd = "SELL".toList ||
    c.userCmd = "COMMIT_BUY".toList || c.userCmd = "CANCEL_BUY".toList ||
    c.userCmd = "COMMIT_SELL".toList || c.userCmd = "CANCEL_SELL".toList

section
variable {w : ℤ → ℤ} {s : Server} {c : Cmd} {cUser : User}

/-- The record that an order of a side is in. -/
structure Ordered (cUser : User) (side : ℤ) (usr' : User) : Prop where
  usTree : usr'.usTree = cUser.usTree
  buysell : usr'.buysell = side
  held : side = -1 → ∀ st, usr'.stockObj = some st → (getUserStock cUser.usTree st).isSome

/-- BUY and SELL: refused, or answered with data and an order. -/
def Places (s : Server) (c : Cmd) (cUser : User) (side : ℤ) (r : Server × Reply) : Prop :=
  s.Writes c.userID (r.2.refused) (fun usr' => (∃ d data, r.2 = .succ (d :: data)) ∧
    Ordered cUser side usr') r.1

/-- COMMIT and CANCEL: there is no order of the side, or it is cleared. -/
def Clears (s : Server) (c : Cmd) (cUser : User) (side : ℤ) (r : Server × Reply) : Prop :=
  s.Writes c.userID (cUser.Sound → cUser.buysell ≠ side)
    (fun usr' => usr'.buysell = 0 ∧ Holds cUser.usTree usr'.usTree) r.1

theorem places_buy (stk amt : CStr) : Places s c cUser 1 (Command.buy w s c cUser stk amt) := by
  unfold Command.buy
  split
  · exact .inl ⟨rfl, rfl⟩
  dsimp only
  split_ifs
  · exact .inl ⟨rfl, rfl⟩
  · exact .inl ⟨rfl, rfl⟩
  · exact .inl ⟨rfl, rfl⟩
  · exact .inl ⟨by simp, rfl⟩
  · exact .inl ⟨by simp, rfl⟩
  · exact .of_setUser (by simp) ⟨⟨_, _, rfl⟩, rfl, rfl, by simp⟩

theorem places_sell (stk amt : CStr) : Places s c cUser (-1) (Command.sell w s c cUser stk amt) := by
  unfold Command.sell
  split
  · exact .inl ⟨rfl, rfl⟩
  rename_i st _
  dsimp only
  split
  · exact .inl ⟨rfl, rfl⟩
  split
  · exact .inl ⟨by simp, rfl⟩
  · rename_i hheld
    have hsold : ∀ st', some st = some st' → (getUserStock cUser.usTree st').isSome := by
      rintro _ ⟨⟩
      exact Option.isSome_of_eq_some hheld
    split_ifs
    · exact .inl ⟨by simp, rfl⟩
    · exact .inl ⟨by simp, rfl⟩
    · exact .inl ⟨by simp, rfl⟩
    · exact .of_setUser (by simp) ⟨⟨_, _, rfl⟩, rfl, rfl, fun _ => hsold⟩
    · exact .of_setUser (by simp) ⟨⟨_, _, rfl⟩, rfl, rfl, fun _ => hsold⟩

theorem clears_cancelOrder (side : ℤ) :
    Clears s c cUser side (Command.cancelOrder s c cUser side) := by
  unfold Command.cancelOrder
  dsimp only
  split_ifs with hside
  · exact .inl ⟨rfl, fun _ => hside⟩
  · exact .inr ⟨_, rfl, rfl, Holds.refl _⟩

theorem clears_commitBuy {r : Server × Reply} (h : Command.commitBuy w s c cUser = some r) :
    Clears s c cUser 1 r := by
  unfold Command.commitBuy at h
  dsimp only at h
  split_ifs at h with hside
  · cases h
    exact .inl ⟨rfl, fun _ => hside⟩
  · cases h
    exact .inr ⟨_, rfl, rfl, Holds.refl _⟩
  · split at h
    · cases h
    · cases h
      exact .inr ⟨_, rfl, rfl, holds_takeStock w c.userID cUser.usTree _ _⟩

/-- The stock of a pending sell is held, so that the -15 of COMMIT_SELL is never answered. -/
theorem clears_commitSell {r : Server × Reply} (h : Command.commitSell w s c cUser = some r) :
    Clears s c cUser (-1) r := by
  unfold Command.commitSell at h
  dsimp only at h
  split_ifs at h with hside
  · cases h
    exact .inl ⟨rfl, fun _ => hside⟩
  · cases h
    exact .inr ⟨_, rfl, rfl, Holds.refl _⟩
  · split at h
    · cases h
    rename_i st hst
    split at h
    · rename_i hnone
      cases h
      refine .inl ⟨rfl, fun hsound hsell => ?_⟩
      have hheld := hsound.held hsell st hst
      rw [hnone] at hheld
      cases hheld
    · rename_i hheld
      cases h
      exact .inr ⟨_, rfl, rfl, holds_setNum hheld _⟩

/-! ### The other commands -/

/-- What the other commands leave. -/
def Spares (s : Server) (c : Cmd) (cUser : User) (r : Server × Reply) : Prop :=
  s.Writes c.userID True cUser.SameOrder r.1

theorem spares_of_eq {r : Server × Reply} (h : r.1.user = s.user) : Spares s c cUser r :=
  .inl ⟨h, trivial⟩

theorem sameOrder_balance (balance : ℤ) : cUser.SameOrder { cUser with balance } :=
  ⟨rfl, rfl, rfl, rfl, rfl, Holds.refl _⟩

theorem spares_add (amt : CStr) : Spares s c cUser (Command.add w s c cUser amt) := by
  unfold Command.add
  dsimp only
  split_ifs
  · exact spares_of_eq rfl
  · exact .inr ⟨_, rfl, sameOrder_balance _⟩

theorem spares_quote (stk : CStr) : Spares s c cUser (Command.quote s c stk) := by
  refine spares_of_eq ?_
  unfold Command.quote
  split
  · rfl
  · dsimp only
    split_ifs
    · exact user_findStock _ _
    · exact user_findStock _ _

theorem spares_setBuyAmount (stk amt : CStr) :
    Spares s c cUser (Command.setBuyAmount w s c cUser stk amt) := by
  unfold Command.setBuyAmount
  split
  · exact spares_of_eq rfl
  dsimp only
  split_ifs
  · exact spares_of_eq rfl
  · exact spares_of_eq rfl
  · exact spares_of_eq rfl
  · split
    · exact spares_of_eq (user_findStock _ _)
    · exact .inr ⟨{ cUser with balance := w (cUser.balance - str2price w amt) }, by simp,
        sameOrder_balance _⟩

theorem spares_cancelSetBuy {stk : CStr} {r : Server × Reply}
    (h : Command.cancelSetBuy w s c cUser stk = some r) : Spares s c cUser r := by
  unfold Command.cancelSetBuy at h
  split at h
  · cases h
    exact spares_of_eq rfl
  dsimp only at h
  split at h
  · cases h
    exact spares_of_eq (user_findStock _ _)
  · obtain ⟨tr, -, h⟩ := Option.bind_eq_some_iff.mp h
    obtain ⟨removed, -, rfl⟩ := Option.map_eq_some_iff.mp h
    exact .inr ⟨{ cUser with balance := w (cUser.balance + tr.amount) }, by simp,
      sameOrder_balance _⟩

theorem spares_setTrigger (type : TType) (stk amt : CStr) :
    Spares s c cUser (Command.setTrigger w s c type stk amt) := by
  refine spares_of_eq ?_
  unfold Command.setTrigger
  split
  · rfl
  dsimp only
  split_ifs
  · rfl
  · split
    · exact user_findStock _ _
    · exact user_findStock _ _

theorem spares_setSellAmount (stk amt : CStr) :
    Spares s c cUser (Command.setSellAmount w s c cUser stk amt) := by
  refine spares_of_eq ?_
  unfold Command.setSellAmount
  split
  · rfl
  dsimp only
  split_ifs <;> first | rfl | exact user_findStock _ _

theorem spares_cancelSetSell {stk : CStr} {r : Server × Reply}
    (h : Command.cancelSetSell s c stk = some r) : Spares s c cUser r := by
  refine spares_of_eq ?_
  unfold Command.cancelSetSell at h
  split at h
  · cases h
    rfl
  dsimp only at h
  split at h
  · cases h
    exact user_findStock _ _
  · obtain ⟨removed, -, rfl⟩ := Option.map_eq_some_iff.mp h
    exact user_findStock _ _

theorem spares_dumplog (file : CStr) : Spares s c cUser (Command.dumplog s c file) := by
  refine spares_of_eq ?_
  unfold Command.dumplog
  split_ifs <;> rfl

/-! ### Commands -/

/-- Every command writes at most the record of its user. -/
theorem Server.Writes.any {keep : Prop} {write : User → Prop} {s' : Server}
    (h : s.Writes c.userID keep write s') : s.Writes c.userID True (fun _ => True) s' :=
  h.mono (fun _ => trivial) fun _ _ => trivial

/-- Every command writes at most the record of its user, and only the six write the order in it. -/
theorem writes_dispatch {comm : List CStr} {r : Server × Reply}
    (h : Command.dispatch w s c cUser comm = some r) :
    s.Writes c.userID True (fun usr' => c.isOrder = false → cUser.SameOrder usr') r.1 := by
  have hspare : ∀ {r : Server × Reply}, Spares s c cUser r →
      s.Writes c.userID True (fun usr' => c.isOrder = false → cUser.SameOrder usr') r.1 :=
    fun h => h.mono id fun _ hsame _ => hsame
  have horder : ∀ {name : String} {keep : Prop} {write : User → Prop} {r : Server × Reply},
      c.userCmd = name.toList → c.isOrder = true → s.Writes c.userID keep write r.1 →
      s.Writes c.userID True (fun usr' => c.isOrder = false → cUser.SameOrder usr') r.1 :=
    fun _ hname h => h.mono (fun _ => trivial) fun _ _ hnot => by rw [hname] at hnot; cases hnot
  cases Command.dispatched h with
  | commitBuy hcmd h => exact horder hcmd (by simp [Cmd.isOrder, hcmd]) (clears_commitBuy h)
  | cancelBuy hcmd => exact horder hcmd (by simp [Cmd.isOrder, hcmd]) (clears_cancelOrder 1)
  | commitSell hcmd h => exact horder hcmd (by simp [Cmd.isOrder, hcmd]) (clears_commitSell h)
  | cancelSell hcmd => exact horder hcmd (by simp [Cmd.isOrder, hcmd]) (clears_cancelOrder (-1))
  | displaySummary _ => exact hspare (spares_of_eq rfl)
  | add _ => exact hspare (spares_add _)
  | quote _ => exact hspare (spares_quote _)
  | cancelSetBuy _ h => exact hspare (spares_cancelSetBuy h)
  | cancelSetSell _ h => exact hspare (spares_cancelSetSell h)
  | dumplog _ => exact hspare (spares_dumplog _)
  | buy hcmd => exact horder hcmd (by simp [Cmd.isOrder, hcmd]) (places_buy _ _)
  | sell hcmd => exact horder hcmd (by simp [Cmd.isOrder, hcmd]) (places_sell _ _)
  | setBuyAmount _ => exact hspare (spares_setBuyAmount _ _)
  | setBuyTrigger _ => exact hspare (spares_setTrigger .b _ _)
  | setSellAmount _ => exact hspare (spares_setSellAmount _ _)
  | setSellTrigger _ => exact hspare (spares_setTrigger .s _ _)
  | badcmd _ => exact hspare (spares_of_eq rfl)

end

/-! ### Steps -/

section
variable {w : ℤ → ℤ} {s s' : Server}

theorem User.SameOrder.refl (usr : User) : usr.SameOrder usr := ⟨rfl, rfl, rfl, rfl, rfl, Holds.refl _⟩

/-- The orders are those of before, of whichever user. -/
def SameOrders (s s' : Server) (u : UserID) : Prop :=
  Option.Rel User.SameOrder (s.user u) (s'.user u)

theorem sameOrders_of_eq {u : UserID} (h : s'.user u = s.user u) : SameOrders s s' u := by
  rw [SameOrders, h]
  cases s.user u with
  | none => exact .none
  | some usr => exact .some (.refl usr)

theorem SameOrders.buysell {u : UserID} (h : SameOrders s s' u) : s'.buysell u = s.buysell u := by
  unfold SameOrders at h
  unfold Server.buysell
  generalize s.user u = o at h ⊢
  generalize s'.user u = o' at h ⊢
  cases h with
  | none => rfl
  | some hsame => exact hsame.buysell

theorem SameOrders.sound {u : UserID} (h : SameOrders s s' u) (hs : s.SoundFor u) : s'.SoundFor u := by
  intro usr' husr'
  rw [SameOrders, husr'] at h
  generalize ho : s.user u = o at h
  cases h with
  | some hsame => exact hsame.sound (hs _ ho)

theorem Server.Writes.sameOrders {v : UserID} {usr : User} {keep : Prop}
    (h : s.Writes v keep usr.SameOrder s') (hv : s.user v = some usr) (u : UserID) :
    SameOrders s s' u := by
  by_cases hu : u = v
  · subst hu
    rcases h with ⟨hsame, -⟩ | ⟨usr', hset, hsame⟩
    · exact sameOrders_of_eq (by rw [hsame])
    · rw [SameOrders, hv, hset, Function.update_self]
      exact .some hsame
  · exact sameOrders_of_eq (h.frame hu)

theorem sameOrders_examine {t : TrigID} {p now : ℤ} (h : Sweep.examine w s t p now = some s')
    (u : UserID) : SameOrders s s' u := by
  obtain ⟨tr, -, h⟩ := Option.bind_eq_some_iff.mp h
  obtain ⟨usr, husr, h⟩ := Option.bind_eq_some_iff.mp h
  have hrefl := sameOrders_of_eq (s := s) (u := u) rfl
  suffices s' = s ∨ s.Writes tr.userObj True usr.SameOrder s' by
    rcases this with rfl | hwrites
    · exact hrefl
    · exact hwrites.sameOrders husr u
  dsimp only at h
  split at h
  · split_ifs at h with hlow
    · unfold Sweep.fireBuy at h
      dsimp only at h
      split_ifs at h with hzero
      · exact .inl (Option.some.inj h).symm
      · exact .inr (.inr ⟨_, user_consume h, rfl, rfl, rfl, rfl, rfl, holds_takeStock _ _ _ _ _⟩)
    · exact .inl (Option.some.inj h).symm
  · split_ifs at h with hhigh
    · unfold Sweep.fireSell at h
      dsimp only at h
      split at h
      · exact .inl (Option.some.inj h).symm
      rename_i hheld
      split_ifs at h
      · exact .inl (Option.some.inj h).symm
      · exact .inr (.inr ⟨_, user_consume h, rfl, rfl, rfl, rfl, rfl, holds_setNum hheld _⟩)
      · exact .inr (.inr ⟨_, user_consume h, rfl, rfl, rfl, rfl, rfl, holds_setNum hheld _⟩)
    · exact .inl (Option.some.inj h).symm

theorem foldl_user {α : Type*} {f : Server → α → Server} (hf : ∀ s a, (f s a).user = s.user) :
    ∀ (as : List α) (s : Server), (as.foldl f s).user = s.user := by
  intro as
  induction as with
  | nil =>
    intro _
    rfl
  | cons a as ih =>
    intro s
    rw [List.foldl_cons, ih, hf]

/-- A user is loaded without an order. -/
theorem user_addUser (w : ℤ → ℤ) (s : Server) (u : UserID) : ∃ usr,
    (addUser w s u).user = Function.update s.user u (some usr) ∧ usr.buysell = 0 ∧ usr.Sound := by
  have htree : ∀ (stocks : List (StockID × ℤ)) (us : Trie UserStock), Trie.WF STOCK_CHARS us →
      Trie.WF STOCK_CHARS (stocks.foldl (fun us r => (addUserStock us r.1 r.2).1) us) := by
    intro stocks
    induction stocks with
    | nil => exact fun _ hus => hus
    | cons r stocks ih => exact fun us hus => ih _ (wf_addUserStock hus r.1 r.2)
  unfold addUser
  have hsound : ∀ {balance us}, Trie.WF STOCK_CHARS us →
      (⟨balance, 0, none, 0, 0, 0, us⟩ : User).Sound := fun hus =>
    ⟨hus, .inl rfl, fun h => absurd (show (0 : ℤ) = -1 from h) (by decide)⟩
  have hset : ∀ {s₁ : Server} {usr : User} {req : List Stmt}, s₁.user = s.user →
      ((s₁.setUser u usr).dbenq req).user = Function.update s.user u (some usr) := fun h => by
    rw [user_dbenq, user_setUser, h]
  refine ⟨_, hset ?_, rfl, hsound (htree _ _ Trie.wf_empty)⟩
  exact (foldl_user (by rintro s ⟨st, n⟩; exact user_findStock s st) _ _).trans
    (foldl_user (by rintro s ⟨tID, st, r⟩; exact user_findStock s st) _ _)

/-- The steps that are neither the loading of a user nor one of the six commands for it. -/
def Event.spares (u : UserID) : Event → Bool
  | .connect v => v ≠ u
  | .command c _ => c.userID ≠ u || !c.isOrder
  | .quote _ _ | .examine _ _ _ => true

theorem step_sameOrders {e : Event} (h : step w s e = some s') {u : UserID} (he : e.spares u) :
    SameOrders s s' u := by
  cases e with
  | connect v =>
    simp only [step] at h
    split_ifs at h
    cases h
    obtain ⟨usr, huser, -⟩ := user_addUser w s v
    have hv : v ≠ u := of_decide_eq_true he
    exact sameOrders_of_eq (by rw [huser, Function.update_of_ne hv.symm])
  | command c commStr =>
    obtain ⟨r, hr, rfl⟩ := Option.map_eq_some_iff.mp h
    obtain ⟨cUser, husr, hr⟩ := Option.bind_eq_some_iff.mp hr
    have hwrites := writes_dispatch hr
    by_cases hu : u = c.userID
    · have hnot : c.isOrder = false := by simpa [Event.spares, hu] using he
      exact (hwrites.mono id fun _ hsame => hsame hnot).sameOrders husr u
    · exact sameOrders_of_eq (hwrites.frame hu)
  | quote st q =>
    cases h
    exact sameOrders_of_eq rfl
  | examine t p now =>
    simp only [step] at h
    split_ifs at h
    exact sameOrders_examine h u

end

end TradeC
