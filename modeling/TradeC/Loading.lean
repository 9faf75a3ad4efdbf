import TradeC.Tables
import TradeC.Trigger.Coherence

/-! What `addUser` makes of a user's rows.

    The rows of a table have different keys, and the user is not in memory; so each row of `triggers` gives
    a new trigger, each row of `stocks` a holding, and nothing else in memory changes. -/

namespace TradeC
open Server

/-- A row of `triggers`, as it is read. -/
abbrev LoadedRow : Type := CStr × StockID × TType × ℤ × ℤ

/-- The trigger is made from a row. -/
def Trigger.From (tr : Trigger) (u : UserID) (r : LoadedRow) : Prop :=
  tr.userObj = u ∧ (tr.transID, tr.stockObj, tr.type, tr.amount, tr.trig) = r

/-- The memory after the triggers of `u` have been loaded from the rows. -/
structure LoadsTriggers (u : UserID) (rows : List LoadedRow) (s s' : Server) : Prop where
  settled : s'.settled = s.settled
  stocks : s.stocks ⊆ s'.stocks
  nodup : s'.stocks.Nodup
  indexed : s'.mem.Indexed
  old : ∀ {t tr}, s.mem.obj t = some tr → s'.mem.obj t = some tr
  obj : ∀ {t tr}, s'.mem.obj t = some tr →
    s.mem.obj t = some tr ∨ tr.stockObj ∈ s'.stocks ∧ ∃ r ∈ rows, tr.From u r
  new : ∀ r ∈ rows, ∃ t tr, s'.mem.obj t = some tr ∧ tr.From u r

/-- The loop of `addUser` over the rows of `triggers`. -/
def loadTriggers (u : UserID) (s : Server) (rows : List LoadedRow) : Server :=
  rows.foldl (fun s (tID, stockID, buysell, amountPrc, trigPrc) =>
    let s := s.findStock stockID
    { s with mem := (s.mem.addTrigger u tID stockID buysell amountPrc trigPrc).1 }) s

theorem loads_triggers {u : UserID} : ∀ {rows : List LoadedRow} {s : Server}, s.mem.Indexed → s.stocks.Nodup →
    (rows.map fun r => (r.2.1, r.2.2.1)).Nodup → (∀ r ∈ rows, s.mem.getTrigger u r.2.1 r.2.2.1 = none) →
    LoadsTriggers u rows s (loadTriggers u s rows) ∧ (loadTriggers u s rows).user = s.user ∧
      (loadTriggers u s rows).db = s.db := by
  intro rows
  induction rows with
  | nil =>
    intro s hi hnodup _ _
    exact ⟨⟨rfl, List.Subset.refl _, hnodup, hi, id, .inl, by simp⟩, rfl, rfl⟩
  | cons r rows ih =>
    intro s hi hnodup hkeys hnone
    obtain ⟨tid, st, ty, amount, trig⟩ := r
    obtain ⟨hfirst, hrest⟩ := List.nodup_cons.mp hkeys
    have hq : s.Quiet (s.findStock st) := quiet_findStock st
    have hi₁ := Mem.indexed_add hi u tid st ty amount trig
    obtain ⟨m', hadd, -, -, hobj, -, hgets⟩ :=
      hi.toWF.addTrigger_new (hnone _ List.mem_cons_self) tid amount trig
    rw [hadd] at hi₁
    set tr₁ : Trigger := ⟨ty, trig, amount, tid, Mem.keyOf st ty, u, st⟩ with htr₁
    set s₁ : Server := { s.findStock st with mem := m' } with hs₁
    have hload : loadTriggers u s ((tid, st, ty, amount, trig) :: rows) = loadTriggers u s₁ rows := by
      rw [loadTriggers, List.foldl_cons]
      dsimp only
      rw [hq.mem, hadd]
      rfl
    have hnone₁ : ∀ r ∈ rows, s₁.mem.getTrigger u r.2.1 r.2.2.1 = none := by
      intro r hr
      refine (hgets u r.2.1 r.2.2.1).trans ?_
      rw [if_neg]
      · exact hnone r (List.mem_cons_of_mem _ hr)
      · rintro ⟨-, hst, hty⟩
        exact hfirst (List.mem_map.mpr ⟨r, hr, Prod.ext hst hty⟩)
    obtain ⟨h, huser, hdb⟩ := ih (s := s₁) hi₁ (hq.nodup hnodup) hrest hnone₁
    have hobj₁ : s₁.mem.obj = Function.update s.mem.obj s.mem.fresh (some tr₁) := hobj
    have hnew : s₁.mem.obj s.mem.fresh = some tr₁ := by rw [hobj₁, Function.update_self]
    have hother : ∀ {t}, t ≠ s.mem.fresh → s₁.mem.obj t = s.mem.obj t := fun ht => by
      rw [hobj₁, Function.update_of_ne ht]
    rw [hload]
    refine ⟨⟨h.settled.trans hq.settled, fun _ hx => h.stocks (hq.stocks hx), h.nodup, h.indexed,
      fun {t tr} htr => ?_, fun {t tr} htr => ?_, ?_⟩, huser.trans hq.user, hdb.trans hq.db⟩
    · exact h.old ((hother (hi.toWF.live htr).ne).trans htr)
    · rcases h.obj htr with htr | ⟨hst, r, hr, hfrom⟩
      · by_cases ht : t = s.mem.fresh
        · subst ht
          obtain rfl := Option.some.inj (hnew.symm.trans htr)
          exact .inr ⟨h.stocks (mem_findStock s st), _, List.mem_cons_self, rfl, rfl⟩
        · exact .inl ((hother ht).symm.trans htr)
      · exact .inr ⟨hst, r, List.mem_cons_of_mem _ hr, hfrom⟩
    · intro r hr
      rcases List.mem_cons.mp hr with rfl | hr
      · exact ⟨_, tr₁, h.old hnew, rfl, rfl⟩
      · exact h.new r hr

theorem db_loadTriggers (u : UserID) : ∀ (rows : List LoadedRow) (s : Server), (loadTriggers u s rows).db = s.db := by
  intro rows
  induction rows with
  | nil =>
    intro s
    rfl
  | cons r rows ih =>
    intro s
    obtain ⟨tid, st, ty, amount, trig⟩ := r
    exact (ih _).trans (quiet_findStock st).db

/-! ### Holdings -/

/-- The loop of `addUser` over the rows of `stocks`. -/
def loadUsTree (us : Trie UserStock) (stocks : List (StockID × ℤ)) : Trie UserStock :=
  stocks.foldl (fun us (stockID, num) => (addUserStock us stockID num).1) us

theorem loads_usTree : ∀ {stocks : List (StockID × ℤ)} {us : Trie UserStock}, Trie.WF STOCK_CHARS us →
    (stocks.map Prod.fst).Nodup → (∀ r ∈ stocks, getUserStock us r.1 = none) →
    Trie.WF STOCK_CHARS (loadUsTree us stocks) ∧ ∀ st n,
      (getUserStock (loadUsTree us stocks) st).map UserStock.num = some n ↔
        (getUserStock us st).map UserStock.num = some n ∨ (st, n) ∈ stocks := by
  intro stocks
  induction stocks with
  | nil =>
    intro us hw _ _
    exact ⟨hw, by simp [loadUsTree]⟩
  | cons r stocks ih =>
    intro us hw hkeys hnone
    obtain ⟨st₁, n₁⟩ := r
    obtain ⟨hfirst, hrest⟩ := List.nodup_cons.mp hkeys
    obtain ⟨-, hw₁, hget⟩ := getUserStock_addUserStock hw (hnone _ List.mem_cons_self) n₁
    have hnone₁ : ∀ r ∈ stocks, getUserStock (addUserStock us st₁ n₁).1 r.1 = none := by
      intro r hr
      rw [hget, if_neg]
      · exact hnone r (List.mem_cons_of_mem _ hr)
      · exact fun hst => hfirst (List.mem_map.mpr ⟨r, hr, hst⟩)
    obtain ⟨hwf, hall⟩ := ih hw₁ hrest hnone₁
    refine ⟨hwf, fun st n => (hall st n).trans ?_⟩
    have hfirst' : ∀ x, (st₁, x) ∉ stocks := fun x hx => hfirst (List.mem_map.mpr ⟨_, hx, rfl⟩)
    rw [hget, List.mem_cons, Prod.mk.injEq]
    by_cases hst : st = st₁
    · subst hst
      have hnil := hnone _ List.mem_cons_self
      simp [hnil, hfirst', eq_comm]
    · simp [hst]

theorem quiet_findStocks : ∀ (stocks : List (StockID × ℤ)) (s : Server),
    s.Quiet (stocks.foldl (fun s (stockID, _) => s.findStock stockID) s) := by
  intro stocks
  induction stocks with
  | nil =>
    intro s
    exact .refl s
  | cons r stocks ih =>
    intro s
    exact (quiet_findStock r.1).trans (ih _)

/-! ### The user -/

/-- Loading a user writes no row but that of its account. -/
theorem db_addUser (w : ℤ → ℤ) (s : Server) (u : UserID) :
    (addUser w s u).db = s.db.run [.insertAcct u "0.00".toList] := by
  have hdb : ((s.db.loadStocks u).foldl (fun s (stockID, _) => s.findStock stockID)
      (loadTriggers u s (s.db.loadTriggers w u))).db = s.db :=
    (quiet_findStocks _ _).db.trans (db_loadTriggers u _ s)
  have hunfold : (addUser w s u).db = (((loadTriggers u s (s.db.loadTriggers w u)).db.loadStocks u).foldl
      (fun s (stockID, _) => s.findStock stockID) (loadTriggers u s (s.db.loadTriggers w u))).db.run
        [.insertAcct u "0.00".toList] := rfl
  rw [hunfold, db_loadTriggers, hdb]

/-- The server after `u` has been loaded from its rows. -/
structure LoadsUser (w : ℤ → ℤ) (u : UserID) (s s' : Server) (usr : User) : Prop
    extends LoadsTriggers u (s.db.loadTriggers w u) s s' where
  loaded : s'.user = Function.update s.user u (some usr)
  idle : usr.clearOrder = usr
  balance : usr.balance = s.db.loadBalance w u
  tree : Trie.WF STOCK_CHARS usr.usTree
  holds : ∀ st n, (getUserStock usr.usTree st).map UserStock.num = some n ↔ (st, n) ∈ s.db.loadStocks u
  inserted : s'.db = s.db.run [.insertAcct u "0.00".toList]

theorem loads_addUser (w : ℤ → ℤ) {s : Server} {u : UserID} (hi : s.mem.Indexed) (hnodup : s.stocks.Nodup)
    (htriggers : ((s.db.loadTriggers w u).map fun r => (r.2.1, r.2.2.1)).Nodup)
    (hstocks : ((s.db.loadStocks u).map Prod.fst).Nodup)
    (hnone : ∀ {t tr}, s.mem.obj t = some tr → tr.userObj ≠ u) :
    ∃ usr, LoadsUser w u s (addUser w s u) usr := by
  have hget : ∀ st ty, s.mem.getTrigger u st ty = none := by
    intro st ty
    by_contra hne
    obtain ⟨t, ht⟩ := Option.ne_none_iff_exists'.mp hne
    obtain ⟨tr, htr, hu, -, -⟩ := hi.toWF.getTrigger_some ht
    exact hnone htr hu
  obtain ⟨h₁, huser₁, hdb₁⟩ := loads_triggers hi hnodup htriggers fun r _ => hget r.2.1 r.2.2.1
  set s₁ := loadTriggers u s (s.db.loadTriggers w u)
  have hq := quiet_findStocks (s.db.loadStocks u) s₁
  set s₂ := (s.db.loadStocks u).foldl (fun s (stockID, _) => s.findStock stockID) s₁ with hs₂
  set usr : User := ⟨s.db.loadBalance w u, 0, none, 0, 0, 0, loadUsTree Trie.empty (s.db.loadStocks u)⟩
  have heq : addUser w s u = (s₂.setUser u usr).dbenq [.insertAcct u "0.00".toList] := by
    have hunfold : addUser w s u = (((s₁.db.loadStocks u).foldl (fun s (stockID, _) => s.findStock stockID)
        s₁).setUser u ⟨((s₁.db.loadStocks u).foldl (fun s (stockID, _) => s.findStock stockID) s₁).db.loadBalance
          w u, 0, none, 0, 0, 0, loadUsTree Trie.empty (s₁.db.loadStocks u)⟩).dbenq
            [.insertAcct u "0.00".toList] := rfl
    rw [hunfold, hdb₁, ← hs₂, hq.db, hdb₁]
  obtain ⟨htree, hholds⟩ := loads_usTree Trie.wf_empty hstocks
    fun r _ => by simp [getUserStock_eq Trie.wf_empty]
  refine ⟨usr, ⟨?_, ?_, ?_, ?_, ?_, ?_, ?_⟩, ?_, rfl, rfl, htree, fun st n => (hholds st n).trans ?_, ?_⟩
  · rw [heq]
    exact hq.settled.trans h₁.settled
  · rw [heq]
    exact fun _ hx => hq.stocks (h₁.stocks hx)
  · rw [heq]
    exact hq.nodup h₁.nodup
  · rw [heq]
    exact hq.mem ▸ h₁.indexed
  · intro t tr htr
    rw [heq]
    exact hq.mem ▸ h₁.old htr
  · intro t tr htr
    rw [heq] at htr ⊢
    have htr₁ : s₁.mem.obj t = some tr := hq.mem ▸ htr
    exact (h₁.obj htr₁).imp id fun h => ⟨hq.stocks h.1, h.2⟩
  · rw [heq]
    exact hq.mem ▸ h₁.new
  · rw [heq, user_dbenq, user_setUser, hq.user, huser₁]
  · simp [getUserStock_eq Trie.wf_empty]
  · rw [heq]
    exact congrArg (fun db => Db.run db [.insertAcct u "0.00".toList]) (hq.db.trans hdb₁)

end TradeC
