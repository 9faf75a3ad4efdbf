import TradeC.Columns
import TradeC.Handed
import TradeC.Money

/-! A transaction server over tables that others write as well.

    Each user is served by one server, which loads it from the tables and then writes its rows. So the mirror of
    the tables is kept for the users in memory, and the rows of the others are left as they are. -/

namespace TradeC
open Run Decimal Table

namespace Server

def loaded (s : Server) (u : UserID) : Bool := (s.user u).isSome

/-- The server, over the rows of the users in memory. -/
def part (s : Server) : Server := s.withDb (s.db.part s.loaded)

end Server

/-- The conditions of the mirror, of one event. -/
structure Clean (s : Server) (e : Event) : Prop where
  read : ReadAmounts s e
  texts : RawTexts s e
  covered : SalesCovered s e
  clears : RemovalClears s e
  fits : Fits wrap64 s e
  columns : Columns s e

theorem clean_iff (s : Server) (e : Event) : Clean s e ↔ ReadAmounts s e ∧ RawTexts s e ∧ SalesCovered s e ∧
    RemovalClears s e ∧ Fits wrap64 s e ∧ Columns s e :=
  ⟨fun h => ⟨h.read, h.texts, h.covered, h.clears, h.fits, h.columns⟩,
    fun ⟨h₁, h₂, h₃, h₄, h₅, h₆⟩ => ⟨h₁, h₂, h₃, h₄, h₅, h₆⟩⟩

instance (s : Server) (e : Event) : Decidable (Clean s e) := decidable_of_iff' _ (clean_iff s e)

section Arith
variable (s : Server) (db : Db) (c : Cmd) (cUser : User)

theorem arith_buy_withDb (stk amt : CStr) :
    Arith.buy (s.withDb db) c cUser stk amt = Arith.buy s c cUser stk amt := by
  unfold Arith.buy
  simp only [Server.lenq_withDb, Server.findStock_withDb, Server.freshQuote_withDb, Server.stock_withDb]

theorem arith_sell_withDb (stk amt : CStr) :
    Arith.sell (s.withDb db) c cUser stk amt = Arith.sell s c cUser stk amt := by
  unfold Arith.sell
  simp only [Server.lenq_withDb, Server.findStock_withDb, Server.freshQuote_withDb, Server.stock_withDb]

theorem arith_setBuyAmount_withDb (stk amt : CStr) :
    Arith.setBuyAmount (s.withDb db) c cUser stk amt = Arith.setBuyAmount s c cUser stk amt := by
  unfold Arith.setBuyAmount
  simp only [Server.lenq_withDb, Server.findStock_withDb, Server.mem_withDb]

theorem arith_cancelSetBuy_withDb (stk : CStr) :
    Arith.cancelSetBuy (s.withDb db) c cUser stk = Arith.cancelSetBuy s c cUser stk := by
  unfold Arith.cancelSetBuy
  simp only [Server.lenq_withDb, Server.findStock_withDb, Server.mem_withDb]

/-- No event reads the tables for what it computes. -/
theorem arith_withDb (e : Event) : arith (s.withDb db) e = arith s e := by
  cases e with
  | command c commStr =>
    simp only [arith, Server.user_withDb, Arith.command, arith_buy_withDb, arith_sell_withDb,
      arith_setBuyAmount_withDb, arith_cancelSetBuy_withDb]
  | connect u => rfl
  | quote st q => rfl
  | examine t p now => rfl

end Arith

theorem Clean.withDb {s : Server} {e : Event} (h : Clean s e) (db : Db) : Clean (s.withDb db) e where
  read := h.read
  texts := h.texts
  covered := by
    cases e with
    | command => exact h.covered
    | examine => exact h.covered
    | connect => rfl
    | quote => rfl
  clears := by
    cases e with
    | command => exact h.clears
    | examine => exact h.clears
    | connect => rfl
    | quote => rfl
  fits x hx := h.fits x (arith_withDb s db e ▸ hx)
  columns := by
    cases e with
    | command => exact h.columns
    | examine => exact h.columns
    | connect => rfl
    | quote => rfl

/-! ### Tables that can be loaded -/

/-- Each key has one row, and an amount is read back as it is. -/
structure Db.Sound (db : Db) : Prop where
  accounts : (db.accounts.map Prod.fst).Nodup
  stocks : (db.stocks.map fun r => (r.userID, r.stockID)).Nodup
  triggers : (db.triggers.map TrigRow.key).Nodup
  balance : ∀ r ∈ db.accounts, 0 ≤ r.2 ∧ wrap64 r.2 = r.2
  values : ∀ r ∈ db.triggers, (0 ≤ r.reservedFunds ∧ wrap64 r.reservedFunds = r.reservedFunds) ∧
    0 ≤ r.triggerValue ∧ wrap64 r.triggerValue = r.triggerValue

/-- Rows with different keys in both parts have different keys, where the key tells the part. -/
theorem nodup_of_parts {ρ κ : Type*} {key : ρ → κ} {p : ρ → Bool} {rows : List ρ}
    (hkey : ∀ r r', key r = key r' → p r = p r') (hin : ((rows.filter p).map key).Nodup)
    (hout : ((rows.filter fun r => !p r).map key).Nodup) : (rows.map key).Nodup := by
  have hperm : ((rows.filter p ++ rows.filter fun r => !p r).map key).Perm (rows.map key) :=
    (List.filter_append_perm p rows).map key
  refine hperm.nodup_iff.mp ?_
  rw [List.map_append]
  refine List.nodup_append.mpr ⟨hin, hout, fun k hk k' hk' heq => ?_⟩
  obtain ⟨r, hr, rfl⟩ := List.mem_map.mp hk
  obtain ⟨r', hr', rfl⟩ := List.mem_map.mp hk'
  have hp := (List.mem_filter.mp hr).2
  have hp' := (List.mem_filter.mp hr').2
  rw [← hkey r r' heq, hp] at hp'
  cases hp'

namespace Db
variable {db : Db} {P : UserID → Bool}

theorem Sound.part (h : db.Sound) (P : UserID → Bool) : (db.part P).Sound where
  accounts := h.accounts.sublist (List.filter_sublist.map _)
  stocks := h.stocks.sublist (List.filter_sublist.map _)
  triggers := h.triggers.sublist (List.filter_sublist.map _)
  balance r hr := h.balance r (List.mem_filter.mp hr).1
  values r hr := h.values r (List.mem_filter.mp hr).1

theorem sound_of_parts (hin : (db.part P).Sound) (hout : (db.part fun u => !P u).Sound) : db.Sound where
  accounts := nodup_of_parts (fun r r' h => congrArg P h) hin.accounts hout.accounts
  stocks := nodup_of_parts (fun r r' h => congrArg P (congrArg Prod.fst h)) hin.stocks
    hout.stocks
  triggers := nodup_of_parts (fun r r' h => congrArg P (congrArg Prod.fst h)) hin.triggers
    hout.triggers
  balance r hr := by
    cases hp : P r.1 with
    | true => exact hin.balance r (List.mem_filter.mpr ⟨hr, hp⟩)
    | false => exact hout.balance r (List.mem_filter.mpr ⟨hr, by simp [hp]⟩)
  values r hr := by
    cases hp : P r.userID with
    | true => exact hin.values r (List.mem_filter.mpr ⟨hr, hp⟩)
    | false => exact hout.values r (List.mem_filter.mpr ⟨hr, by simp [hp]⟩)

theorem sound_init : Db.init.Sound :=
  ⟨List.nodup_nil, List.nodup_nil, List.nodup_nil, by simp [init], by simp [init]⟩

/-- A new account gets its row, one that is there is left. -/
theorem run_insertAcct (db : Db) (u : UserID) : db.run [.insertAcct u "0.00".toList] =
    if db.accounts.any (fun r => decide (r.1 = u)) then db
    else { db with accounts := db.accounts ++ [(u, 0)] } := by
  have hzero : numeric "0.00".toList = some 0 := by decide
  refine run_of_foldlM ?_
  simp only [List.foldlM_cons, List.foldlM_nil, exec, hzero, Option.map_some]
  rfl

theorem Sound.insertAcct (h : db.Sound) (u : UserID) : (db.run [.insertAcct u "0.00".toList]).Sound := by
  rw [run_insertAcct]
  split_ifs with hany
  · exact h
  · refine ⟨?_, h.stocks, h.triggers, ?_, h.values⟩
    · rw [List.map_append]
      refine List.nodup_append.mpr ⟨h.accounts, List.nodup_singleton _, fun k hk k' hk' heq => ?_⟩
      obtain ⟨r, hr, rfl⟩ := List.mem_map.mp hk
      refine hany (List.any_eq_true.mpr ⟨r, hr, ?_⟩)
      simpa [heq] using hk'
    · intro r hr
      rcases List.mem_append.mp hr with hr | hr
      · exact h.balance r hr
      · obtain rfl := List.mem_singleton.mp hr
        exact ⟨le_rfl, show wrap64 0 = 0 by decide⟩

/-! ### What is loaded of them -/

theorem loadStocks_part {u : UserID} (hu : P u = true) : (db.part P).loadStocks u = db.loadStocks u := by
  simp only [loadStocks, part, List.filter_filter]
  congr 1
  refine List.filter_congr fun r _ => ?_
  by_cases hr : r.userID = u
  · simp [hr, hu]
  · simp [hr]

theorem loadTriggers_part (w : ℤ → ℤ) {u : UserID} (hu : P u = true) :
    (db.part P).loadTriggers w u = db.loadTriggers w u := by
  simp only [loadTriggers, part, List.filter_filter]
  congr 1
  refine List.filter_congr fun r _ => ?_
  by_cases hr : r.userID = u
  · simp [hr, hu]
  · simp [hr]

theorem loadBalance_part (w : ℤ → ℤ) {u : UserID} (hu : P u = true) :
    (db.part P).loadBalance w u = db.loadBalance w u := by
  have hfind : (db.part P).accounts.find? (fun r => decide (r.1 = u)) =
      db.accounts.find? fun r => decide (r.1 = u) := by
    rw [part, List.find?_filter]
    congr 1
    funext r
    by_cases hr : r.1 = u
    · simp [hr, hu]
    · simp [hr]
  rw [loadBalance, loadBalance, hfind]

/-- The balance that is loaded is the row's, or 0. -/
theorem Sound.loadBalance (h : db.Sound) (u : UserID) :
    0 ≤ db.loadBalance wrap64 u ∧ wrap64 (db.loadBalance wrap64 u) = db.loadBalance wrap64 u ∧
      ∀ r ∈ db.accounts, r.1 = u → db.loadBalance wrap64 u = r.2 := by
  unfold Db.loadBalance
  cases hfind : db.accounts.find? fun r => decide (r.1 = u) with
  | none =>
    refine ⟨le_rfl, by decide, fun r hr hu => ?_⟩
    exact absurd hu (by simpa using List.find?_eq_none.mp hfind r hr)
  | some r =>
    have hr := List.mem_of_find?_eq_some hfind
    have hu : r.1 = u := by simpa using List.find?_some hfind
    obtain ⟨hpos, hw⟩ := h.balance r hr
    dsimp only
    rw [text_read hpos hw]
    refine ⟨hpos, hw, fun r' hr' hu' => ?_⟩
    rw [List.inj_on_of_nodup_map h.accounts hr' hr (hu'.trans hu.symm)]

/-- The triggers that are loaded are the rows'. -/
theorem Sound.mem_loadTriggers (h : db.Sound) {u : UserID} {row : LoadedRow} :
    row ∈ db.loadTriggers wrap64 u ↔
      ∃ r ∈ db.triggers, r.userID = u ∧ (r.transID, r.stockID, r.type, r.reservedFunds, r.triggerValue) = row := by
  simp only [Db.loadTriggers, List.mem_map, List.mem_filter, decide_eq_true_eq]
  refine exists_congr fun r => ?_
  rw [and_assoc]
  refine and_congr_right fun hr => and_congr_right fun _ => ?_
  obtain ⟨⟨hf, hfw⟩, hv, hvw⟩ := h.values r hr
  rw [text_read hf hfw, text_read hv hvw]

theorem Sound.nodup_loadTriggers (h : db.Sound) (w : ℤ → ℤ) (u : UserID) :
    ((db.loadTriggers w u).map fun r => (r.2.1, r.2.2.1)).Nodup := by
  rw [Db.loadTriggers, List.map_map]
  refine List.Nodup.map_on (fun r hr r' hr' heq => ?_) (h.triggers.of_map _ |>.filter _)
  obtain ⟨hmem, hu⟩ := List.mem_filter.mp hr
  obtain ⟨hmem', hu'⟩ := List.mem_filter.mp hr'
  exact List.inj_on_of_nodup_map h.triggers hmem hmem'
    (Prod.ext ((of_decide_eq_true hu).trans (of_decide_eq_true hu').symm) heq)

theorem Sound.nodup_loadStocks (h : db.Sound) (u : UserID) : ((db.loadStocks u).map Prod.fst).Nodup := by
  rw [Db.loadStocks, List.map_map]
  refine List.Nodup.map_on (fun r hr r' hr' heq => ?_) (h.stocks.of_map _ |>.filter _)
  obtain ⟨hmem, hu⟩ := List.mem_filter.mp hr
  obtain ⟨hmem', hu'⟩ := List.mem_filter.mp hr'
  exact List.inj_on_of_nodup_map h.stocks hmem hmem'
    (Prod.ext ((of_decide_eq_true hu).trans (of_decide_eq_true hu').symm) heq)

end Db

/-! ### The mirror of some users -/

section Part
variable {db : Db} {P : UserID → Bool} {b : Book}

theorem Db.rowsOf_part (db : Db) (P : UserID → Bool) : (db.part P).RowsOf fun u => P u where
  accounts r hr := by simpa using (List.mem_filter.mp hr).2
  stocks r hr := by simpa using (List.mem_filter.mp hr).2
  triggers r hr := by simpa using (List.mem_filter.mp hr).2

theorem Mirrors.acct_iff (h : Mirrors (db.part P) b) (u : UserID) (x : ℤ) :
    (P u ∧ (u, x) ∈ db.accounts) ↔ ∃ a, b.acct u = some a ∧ a.balance = x := by
  rw [← h.accounts.iff u x]
  constructor
  · rintro ⟨hu, hr⟩
    exact ⟨(u, x), List.mem_filter.mpr ⟨hr, hu⟩, rfl, rfl⟩
  · rintro ⟨r, hr, rfl, rfl⟩
    obtain ⟨hr, hu⟩ := List.mem_filter.mp hr
    exact ⟨hu, hr⟩

theorem Mirrors.hold_iff (h : Mirrors (db.part P) b) (u : UserID) (st : StockID) (n : ℤ) :
    (P u ∧ ⟨u, st, n⟩ ∈ db.stocks) ↔ ∃ a, b.acct u = some a ∧ a.hold st = some n := by
  rw [← h.stocks.iff (u, st) n]
  constructor
  · rintro ⟨hu, hr⟩
    exact ⟨⟨u, st, n⟩, List.mem_filter.mpr ⟨hr, hu⟩, rfl, rfl⟩
  · rintro ⟨r, hr, hkey, rfl⟩
    obtain ⟨rfl, rfl⟩ := Prod.mk.inj hkey
    obtain ⟨hr, hu⟩ := List.mem_filter.mp hr
    exact ⟨hu, hr⟩

theorem Mirrors.trig_iff (h : Mirrors (db.part P) b) (u : UserID) (st : StockID) (ty : TType) (v : ℤ × ℤ) :
    (P u ∧ ∃ r ∈ db.triggers, r.key = (u, st, ty) ∧ r.val = v) ↔
      ∃ t tr, b.trig t = some tr ∧ tr.key = (u, st, ty) ∧ tr.val = v := by
  rw [← h.triggers.iff (u, st, ty) v]
  constructor
  · rintro ⟨hu, r, hr, hkey, hval⟩
    have hru : r.userID = u := congrArg Prod.fst hkey
    exact ⟨r, List.mem_filter.mpr ⟨hr, hru ▸ hu⟩, hkey, hval⟩
  · rintro ⟨r, hr, hkey, hval⟩
    have hru : r.userID = u := congrArg Prod.fst hkey
    obtain ⟨hr, hu⟩ := List.mem_filter.mp hr
    exact ⟨hru ▸ hu, r, hr, hkey, hval⟩

theorem Db.Sound.mirrors (h : db.Sound)
    (hacct : ∀ u x, (P u ∧ (u, x) ∈ db.accounts) ↔ ∃ a, b.acct u = some a ∧ a.balance = x)
    (hhold : ∀ u st n, (P u ∧ ⟨u, st, n⟩ ∈ db.stocks) ↔ ∃ a, b.acct u = some a ∧ a.hold st = some n)
    (htrig : ∀ u st ty v, (P u ∧ ∃ r ∈ db.triggers, r.key = (u, st, ty) ∧ r.val = v) ↔
      ∃ t tr, b.trig t = some tr ∧ tr.key = (u, st, ty) ∧ tr.val = v) : Mirrors (db.part P) b where
  accounts := by
    refine ⟨(h.part P).accounts, fun u x => ?_⟩
    rw [← hacct u x]
    constructor
    · rintro ⟨r, hr, rfl, rfl⟩
      obtain ⟨hr, hu⟩ := List.mem_filter.mp hr
      exact ⟨hu, hr⟩
    · rintro ⟨hu, hr⟩
      exact ⟨(u, x), List.mem_filter.mpr ⟨hr, hu⟩, rfl, rfl⟩
  stocks := by
    refine ⟨(h.part P).stocks, fun k n => ?_⟩
    rw [← hhold k.1 k.2 n]
    constructor
    · rintro ⟨r, hr, rfl, rfl⟩
      obtain ⟨hr, hu⟩ := List.mem_filter.mp hr
      exact ⟨hu, hr⟩
    · rintro ⟨hu, hr⟩
      exact ⟨⟨k.1, k.2, n⟩, List.mem_filter.mpr ⟨hr, hu⟩, rfl, rfl⟩
  triggers := by
    refine ⟨(h.part P).triggers, fun k v => ?_⟩
    rw [← htrig k.1 k.2.1 k.2.2 v]
    constructor
    · rintro ⟨r, hr, rfl, hval⟩
      obtain ⟨hr, hu⟩ := List.mem_filter.mp hr
      exact ⟨hu, r, hr, rfl, hval⟩
    · rintro ⟨hu, r, hr, hkey, hval⟩
      have hru : r.userID = k.1 := congrArg Prod.fst hkey
      exact ⟨r, List.mem_filter.mpr ⟨hr, hru ▸ hu⟩, hkey, hval⟩

end Part

/-! ### The invariant -/

/-- The users in memory have sound rows. -/
theorem Server.Kept.sound {s : Server} (hs : s.Kept) : s.db.Sound where
  accounts := hs.mirrors.accounts.nodup
  stocks := hs.mirrors.stocks.nodup
  triggers := hs.mirrors.triggers.nodup
  balance r hr := by
    obtain ⟨a, ha, hbal⟩ := (hs.mirrors.accounts.iff r.1 r.2).mp ⟨r, hr, rfl, rfl⟩
    obtain ⟨usr, husr, rfl⟩ := Option.map_eq_some_iff.mp ha
    rw [← hbal]
    exact ⟨(hs.priced.acct ha).funded, hs.stored.balance husr⟩
  values r hr := by
    obtain ⟨t, tr, htr, -, hval⟩ := (hs.mirrors.triggers.iff r.key r.val).mp ⟨r, hr, rfl, rfl⟩
    obtain ⟨hamount, htrig⟩ := Prod.mk.inj hval
    obtain ⟨hw, hw'⟩ := hs.stored.trigger htr
    rw [← hamount, ← htrig]
    exact ⟨⟨hs.priced.trig htr, hw⟩, hs.priced.price htr, hw'⟩

/-- The invariant: the mirror of the users in memory, and rows that can be loaded for all. -/
structure Server.Survives (s : Server) : Prop where
  kept : s.part.Kept
  sound : s.db.Sound

theorem Server.Survives.reloads {s : Server} (hs : s.Survives) {u : UserID} {usr : User}
    (hu : s.user u = some usr) : s.Reloads wrap64 u usr := by
  have hpart : s.loaded u = true := Option.isSome_of_eq_some hu
  have h := hs.kept.reloads (u := u) hu
  have hbal : s.part.db.loadBalance wrap64 u = s.db.loadBalance wrap64 u := Db.loadBalance_part wrap64 hpart
  have hstk : s.part.db.loadStocks u = s.db.loadStocks u := Db.loadStocks_part hpart
  have htrig : s.part.db.loadTriggers wrap64 u = s.db.loadTriggers wrap64 u :=
    Db.loadTriggers_part wrap64 hpart
  exact ⟨hbal ▸ h.balance, hstk ▸ h.stocks, hstk ▸ h.stock_iff, htrig ▸ h.triggers, htrig ▸ h.trigger_iff⟩

/-- Only a connection loads a user, and none is unloaded. -/
theorem step_loaded {w : ℤ → ℤ} {s s' : Server} {e : Event} (he : e.loads = false)
    (h : step w s e = some s') : s'.loaded = s.loaded := by
  have hwrites : ∀ {u : UserID} {usr : User} {keep : Prop} {write : User → Prop} {s' : Server},
      s.user u = some usr → s.Writes u keep write s' → s'.loaded = s.loaded := by
    rintro u usr keep write s' husr (⟨hsame, -⟩ | ⟨usr', hset, -⟩)
    · funext v
      rw [Server.loaded, Server.loaded, hsame]
    · funext v
      by_cases hv : v = u
      · subst hv
        simp [Server.loaded, hset, husr]
      · simp [Server.loaded, hset, hv]
  cases e with
  | connect u => cases he
  | command c commStr =>
    obtain ⟨r, hr, rfl⟩ := Option.map_eq_some_iff.mp h
    obtain ⟨cUser, husr, hr⟩ := Option.bind_eq_some_iff.mp hr
    exact hwrites husr (writes_dispatch hr)
  | quote st q =>
    cases h
    rfl
  | examine t p now =>
    simp only [step] at h
    split_ifs at h
    funext v
    have hsame := sameOrders_examine h v
    unfold SameOrders at hsame
    unfold Server.loaded
    generalize s.user v = o at hsame ⊢
    generalize s'.user v = o' at hsame ⊢
    cases hsame <;> rfl

/-- The same step, over the rows of the users in memory. -/
theorem step_part {w : ℤ → ℤ} {s s' : Server} {e : Event} (he : e.loads = false)
    (h : step w s e = some s') : step w s.part e = some s'.part := by
  obtain ⟨reqs, hreqs, hdb, hall⟩ := step_withDb he h
  have hpart : (s.db.part s.loaded).runs reqs = s'.db.part s'.loaded := by
    rw [Db.runs_part reqs hreqs, hdb, step_loaded he h]
  rw [Server.part, hall, hpart]
  rfl

/-- No step writes the rows of users that are not in memory and not loaded by it. -/
theorem step_rows {w : ℤ → ℤ} {s s' : Server} {e : Event} {P : UserID → Bool}
    (haway : ∀ u, P u = true → s.user u = none ∧ e ≠ .connect u) (h : step w s e = some s') :
    s'.db.part P = s.db.part P := by
  have hout : ∀ {u}, (s.user u).isSome ∨ e = .connect u → P u = false := by
    intro u hu
    refine Bool.eq_false_iff.mpr fun hP => ?_
    obtain ⟨hnone, hne⟩ := haway u hP
    rcases hu with hu | hu
    · rw [hnone] at hu
      cases hu
    · exact hne hu
  cases he : e.loads with
  | false =>
    obtain ⟨reqs, hreqs, hdb, -⟩ := step_withDb he h
    rw [hdb]
    exact Db.part_runs_other reqs fun req hreq st hst => hout (.inl (hreqs req hreq st hst))
  | true =>
    cases e with
    | connect v =>
      simp only [step] at h
      split_ifs at h
      cases h
      rw [show (addUser w s v).db = s.db.run [.insertAcct v "0.00".toList] from db_addUser w s v]
      exact Db.part_run_other (List.forall_mem_singleton.mpr (hout (.inr rfl)))
    | command => cases he
    | quote => cases he
    | examine => cases he

/-- A step that loads no user keeps the invariant: it writes rows of the users in memory only. -/
theorem step_survives {s s' : Server} {e : Event} (hs : s.Survives) (hclean : Clean s e)
    (he : e.loads = false) (h : step wrap64 s e = some s') : s'.Survives := by
  have hpc := hclean.withDb (s.db.part s.loaded)
  have hkept : s'.part.Kept :=
    step_kept hs.kept hpc.read hpc.texts hpc.covered hpc.clears hpc.fits (step_part he h)
  have hrest : s'.db.part (fun u => !s'.loaded u) = s.db.part fun u => !s.loaded u := by
    rw [step_loaded he h]
    refine step_rows (fun u hu => ⟨by simpa [Server.loaded] using hu, ?_⟩) h
    rintro rfl
    cases he
  exact ⟨hkept, Db.sound_of_parts hkept.sound (hrest ▸ hs.sound.part _)⟩

/-! ### Loading -/

/-- The account that a connection makes, or finds. -/
theorem Db.Sound.mem_insertAcct {db : Db} (h : db.Sound) (u v : UserID) (x : ℤ) :
    (v, x) ∈ (db.run [.insertAcct u "0.00".toList]).accounts ↔
      (v, x) ∈ db.accounts ∧ v ≠ u ∨ v = u ∧ db.loadBalance wrap64 u = x := by
  have hother : ∀ (P : Prop), v ≠ u → (P ↔ P ∧ v ≠ u ∨ v = u ∧ db.loadBalance wrap64 u = x) := by
    intro P hv
    simp [hv]
  rw [Db.run_insertAcct]
  by_cases hany : db.accounts.any (fun r => decide (r.1 = u)) = true
  · rw [if_pos hany]
    obtain ⟨⟨u', y⟩, hr, hu'⟩ := List.any_eq_true.mp hany
    obtain rfl : u' = u := of_decide_eq_true hu'
    have hy := (h.loadBalance u').2.2 _ hr rfl
    by_cases hv : v = u'
    · subst hv
      constructor
      · intro hx
        exact .inr ⟨rfl, (h.loadBalance v).2.2 _ hx rfl⟩
      · rintro (⟨-, hne⟩ | ⟨-, rfl⟩)
        · exact absurd rfl hne
        · exact hy ▸ hr
    · exact hother _ hv
  · rw [if_neg hany]
    have hnot : ∀ y, (u, y) ∉ db.accounts := by
      intro y hy
      exact hany (List.any_eq_true.mpr ⟨_, hy, decide_eq_true rfl⟩)
    have hzero : db.loadBalance wrap64 u = 0 := by
      have hfind : (db.accounts.find? fun r => decide (r.1 = u)) = none := by
        rw [List.find?_eq_none]
        intro r hr hru
        exact hany (List.any_eq_true.mpr ⟨r, hr, hru⟩)
      rw [Db.loadBalance, hfind]
    rw [List.mem_append, List.mem_singleton, hzero, Prod.mk.injEq]
    by_cases hv : v = u
    · subst hv
      simp [hnot, eq_comm]
    · simp [hv]

section Load
variable {s : Server} {u : UserID} {usr : User} (hs : s.Survives) (hu : s.user u = none)
include hs hu

theorem Server.Survives.loads :
    ∃ usr, LoadsUser wrap64 u s (addUser wrap64 s u) usr := by
  refine loads_addUser wrap64 hs.kept.indexed hs.kept.wf.nodup (hs.sound.nodup_loadTriggers wrap64 u)
    (hs.sound.nodup_loadStocks u) fun htr heq => ?_
  have hown := hs.kept.wf.owner htr
  rw [heq] at hown
  exact absurd hown (by simp [Server.part, hu])

variable {s' : Server} (hl : LoadsUser wrap64 u s s' usr)
include hl

omit hs hu in
theorem loads_loaded (v : UserID) : s'.loaded v = (s.loaded v || decide (v = u)) := by
  rw [Server.loaded, hl.loaded]
  by_cases hv : v = u
  · simp [hv]
  · simp [hv, Server.loaded]

/-- A trigger in memory is an old one, or made of a row of `u`. -/
theorem loads_obj {t : TrigID} {tr : Trigger} (htr : s'.mem.obj t = some tr) :
    s.mem.obj t = some tr ∧ tr.userObj ≠ u ∨ tr.userObj = u ∧ tr.stockObj ∈ s'.stocks ∧
      ∃ r ∈ s.db.triggers, r.key = tr.key ∧ r.val = tr.val := by
  rcases hl.obj htr with hold | ⟨hst, row, hrow, htu, hfrom⟩
  · refine .inl ⟨hold, fun heq => ?_⟩
    have hown := hs.kept.wf.owner hold
    rw [heq] at hown
    exact absurd hown (by simp [Server.part, hu])
  · obtain ⟨r, hr, hru, hrow⟩ := hs.sound.mem_loadTriggers.mp hrow
    obtain ⟨-, hst', hty, hf, hv⟩ : _ ∧ _ ∧ _ ∧ _ ∧ _ := by simpa using hrow.trans hfrom.symm
    refine .inr ⟨htu, hst, r, hr, ?_, ?_⟩
    · rw [TrigRow.key, Trigger.key, hru, htu, hst', hty]
    · rw [TrigRow.val, Trigger.val, hf, hv]

/-- The triggers in memory are those that were there, and the rows of `u`. -/
theorem loads_trig_iff (v : UserID) (st : StockID) (ty : TType) (val : ℤ × ℤ) :
    (s'.loaded v = true ∧ ∃ r ∈ s.db.triggers, r.key = (v, st, ty) ∧ r.val = val) ↔
      ∃ t tr, s'.part.book.trig t = some tr ∧ tr.key = (v, st, ty) ∧ tr.val = val := by
  rw [loads_loaded hl]
  by_cases hv : v = u
  · subst hv
    simp only [decide_true, Bool.or_true, true_and]
    constructor
    · rintro ⟨r, hr, hkey, rfl⟩
      obtain ⟨hru, rfl, rfl⟩ : _ ∧ _ ∧ _ := by simpa [TrigRow.key] using hkey
      obtain ⟨t, tr, htr, htu, hfrom⟩ := hl.new _ (hs.sound.mem_loadTriggers.mpr ⟨r, hr, hru, rfl⟩)
      obtain ⟨-, hst, hty, hf, hval⟩ : _ ∧ _ ∧ _ ∧ _ ∧ _ := by simpa using hfrom
      refine ⟨t, tr, htr, ?_, ?_⟩
      · rw [Trigger.key, htu, hst, hty]
      · rw [Trigger.val, TrigRow.val, hf, hval]
    · rintro ⟨t, tr, htr, hkey, rfl⟩
      rcases loads_obj hs hu hl htr with ⟨-, hne⟩ | ⟨-, -, r, hr, hkey', hval⟩
      · exact absurd (congrArg Prod.fst hkey) hne
      · exact ⟨r, hr, hkey'.trans hkey, hval⟩
  · have hold := hs.kept.mirrors.trig_iff v st ty val
    simp only [hv, decide_false, Bool.or_false]
    refine hold.trans ⟨?_, ?_⟩
    · rintro ⟨t, tr, htr, hkey, hval⟩
      exact ⟨t, tr, hl.old htr, hkey, hval⟩
    · rintro ⟨t, tr, htr, hkey, hval⟩
      rcases loads_obj hs hu hl htr with ⟨hold', -⟩ | ⟨htu, -⟩
      · exact ⟨t, tr, hold', hkey, hval⟩
      · exact absurd ((congrArg Prod.fst hkey).symm.trans htu) hv

/-- Their values are in range, whichever they are. -/
theorem loads_values {t : TrigID} {tr : Trigger} (htr : s'.mem.obj t = some tr) :
    (0 ≤ tr.amount ∧ wrap64 tr.amount = tr.amount) ∧ 0 ≤ tr.trig ∧ wrap64 tr.trig = tr.trig := by
  rcases loads_obj hs hu hl htr with ⟨hold, -⟩ | ⟨-, -, r, hr, -, hval⟩
  · obtain ⟨h₁, h₂⟩ := hs.kept.stored.trigger hold
    exact ⟨⟨hs.kept.priced.trig hold, h₁⟩, hs.kept.priced.price hold, h₂⟩
  · obtain ⟨hf, hv⟩ := Prod.mk.inj hval
    exact hf ▸ hv ▸ hs.sound.values r hr

theorem loads_mirrors : Mirrors s'.part.db s'.part.book := by
  have hkept := hs.kept.mirrors
  have hloaded := loads_loaded hl
  have hself : s'.user u = some usr := by rw [hl.loaded, Function.update_self]
  have hacct : ∀ {v}, v ≠ u → s'.part.book.acct v = s.part.book.acct v := fun hv => by
    simp only [Server.part, Server.book, Server.user_withDb, hl.loaded, Function.update_of_ne hv]
  have hstocks : s'.db.stocks = s.db.stocks := by
    rw [hl.inserted, Db.run_insertAcct]
    split_ifs <;> rfl
  have htriggers : s'.db.triggers = s.db.triggers := by
    rw [hl.inserted, Db.run_insertAcct]
    split_ifs <;> rfl
  refine Db.Sound.mirrors (hl.inserted ▸ hs.sound.insertAcct u) (fun v x => ?_) (fun v st n => ?_)
    fun v st ty val => ?_
  · rw [hl.inserted, hs.sound.mem_insertAcct, hloaded]
    by_cases hv : v = u
    · subst hv
      simp [Server.part, Server.book, hself, User.account, hl.balance]
    · rw [hacct hv, ← hkept.acct_iff v x]
      simp [hv]
  · rw [hstocks, hloaded]
    by_cases hv : v = u
    · subst hv
      have hrows : ⟨v, st, n⟩ ∈ s.db.stocks ↔ (st, n) ∈ s.db.loadStocks v := by
        simp only [Db.loadStocks, List.mem_map, List.mem_filter, decide_eq_true_eq, Prod.mk.injEq]
        constructor
        · intro hr
          exact ⟨_, ⟨hr, rfl⟩, rfl, rfl⟩
        · rintro ⟨r, ⟨hr, rfl⟩, rfl, rfl⟩
          exact hr
      rw [hrows, ← hl.holds]
      simp [Server.part, Server.book, hself, User.account]
    · rw [hacct hv, ← hkept.hold_iff v st n]
      simp [hv]
  · rw [htriggers]
    exact loads_trig_iff hs hu hl v st ty val

/-- The loading of a user keeps the invariant. -/
theorem survives_loads : s'.Survives := by
  have hself : s'.user u = some usr := by rw [hl.loaded, Function.update_self]
  have hother : ∀ {v usr'}, v ≠ u → s'.user v = some usr' → s.user v = some usr' := fun hv h => by
    rwa [hl.loaded, Function.update_of_ne hv] at h
  have hkeep : ∀ {v}, (s.user v).isSome → (s'.user v).isSome := by
    intro v hv
    by_cases huv : v = u
    · simp [huv, hself]
    · rwa [hl.loaded, Function.update_of_ne huv]
  obtain ⟨hpos, hw, -⟩ := hs.sound.loadBalance u
  have hvalues {t tr} (htr : s'.mem.obj t = some tr) := loads_values hs hu hl htr
  refine ⟨⟨⟨hl.indexed.toWF, fun {v usr'} h => ?_, fun {t tr} htr => ?_, fun {t tr} htr => ?_, hl.nodup,
    Db.rowsOf_part s'.db s'.loaded⟩, hl.indexed, ⟨fun {v a} h => ?_, fun htr => (hvalues htr).1.1,
    fun htr => (hvalues htr).2.1⟩, ⟨fun {v usr'} h => ?_, fun htr => ⟨(hvalues htr).1.2, (hvalues htr).2.2⟩⟩,
    loads_mirrors hs hu hl⟩, hl.inserted ▸ hs.sound.insertAcct u⟩
  · by_cases hv : v = u
    · subst hv
      obtain rfl := Option.some.inj (hself.symm.trans h)
      exact hl.tree
    · exact hs.kept.wf.us (hother hv h)
  · rcases loads_obj hs hu hl htr with ⟨hold, -⟩ | ⟨htu, -⟩
    · exact hkeep (hs.kept.wf.owner hold)
    · exact htu ▸ Option.isSome_of_eq_some hself
  · rcases loads_obj hs hu hl htr with ⟨hold, -⟩ | ⟨-, hst, -⟩
    · exact hl.stocks (hs.kept.wf.listed hold)
    · exact hst
  · obtain ⟨usr', husr', rfl⟩ := Option.map_eq_some_iff.mp h
    by_cases hv : v = u
    · subst hv
      obtain rfl := Option.some.inj (hself.symm.trans husr')
      have hside : usr.buysell ≠ 1 := by
        rw [← hl.idle]
        simp [User.clearOrder]
      have hfunded : 0 ≤ usr.balance := hl.balance ▸ hpos
      exact ⟨hfunded, fun h => absurd h hside, fun h => absurd h hside⟩
    · exact hs.kept.priced.acct (Option.map_eq_some_iff.mpr ⟨usr', hother hv husr', rfl⟩)
  · by_cases hv : v = u
    · subst hv
      obtain rfl := Option.some.inj (hself.symm.trans h)
      exact hl.balance ▸ hw
    · exact hs.kept.stored.balance (hother hv h)

end Load

/-! ### Steps -/

theorem survives_empty {s : Server} (huser : s.user = fun _ => none) (hmem : s.mem = Mem.init)
    (hstocks : s.stocks = []) (hdb : s.db.Sound) : s.Survives := by
  have hpart : s.db.part s.loaded = Db.init := by
    simp [Db.part, Server.loaded, huser, Db.init]
  have hbook : s.part.book = Server.init.book := by
    simp [Server.book, Server.part, Server.init, huser, hmem]
  have hk := kept_init
  refine ⟨⟨⟨?_, ?_, ?_, ?_, ?_, Db.rowsOf_part s.db s.loaded⟩, ?_, hbook ▸ hk.priced, ⟨?_, ?_⟩, ?_⟩, hdb⟩
  · exact hmem ▸ Mem.wf_init
  · simp [Server.part, huser]
  · simp [Server.part, hmem, Mem.init]
  · simp [Server.part, hmem, Mem.init]
  · exact hstocks ▸ List.nodup_nil
  · exact hmem ▸ Mem.indexed_init
  · simp [Server.part, huser]
  · simp [Server.part, hmem, Mem.init]
  · have hempty : s.part.db = Server.init.db := hpart
    rw [hempty, hbook]
    exact hk.mirrors

theorem event_survives {s s' : Server} {e : Event} (hs : s.Survives) (hclean : Clean s e)
    (h : step wrap64 s e = some s') : s'.Survives := by
  cases he : e.loads with
  | false => exact step_survives hs hclean he h
  | true =>
    cases e with
    | connect u =>
      simp only [step, Option.isSome_iff_ne_none] at h
      split_ifs at h with hu
      cases h
      obtain ⟨usr, hl⟩ := hs.loads (not_not.mp hu)
      exact survives_loads hs (not_not.mp hu) hl
    | command => cases he
    | quote => cases he
    | examine => cases he

/-- The database takes the requests of a step. -/
theorem event_taken {s s' : Server} {e : Event} (hs : s.Survives) (hclean : Clean s e)
    (h : step wrap64 s e = some s') : ∃ reqs, s'.requests = s.requests ++ reqs ∧ s'.db = s.db.runs reqs ∧
      ∀ req ∈ reqs, ∀ st ∈ req, st.taken = true := by
  cases he : e.loads with
  | false =>
    have hpc := hclean.withDb (s.db.part s.loaded)
    obtain ⟨hs', out, hmove, -, -, hreqs⟩ :=
      step_takes hs.kept hpc.read hpc.texts hpc.covered hpc.clears hpc.fits (step_part he h)
    have htaken := hmove.taken hpc.columns hs.kept.priced hs'.priced (SalesCovered.book hpc.covered)
      fun ht => by simpa [Server.book] using hs.kept.wf.owner ht
    have hqueued : s'.requests = s.requests ++ queued out.request := hreqs
    rcases step_hands he h with hsame | ⟨u, -, reqs, xs, hh⟩
    · obtain ⟨hreqs', hdb, -⟩ := record_inj hsame
      exact ⟨[], by rw [hreqs', List.append_nil], hdb, by simp⟩
    · obtain ⟨hreqs', hdb, -⟩ := record_inj hh.record
      obtain rfl := List.append_cancel_left (hqueued.symm.trans hreqs')
      refine ⟨_, hqueued, hdb, fun req hreq => ?_⟩
      cases hout : out.request with
      | nil =>
        rw [hout] at hreq
        cases hreq
      | cons st rest =>
        rw [hout, queued, List.mem_singleton] at hreq
        rw [hreq, ← hout]
        exact htaken
  | true =>
    cases e with
    | connect u =>
      simp only [step] at h
      split_ifs at h
      cases h
      obtain ⟨hreqs, hdb, -⟩ := record_inj (record_addUser wrap64 s u)
      refine ⟨_, hreqs, hdb, ?_⟩
      simpa [Stmt.taken] using numericText_zero
    | command => cases he
    | quote => cases he
    | examine => cases he

theorem answers_taken : ∀ {reqs : List (List Stmt)} (db : Db), (∀ req ∈ reqs, ∀ st ∈ req, st.taken = true) →
    reqs.foldlM Db.answer db = some (db.runs reqs) := by
  intro reqs
  induction reqs with
  | nil => exact fun db _ => rfl
  | cons req reqs ih =>
    intro db h
    rw [List.foldlM_cons, answer_of_taken db (h req List.mem_cons_self)]
    exact ih (db.run req) fun req' hreq' => h req' (List.mem_cons_of_mem req hreq')

end TradeC
