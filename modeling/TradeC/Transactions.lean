import TradeC.Takeover

/-! The table that is only written: a row of `transactions` for each transaction that is settled.

    The rows are the books of the other tables: what they come to for a user is what the account and the buy
    triggers of the user hold. -/

namespace TradeC
open Run Decimal Table

structure TranRow where
  userID : UserID
  transID : CStr
  stockID : CStr
  adjustment : ℤ
  timestamp : ℤ
  command : Char

/-- The row that a statement puts into `transactions`. -/
def Stmt.tran : Stmt → Option TranRow
  | .insertTran u tid st adj ts c => (numeric adj).map fun x => ⟨u, tid, st, x, ts, c⟩
  | _ => none

/-- All the tables. -/
structure Schema extends Db where
  transactions : List TranRow

def Schema.init : Schema := ⟨Db.init, []⟩

/-- What the database makes of a request: all of its statements, or nothing. -/
def Schema.answer (t : Schema) (req : List Stmt) : Option Schema :=
  (t.toDb.answer req).map fun db => ⟨db, t.transactions ++ req.filterMap Stmt.tran⟩

/-- Each statement that is answered has put its row there. -/
theorem Schema.answers : ∀ {reqs : List (List Stmt)} {t : Schema} {db : Db}, reqs.foldlM Db.answer t.toDb = some db →
    reqs.foldlM Schema.answer t = some ⟨db, t.transactions ++ reqs.flatten.filterMap Stmt.tran⟩ := by
  intro reqs
  induction reqs with
  | nil =>
    intro t db h
    cases h
    rw [List.flatten_nil, List.filterMap_nil, List.append_nil]
    rfl
  | cons req reqs ih =>
    intro t db h
    rw [List.foldlM_cons] at h
    obtain ⟨db₁, hanswer, hrest⟩ := Option.bind_eq_some_iff.mp h
    rw [List.foldlM_cons, Schema.answer, hanswer, Option.map_some, Option.bind_eq_bind, Option.bind_some, ih hrest,
      List.flatten_cons, List.filterMap_append, List.append_assoc]

/-! ### The books are audited -/

/-- What a row says has come into the account, or gone out. -/
def TranRow.money (r : TranRow) : ℤ := if r.command = 'b' ∨ r.command = 'g' then -r.adjustment else r.adjustment

/-- The sum of the rows of `u`. -/
def posted (rows : List TranRow) (u : UserID) : ℤ := (rows.map fun r => if r.userID = u then r.money else 0).sum

/-- What the requests put into the rows of `u`. -/
def postedBy (reqs : List (List Stmt)) (u : UserID) : ℤ := posted (reqs.flatten.filterMap Stmt.tran) u

theorem postedBy_append (reqs reqs' : List (List Stmt)) (u : UserID) :
    postedBy (reqs ++ reqs') u = postedBy reqs u + postedBy reqs' u := by
  simp only [postedBy, posted, List.flatten_append, List.filterMap_append, List.map_append, List.sum_append]

/-- The text of ADD denotes the cents that `str2price` reads. -/
def Event.ExactAdd : Event → Bool
  | .command c comm =>
    match delimSepNoCpy comm ',' with
    | [a] => c.userCmd ≠ "ADD".toList || str2price id a = -1 || numeric a = some (str2price id a)
    | _ => true
  | _ => true

def ExactAdds {ι : Type*} : Turn ι → Bool
  | .event _ e => e.ExactAdd
  | .fail _ => true

theorem Event.ExactAdd.read {s : Server} {e : Event} (hraw : RawTexts s e) (h : e.ExactAdd) {v : CStr}
    (hv : e.rawText id v) : numeric v = some (str2price id v) := by
  cases e with
  | command c comm =>
    obtain ⟨hprc, ⟨hcmd, hcomm⟩ | ⟨hcmd, stk, hcomm⟩⟩ := hv
    · simpa [Event.ExactAdd, hcomm, hcmd, hprc] using h
    · simpa only [RawTexts, hcomm, hcmd, not_true_eq_false, decide_false, Bool.false_or, hprc,
        decide_eq_true_eq] using hraw
  | connect u => exact hv.elim
  | quote st q => exact hv.elim
  | examine t p now => exact hv.elim

/-- What a move settles is no negative amount. -/
theorem Move.cents_nonneg {find : UserID → StockID → TType → Option TrigID} {b b' : Book} {e : Event}
    {out : Output} (h : Move find b e out b') (hb : b.Priced)
    (hamt : ∀ amt ∈ e.amounts, -1 ≤ str2price id amt) (hok : b.SalesCovered e) :
    ∀ x ∈ out.settled, 0 ≤ x.2.cents := by
  have hnone : ∀ x ∈ Output.none.settled, 0 ≤ x.2.cents := List.forall_mem_nil _
  cases h with
  | idle => exact hnone
  | orderedBuy => exact hnone
  | orderedSell => exact hnone
  | cleared => exact hnone
  | added he ha hprc =>
    have hread := hamt _ he.mem_amounts_add
    refine List.forall_mem_singleton.mpr ?_
    change 0 ≤ str2price id _
    omega
  | bought he ha hside _ => exact List.forall_mem_singleton.mpr ((hb.acct ha).reserve hside)
  | sold he ha hside _ _ => exact List.forall_mem_singleton.mpr (hok.sold he ha hside)
  | firedBuy _ ht _ _ hp _ _ =>
    exact List.forall_mem_singleton.mpr
      (mul_nonneg (le_trans zero_le_one hp) (Int.tdiv_nonneg (hb.trig ht) (le_trans zero_le_one hp)))
  | firedSell he ht ha hty hp hpt ht0 hn hn0 =>
    exact List.forall_mem_singleton.mpr (mul_nonneg (le_trans zero_le_one hp)
      (sellNo_nonneg (hok.fired he ht ha hty hpt ht0 hn hn0) (hb.trig ht) hp))
  | opened => exact List.forall_mem_nil _
  | setBuy => exact List.forall_mem_nil _
  | setSell => exact List.forall_mem_nil _
  | priced => exact List.forall_mem_nil _
  | refunded => exact List.forall_mem_nil _
  | withdrawn => exact List.forall_mem_nil _

/-! ### Rows -/

/-- The rows, from the users, texts and commands of their statements. -/
theorem map_tran (sts : List Stmt) : (sts.filterMap Stmt.tran).map (fun r => (r.userID, r.money)) =
    (sts.filterMap Stmt.entry).filterMap fun x => (numeric x.2.1).map fun adj =>
      (x.1, if x.2.2 = 'b' ∨ x.2.2 = 'g' then -adj else adj) := by
  induction sts with
  | nil => rfl
  | cons st sts ih =>
    cases st with
    | insertTran u tid st adj ts c =>
      cases hadj : numeric adj with
      | none => simpa [Stmt.tran, Stmt.entry, hadj] using ih
      | some x => simpa [Stmt.tran, Stmt.entry, hadj, TranRow.money] using ih
    | _ => exact ih

theorem entries_money {u : UserID} : ∀ {xs : List (CStr × Settlement)},
    (∀ x ∈ xs, numeric x.1 = some x.2.cents) →
    ((xs.map fun x => (u, x.1, x.2.command)).filterMap fun x => (numeric x.2.1).map fun adj =>
      (x.1, if x.2.2 = 'b' ∨ x.2.2 = 'g' then -adj else adj)) = xs.map fun x => (u, x.2.money) := by
  intro xs
  induction xs with
  | nil => exact fun _ => rfl
  | cons x xs ih =>
    intro h
    have hmoney : (if x.2.command = 'b' ∨ x.2.command = 'g' then -x.2.cents else x.2.cents) = x.2.money := by
      cases x.2 <;> simp [Settlement.command, Settlement.cents, Settlement.money]
    rw [List.map_cons, List.filterMap_cons_some (b := (u, x.2.money)), List.map_cons,
      ih fun x' hx' => h x' (List.mem_cons_of_mem x hx')]
    rw [h x List.mem_cons_self, Option.map_some, hmoney]

/-- What is settled is read back from its text. -/
theorem Handed.reads {e : Event} {u : UserID} {s₀ s s' : Server} {reqs : List (List Stmt)}
    {xs : List (CStr × Settlement)} (hh : Handed id (e.rawText id) u s s' reqs xs) (hraw : RawTexts s₀ e)
    (hexact : e.ExactAdd) (hpos : ∀ x ∈ xs, 0 ≤ x.2.cents) : ∀ x ∈ xs, numeric x.1 = some x.2.cents := by
  intro x hx
  rcases hh.texts x hx with htext | ⟨hv, hadd⟩
  · rw [htext]
    exact numeric_price2str (hpos x hx)
  · rw [hadd]
    exact Event.ExactAdd.read hraw hexact hv

/-- The rows of a step come to what it settles. -/
theorem postedBy_hands {w : ℤ → ℤ} {raw : CStr → Prop} {u : UserID} {s s' : Server} {reqs : List (List Stmt)}
    {xs : List (CStr × Settlement)} (hh : Handed w raw u s s' reqs xs)
    (htexts : ∀ x ∈ xs, numeric x.1 = some x.2.cents) (v : UserID) :
    postedBy reqs v = ledger v (xs.map fun x => (u, x.2)) := by
  have hrows := (map_tran reqs.flatten).trans (by rw [hh.entries, entries_money htexts])
  have hsum := congrArg (fun l => (l.map fun x : UserID × ℤ => if x.1 = v then x.2 else 0).sum) hrows
  simp only [List.map_map, Function.comp_def] at hsum
  rw [postedBy, posted, hsum, ledger, List.map_map]
  rfl

/-! ### Runs -/

/-- A clean step adds to the rows of each user what it settles for the user. -/
theorem event_posted {s s' : Server} {e : Event} (hs : s.Survives) (hclean : Clean s e) (hexact : e.ExactAdd)
    (h : step wrap64 s e = some s') (u : UserID) :
    postedBy s'.requests u - ledger u s'.settled = postedBy s.requests u - ledger u s.settled := by
  cases he : e.loads with
  | false =>
    -- the same step over the users in memory, in exact arithmetic
    have hclean' : Clean s.part e := hclean.withDb _
    have hstep := step_part he h
    rw [step_fits hs.kept.wf hclean'.fits] at hstep
    obtain ⟨-, -, out, hmove, -, hsettled, -⟩ := step_steps hs.kept.wf hstep
    have hcents := hmove.cents_nonneg hs.kept.priced hclean.read (SalesCovered.book hclean'.covered)
    rcases step_hands he hstep with hsame | ⟨v, -, reqs, xs, hh⟩
    · obtain ⟨hreqs, -, hsettled'⟩ := record_inj hsame
      have hreqs' : s'.requests = s.requests := hreqs
      have hsettled'' : s'.settled = s.settled := hsettled'
      rw [hreqs', hsettled'']
    · obtain ⟨hreqs, -, hsettled'⟩ := record_inj hh.record
      have hreqs' : s'.requests = s.requests ++ reqs := hreqs
      have hsettled'' : s'.settled = s.settled ++ xs.map fun x => (v, x.2) := hsettled'
      have hout : out.settled = xs.map fun x => (v, x.2) := List.append_cancel_left (hsettled.symm.trans hsettled')
      have hpos : ∀ x ∈ xs, 0 ≤ x.2.cents := fun x hx => hcents _ (hout ▸ List.mem_map_of_mem hx)
      have hreads := hh.reads hclean.texts hexact hpos
      rw [hreqs', postedBy_append, postedBy_hands hh hreads, hsettled'', ledger_append]
      ring
  | true =>
    cases e with
    | connect v =>
      simp only [step] at h
      split_ifs at h
      cases h
      obtain ⟨hreqs, -, hsettled⟩ := record_inj (record_addUser wrap64 s v)
      have hnone : postedBy [[.insertAcct v "0.00".toList]] u = 0 := rfl
      rw [hreqs, hsettled, postedBy_append, hnone, add_zero]
    | command => cases he
    | quote => cases he
    | examine => cases he

theorem turn_posted {ι : Type*} [DecidableEq ι] {S S' : Servers ι} {t : Turn ι} (hS : S.Held)
    (hclean : CleanTurn S t) (hexact : ExactAdds t) (h : turn wrap64 S t = some S') (u : UserID) :
    postedBy S'.requests u - ledger u S'.settled = postedBy S.requests u - ledger u S.settled := by
  cases t with
  | event i e =>
    obtain ⟨m, s', hm, hstep, rfl⟩ := turn_event h
    exact event_posted (hS.survives hm) (hclean.1 m hm) hexact hstep u
  | fail i =>
    obtain ⟨m, -, rfl⟩ := turn_fail h
    rfl

end TradeC
