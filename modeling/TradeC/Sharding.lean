import TradeC.Workload

/-! Where the commands of a user go: the server that the workload generator sends them to, and the database
    that a server keeps the user in.

    Both programs add up the same values of the characters. The generator takes the sum modulo its threads,
    which are connected to the servers in turn; a server takes it modulo the databases. -/

namespace TradeC.Sharding
open Workload

def NUM_DB : ℕ := 5

/-- The loop of the server's `userSort`: `sum` so far. No string in memory is long enough for it to overflow. -/
def userSortLoop : CStr → ℤ → ℤ
  | [], sum => sum.tmod NUM_DB
  | c :: cs, sum =>
    match charSort c with
    | some value => userSortLoop cs (sum + value)
    | none => 0

/-- `userSort` of a transaction server; `none` is NULL. -/
def userSort : Option CStr → ℤ
  | none => -1
  | some userID => userSortLoop userID 0

/-- The servers of the connections that `main` has still to make, when the next is `j`. -/
def connectLoop : ℕ → ℕ → List ℕ
  | 0, _ => []
  | n + 1, j => j :: connectLoop n ((j + 1) % TRANS_NUM)

/-- The server of each connection. -/
def connections : List ℕ := connectLoop NUM_THREADS 0

theorem getElem?_connectLoop : ∀ (n j i : ℕ), j < TRANS_NUM → i < n →
    (connectLoop n j)[i]? = some ((j + i) % TRANS_NUM)
  | n + 1, j, 0, hj, _ => by
    rw [connectLoop, List.getElem?_cons_zero, Nat.add_zero, Nat.mod_eq_of_lt hj]
  | n + 1, j, i + 1, _, hi => by
    have hnext : (j + 1) % TRANS_NUM < TRANS_NUM := Nat.mod_lt _ (by decide)
    rw [connectLoop, List.getElem?_cons_succ,
      getElem?_connectLoop n _ i hnext (Nat.lt_of_succ_lt_succ hi), Nat.mod_add_mod,
      Nat.add_assoc, Nat.add_comm 1 i]

/-- The connections take the servers in turn. -/
theorem connections_eq (k : Fin NUM_THREADS) : connections[k.val]? = some (serverOf k) := by
  rw [connections, getElem?_connectLoop _ _ _ (by decide) k.isLt, Nat.zero_add]
  rfl

theorem charSort_nonneg {c : Char} {value : ℤ} (h : charSort c = some value) : 0 ≤ value := by
  unfold charSort at h
  split_ifs at h <;> cases h <;> omega

theorem foldl_nonneg : ∀ {values : List ℤ} {sum : ℤ}, 0 ≤ sum → (∀ v ∈ values, 0 ≤ v) →
    0 ≤ values.foldl (· + ·) sum := by
  intro values
  induction values with
  | nil =>
    intro _ hsum _
    exact hsum
  | cons v values ih =>
    intro sum hsum h
    rw [List.foldl_cons]
    exact ih (Int.add_nonneg hsum (h v List.mem_cons_self)) fun x hx => h x (List.mem_cons_of_mem _ hx)

theorem mapM_charSort_nonneg : ∀ {userID : CStr} {values : List ℤ}, userID.mapM charSort = some values →
    ∀ v ∈ values, 0 ≤ v := by
  intro userID
  induction userID with
  | nil =>
    intro values h
    rw [List.mapM_nil] at h
    cases h
    exact fun _ hv => absurd hv List.not_mem_nil
  | cons c cs ih =>
    intro values h
    rw [List.mapM_cons] at h
    obtain ⟨value, hvalue, h⟩ := Option.bind_eq_some_iff.mp h
    obtain ⟨rest, hrest, h⟩ := Option.bind_eq_some_iff.mp h
    cases h
    intro v hv
    rcases List.mem_cons.mp hv with rfl | hv
    · exact charSort_nonneg hvalue
    · exact ih hrest v hv

/-- The server's loop gives the sum modulo the databases, or zero where a character has no value. -/
theorem userSortLoop_eq : ∀ (userID : CStr) (sum : ℤ), userSortLoop userID sum =
    match userID.mapM charSort with
    | some values => (values.foldl (· + ·) sum).tmod NUM_DB
    | none => 0 := by
  intro userID
  induction userID with
  | nil =>
    intro sum
    rfl
  | cons c cs ih =>
    intro sum
    rw [userSortLoop, List.mapM_cons]
    cases hc : charSort c with
    | none => rfl
    | some value =>
      simp only
      rw [ih (sum + value)]
      cases cs.mapM charSort <;> rfl

/-- The server that the commands of a user are sent to is the database of the user there. -/
theorem server_eq_database (userID : CStr) : ∃ j : ℕ,
    connections[(Workload.userSort userID).val]? = some j ∧ (j : ℤ) = userSort (some userID) ∧
      j < TRANS_NUM ∧ j < NUM_DB := by
  refine ⟨serverOf (Workload.userSort userID), connections_eq _, ?_, Nat.mod_lt _ (by decide),
    Nat.mod_lt _ (by decide)⟩
  rw [userSort, userSortLoop_eq, serverOf, Workload.userSort]
  cases hvalues : userID.mapM charSort with
  | none => rfl
  | some values =>
    have hsum := foldl_nonneg (Int.le_refl 0) (mapM_charSort_nonneg hvalues)
    have hdvd : NUM_DB ∣ NUM_THREADS := by decide
    simp only
    rw [show TRANS_NUM = NUM_DB from rfl, Nat.mod_mod_of_dvd _ hdvd, Int.tmod_eq_emod_of_nonneg hsum,
      Int.natCast_mod, Int.toNat_of_nonneg hsum]

end TradeC.Sharding
