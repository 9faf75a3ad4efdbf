import TradeC.Replies
import TradeC.Refine

/-! DISPLAY_SUMMARY: the listing of a user's holdings and triggers.

    `getAllTriggers` and `getAllUserStocks` go through a tree twice, once to count its objects and once to
    write them to an array of that size; the entries are then printed, one a line, to buffers of 64 KiB. -/

namespace TradeC.Summary
open Trie

/-! ### The walk over a tree -/

section
variable {α : Type*} (n : ℕ) (t : Trie α) (fill : Bool)

/-- The object of a node: what is written to the array, and the next count. -/
def visit (p : Path) (count : ℕ) : List (ℕ × α) × ℕ :=
  match t.objAt p with
  | some obj => (if fill then [(count, obj)] else [], count + 1)
  | none => ([], count)

/-- `for(i=0;i<n;i++)`, with the count from one child to the next. -/
def children (body : ℕ → ℕ → List (ℕ × α) × ℕ) : List ℕ → ℕ → List (ℕ × α) × ℕ
  | [], count => ([], count)
  | i :: is, count =>
    let here := body i count
    let rest := children body is here.2
    (here.1 ++ rest.1, rest.2)

/-- `getAllTriggers` and `getAllUserStocks`, whose array is NULL without `fill`: what they write, and the
    count that they return. The first number is how deep the tree is. -/
def getAll : ℕ → Path → ℕ → List (ℕ × α) × ℕ
  | 0, p, count => visit t fill p count
  | d + 1, p, count =>
    let here := visit t fill p count
    if (t p).any Node.child then
      let rest := children (fun i count =>
        if (t (i :: p)).isSome then getAll d (i :: p) count else ([], count)) (List.range n) here.2
      (here.1 ++ rest.1, rest.2)
    else here

/-- `arr[i]` for the `k` indices from `i` on; no result where one of them has not been written. -/
def readFrom {β : Type*} (arr : ℕ → Option β) : ℕ → ℕ → Option (List β)
  | _, 0 => some []
  | i, k + 1 => (arr i).bind fun x => (readFrom arr (i + 1) k).map (x :: ·)

/-- The objects that the entries of the array point to, as `obj` gives them; the array is allocated for those
    that have been counted, and there is no result where one is written behind it. -/
def entries {β : Type*} (obj : α → Option β) (d : ℕ) : Option (List β) :=
  let num := (getAll n t false d [] 0).2
  let writes := getAll n t true d [] 0
  if ∀ x ∈ writes.1, x.1 < num then readFrom (fun i => (writes.1.lookup i).bind obj) 0 writes.2 else none

end

/-! ### The command -/

/-- The lines in a buffer of 0x10000 bytes. -/
def info (lines : List CStr) : Option CStr :=
  if lines.flatten.length < 0x10000 then some lines.flatten else none

def displaySummary (d : ℕ) (m : Mem) (userID : UserID) (cUser : User) (transID userCmd : CStr) :
    Option CStr :=
  (entries (2 * STOCK_CHARS) (m.tTree userID) m.obj d).bind fun triggers =>
    (entries STOCK_CHARS cUser.usTree some d).bind fun userStocks =>
      (info (triggers.map Trigger.line)).bind fun triggerInfo =>
        (info (userStocks.map UserStock.line)).bind fun userStockInfo =>
          let responseStr := "WSR|".toList ++ transID ++ '|' :: userCmd ++ '|' :: "SUCC".toList ++
            '|' :: ld cUser.balance ++ '|' :: userStockInfo ++ '|' :: triggerInfo
          if responseStr.length < 0x100000 then some responseStr else none

/-! ### What the response says -/

/-- The number of a decimal text. -/
def intval : CStr → ℤ
  | '-' :: s => -(Decimal.val s : ℤ)
  | s => Decimal.val s

/-- The lines of a text, each split at `,`. -/
def rows (text : CStr) : List (List CStr) := (Web.explode '\n' text).dropLast.map (Web.explode ',')

def stockRow : List CStr → Option (CStr × ℤ)
  | [stockID, num] => some (stockID, intval num)
  | _ => none

def triggerRow : List CStr → Option (CStr × CStr × ℤ × ℤ)
  | [stockID, type, amount, trig] => some (stockID, type, intval amount, intval trig)
  | _ => none

/-- A response as it is split; a row that has not the fields of one is `none`. -/
structure Listing where
  balance : ℤ
  stocks : List (Option (CStr × ℤ))
  triggers : List (Option (CStr × CStr × ℤ × ℤ))

def split (response : CStr) : Option Listing :=
  match Web.explode '|' response with
  | [_, _, _, _, balance, stocks, triggers] =>
    some ⟨intval balance, (rows stocks).map stockRow, (rows triggers).map triggerRow⟩
  | _ => none

def stockEntry (us : UserStock) : Option (CStr × ℤ) := some (us.stockObj.str, us.num)

def triggerEntry (tr : Trigger) : Option (CStr × CStr × ℤ × ℤ) :=
  some (tr.stockObj.str, [tr.type.char], tr.amount, tr.trig)

/-! ### The two passes -/

/-- Entries with their indices, from `count` on. -/
def numbered {α : Type*} (l : List α) (count : ℕ) : List (ℕ × α) := (l.zipIdx count).map Prod.swap

section
variable {α : Type*} {n : ℕ} {t : Trie α} {fill : Bool}

theorem numbered_append (l l' : List α) (count : ℕ) :
    numbered (l ++ l') count = numbered l count ++ numbered l' (count + l.length) := by
  rw [numbered, List.zipIdx_append, List.map_append]
  rfl

theorem numbered_indices (l : List α) : ∀ count : ℕ,
    (numbered l count).map Prod.fst = List.range' count l.length := by
  intro count
  rw [numbered, List.map_map, show Prod.fst ∘ Prod.swap = (Prod.snd : α × ℕ → ℕ) from rfl,
    List.zipIdx_map_snd]

theorem lookup_numbered : ∀ (l : List α) (count i : ℕ), (numbered l count).lookup (count + i) = l[i]?
  | [], _, _ => rfl
  | a :: l, count, 0 => by
    rw [show numbered (a :: l) count = (count, a) :: numbered l (count + 1) from rfl, Nat.add_zero,
      List.lookup_cons, beq_self_eq_true]
    rfl
  | a :: l, count, i + 1 => by
    have hidx : count + (i + 1) = count + 1 + i := by omega
    have hne : (count + 1 + i == count) = false := by
      rw [beq_eq_false_iff_ne]
      omega
    rw [show numbered (a :: l) count = (count, a) :: numbered l (count + 1) from rfl, List.lookup_cons, hidx,
      hne, List.getElem?_cons_succ]
    exact lookup_numbered l (count + 1) i

/-- A pass over `l` from `count` on: it counts the entries, and writes each at its index if it fills. -/
def pass (fill : Bool) (l : List α) (count : ℕ) : List (ℕ × α) × ℕ :=
  (if fill then numbered l count else [], count + l.length)

theorem visit_eq (p : Path) (count : ℕ) : visit t fill p count = pass fill (t.objAt p).toList count := by
  unfold visit
  cases t.objAt p <;> cases fill <;> rfl

theorem pass_append (l l' : List α) (count : ℕ) : pass fill (l ++ l') count =
    ((pass fill l count).1 ++ (pass fill l' (pass fill l count).2).1, (pass fill l' (pass fill l count).2).2) := by
  cases fill
  · simp [pass, Nat.add_assoc]
  · simp [pass, numbered_append, Nat.add_assoc]

theorem children_eq {body : ℕ → ℕ → List (ℕ × α) × ℕ} {f : ℕ → List α}
    (hbody : ∀ i count, body i count = pass fill (f i) count) : ∀ (is : List ℕ) (count : ℕ),
    children body is count = pass fill (is.flatMap f) count := by
  intro is
  induction is with
  | nil =>
    intro count
    cases fill <;> rfl
  | cons i is ih =>
    intro count
    rw [children, hbody, ih, List.flatMap_cons, pass_append]

/-- The walk is a pass over the objects of the tree, in its order. -/
theorem getAll_pass : ∀ (d : ℕ) (p : Path) (count : ℕ),
    getAll n t fill d p count = pass fill (Trie.getAll n t d p) count := by
  intro d
  induction d with
  | zero =>
    intro p count
    exact visit_eq p count
  | succ d ih =>
    intro p count
    have hbody : ∀ i count, (if (t (i :: p)).isSome then getAll n t fill d (i :: p) count else ([], count)) =
        pass fill (if (t (i :: p)).isSome then Trie.getAll n t d (i :: p) else []) count := by
      intro i count
      split_ifs
      · exact ih (i :: p) count
      · cases fill <;> rfl
    rw [getAll, Trie.getAll, show (t p).bind Node.obj = t.objAt p from rfl, visit_eq]
    split_ifs
    · rw [children_eq hbody, pass_append]
    · rw [List.append_nil]

theorem readFrom_eq {β : Type*} {arr : ℕ → Option β} : ∀ {l : List β} {i : ℕ},
    (∀ j < l.length, arr (i + j) = l[j]?) → readFrom arr i l.length = some l := by
  intro l
  induction l with
  | nil =>
    intro _ _
    rfl
  | cons b l ih =>
    intro i h
    have hhead : arr i = some b := h 0 (by simp)
    have hrest : readFrom arr (i + 1) l.length = some l := by
      refine ih fun j hj => ?_
      have hj' := h (j + 1) (by rw [List.length_cons]; omega)
      rw [List.getElem?_cons_succ] at hj'
      rw [← hj']
      congr 1
      omega
    rw [List.length_cons, readFrom, hhead, Option.bind_some, hrest]
    rfl

theorem map_filterMap {β : Type*} {f : α → Option β} : ∀ {l : List α}, (∀ x ∈ l, (f x).isSome) →
    (l.filterMap f).map some = l.map f := by
  intro l
  induction l with
  | nil =>
    intro _
    rfl
  | cons x l ih =>
    intro h
    obtain ⟨y, hy⟩ := Option.isSome_iff_exists.mp (h x List.mem_cons_self)
    rw [List.filterMap_cons_some hy, List.map_cons, List.map_cons, hy,
      ih fun x' hx' => h x' (List.mem_cons_of_mem x hx')]

/-- The array has room for what is written, and every entry is found again. -/
theorem entries_eq {β : Type*} {obj : α → Option β} {d : ℕ}
    (hobj : ∀ x ∈ Trie.getAll n t d [], (obj x).isSome) :
    entries n t obj d = some ((Trie.getAll n t d []).filterMap obj) := by
  have hmap := map_filterMap hobj
  have hlen : ((Trie.getAll n t d []).filterMap obj).length = (Trie.getAll n t d []).length := by
    have h := congrArg List.length hmap
    rwa [List.length_map, List.length_map] at h
  unfold entries
  rw [getAll_pass, getAll_pass]
  simp only [pass, Nat.zero_add, if_true]
  rw [if_pos, ← hlen]
  · refine readFrom_eq fun j hj => ?_
    rw [lookup_numbered]
    have hget := congrArg (fun l => l[j]?) hmap
    simp only [List.getElem?_map] at hget
    cases hx : (Trie.getAll n t d [])[j]? with
    | none =>
      rw [hx] at hget
      exact (Option.map_eq_none_iff.mp hget).symm
    | some x =>
      rw [hx] at hget
      obtain ⟨y, hy, hfx⟩ := Option.map_eq_some_iff.mp hget
      rw [Option.bind_some, hy, hfx]
  · intro x hx
    have hidx : x.1 ∈ (numbered (Trie.getAll n t d []) 0).map Prod.fst := List.mem_map_of_mem hx
    rw [numbered_indices, List.mem_range'_1] at hidx
    omega

end

/-! ### The listing, split -/

theorem intval_digits {s : CStr} (hs : s.all Char.isDigit) : intval s = Decimal.val s := by
  unfold intval
  split
  · exact absurd hs (by simp)
  · rfl

theorem intval_ld (x : ℤ) : intval (ld x) = x := by
  have hdigits := Decimal.all_isDigit_toDigits x.natAbs
  unfold ld
  split_ifs with hx
  · show -(Decimal.val (Nat.toDigits 10 x.natAbs) : ℤ) = x
    rw [Decimal.val_toDigits]
    omega
  · rw [intval_digits hdigits, Decimal.val_toDigits]
    omega

theorem stock_ne {d : Char} (hd : isUpper d = false) (stockID : StockID) : ∀ c ∈ stockID.str, c ≠ d :=
  fun _ hc => ne_of_upper hd (List.all_eq_true.mp stockID.all_isUpper _ hc)

/-- Lines that end in a newline come apart again, with nothing behind the last. -/
theorem explode_lines {β : Type*} {body : β → CStr} (hbody : ∀ b, ∀ c ∈ body b, c ≠ '\n') : ∀ l : List β,
    Web.explode '\n' (l.map fun b => body b ++ ['\n']).flatten = l.map body ++ [[]] := by
  intro l
  induction l with
  | nil => rfl
  | cons b l ih =>
    rw [List.map_cons, List.flatten_cons, List.append_assoc, List.singleton_append,
      Web.explode_append (hbody b), ih, List.map_cons, List.cons_append]

theorem rows_lines {β : Type*} {body : β → CStr} (hbody : ∀ b, ∀ c ∈ body b, c ≠ '\n') (l : List β) :
    rows (l.map fun b => body b ++ ['\n']).flatten = l.map fun b => Web.explode ',' (body b) := by
  rw [rows, explode_lines hbody, List.dropLast_concat, List.map_map]
  rfl

def stockBody (us : UserStock) : CStr := us.stockObj.str ++ field us.num

def triggerBody (tr : Trigger) : CStr :=
  tr.stockObj.str ++ ',' :: ([tr.type.char] ++ ',' :: (ld tr.amount ++ field tr.trig))

theorem line_stock (us : UserStock) : us.line = stockBody us ++ ['\n'] := rfl

theorem line_trigger (tr : Trigger) : tr.line = triggerBody tr ++ ['\n'] := by
  simp [Trigger.line, triggerBody, field]

theorem type_ne {d : Char} (hb : d ≠ 'b') (hs : d ≠ 's') (type : TType) : type.char ≠ d := by
  cases type
  · exact hb.symm
  · exact hs.symm

theorem stockBody_ne {d : Char} (hupper : isUpper d = false) (hdigit : d.isDigit = false) (hsign : d ≠ '-')
    (hcomma : d ≠ ',') (us : UserStock) : ∀ c ∈ stockBody us, c ≠ d := by
  intro c hc
  simp only [stockBody, field, List.mem_append, List.mem_cons] at hc
  rcases hc with hc | rfl | hc
  · exact stock_ne hupper _ c hc
  · exact hcomma.symm
  · exact ld_ne _ hdigit hsign c hc

theorem triggerBody_ne {d : Char} (hupper : isUpper d = false) (hdigit : d.isDigit = false) (hsign : d ≠ '-')
    (hcomma : d ≠ ',') (hb : d ≠ 'b') (hs : d ≠ 's') (tr : Trigger) : ∀ c ∈ triggerBody tr, c ≠ d := by
  intro c hc
  simp only [triggerBody, field, List.mem_append, List.mem_cons, List.not_mem_nil, or_false] at hc
  rcases hc with hc | rfl | rfl | rfl | hc | rfl | hc
  · exact stock_ne hupper _ c hc
  · exact hcomma.symm
  · exact type_ne hb hs _
  · exact hcomma.symm
  · exact ld_ne _ hdigit hsign c hc
  · exact hcomma.symm
  · exact ld_ne _ hdigit hsign c hc

theorem stockRow_body (us : UserStock) : stockRow (Web.explode ',' (stockBody us)) = stockEntry us := by
  rw [stockBody, field, Web.explode_append (stock_ne (by decide) _),
    Web.explode_none (ld_ne _ (by decide) (by decide)), stockRow, intval_ld]
  rfl

theorem triggerRow_body (tr : Trigger) : triggerRow (Web.explode ',' (triggerBody tr)) = triggerEntry tr := by
  have htype : ∀ c ∈ [tr.type.char], c ≠ ',' := fun c hc =>
    List.mem_singleton.mp hc ▸ type_ne (by decide) (by decide) tr.type
  rw [triggerBody, field, Web.explode_append (stock_ne (by decide) _), Web.explode_append htype,
    Web.explode_append (ld_ne _ (by decide) (by decide)), Web.explode_none (ld_ne _ (by decide) (by decide)),
    triggerRow, intval_ld, intval_ld]
  rfl

/-- The texts of holdings and triggers. -/
def stockInfo (userStocks : List UserStock) : CStr := (userStocks.map UserStock.line).flatten
def triggerInfo (triggers : List Trigger) : CStr := (triggers.map Trigger.line).flatten

theorem rows_stockInfo (userStocks : List UserStock) :
    (rows (stockInfo userStocks)).map stockRow = userStocks.map stockEntry := by
  rw [stockInfo, show (userStocks.map UserStock.line) = userStocks.map fun us => stockBody us ++ ['\n'] from rfl,
    rows_lines (stockBody_ne (by decide) (by decide) (by decide) (by decide)), List.map_map]
  exact List.map_congr_left fun us _ => stockRow_body us

theorem rows_triggerInfo (triggers : List Trigger) :
    (rows (triggerInfo triggers)).map triggerRow = triggers.map triggerEntry := by
  rw [triggerInfo, List.map_congr_left fun tr _ => line_trigger tr,
    rows_lines (triggerBody_ne (by decide) (by decide) (by decide) (by decide) (by decide) (by decide)),
    List.map_map]
  exact List.map_congr_left fun tr _ => triggerRow_body tr

theorem info_ne {lines : List CStr} {d : Char} (h : ∀ line ∈ lines, ∀ c ∈ line, c ≠ d) :
    ∀ c ∈ lines.flatten, c ≠ d := by
  intro c hc
  obtain ⟨line, hline, hc⟩ := List.mem_flatten.mp hc
  exact h line hline c hc

theorem stockInfo_ne (userStocks : List UserStock) : ∀ c ∈ stockInfo userStocks, c ≠ '|' := by
  refine info_ne fun line hline c hc => ?_
  obtain ⟨us, -, rfl⟩ := List.mem_map.mp hline
  rcases List.mem_append.mp (line_stock us ▸ hc) with hc | hc
  · exact stockBody_ne (by decide) (by decide) (by decide) (by decide) us c hc
  · rw [List.mem_singleton.mp hc]
    decide

theorem triggerInfo_ne (triggers : List Trigger) : ∀ c ∈ triggerInfo triggers, c ≠ '|' := by
  refine info_ne fun line hline c hc => ?_
  obtain ⟨tr, -, rfl⟩ := List.mem_map.mp hline
  rcases List.mem_append.mp (line_trigger tr ▸ hc) with hc | hc
  · exact triggerBody_ne (by decide) (by decide) (by decide) (by decide) (by decide) (by decide) tr c hc
  · rw [List.mem_singleton.mp hc]
    decide

/-- The response as it is split. -/
theorem split_response {transID : CStr} (htrans : ∀ c ∈ transID, c ≠ '|') (balance : ℤ)
    (userStocks : List UserStock) (triggers : List Trigger) :
    split ("WSR|".toList ++ transID ++ '|' :: "DISPLAY_SUMMARY".toList ++ '|' :: "SUCC".toList ++
        '|' :: ld balance ++ '|' :: stockInfo userStocks ++ '|' :: triggerInfo triggers) =
      some ⟨balance, userStocks.map stockEntry, triggers.map triggerEntry⟩ := by
  have hfields : Web.explode '|' ("WSR|".toList ++ transID ++ '|' :: "DISPLAY_SUMMARY".toList ++
      '|' :: "SUCC".toList ++ '|' :: ld balance ++ '|' :: stockInfo userStocks ++
        '|' :: triggerInfo triggers) =
      ["WSR".toList, transID, "DISPLAY_SUMMARY".toList, "SUCC".toList, ld balance, stockInfo userStocks,
        triggerInfo triggers] := by
    have htag : "WSR|".toList = "WSR".toList ++ ['|'] := by decide
    rw [htag]
    simp only [List.append_assoc, List.cons_append, List.nil_append]
    rw [Web.explode_append (by simp), Web.explode_append htrans, Web.explode_append (by simp),
      Web.explode_append (by simp), Web.explode_append (ld_ne _ (by decide) (by decide)),
      Web.explode_append (stockInfo_ne _), Web.explode_none (triggerInfo_ne _)]
  rw [split, hfields]
  simp only [rows_stockInfo, rows_triggerInfo, intval_ld]

/-! ### The whole command -/

/-- The rows are the entries of the addresses that have one, each once. -/
def Lists {β : Type*} (entry : Path → Option β) (rows : List β) : Prop :=
  ∃ ps : List Path, ps.Nodup ∧ (∀ p, p ∈ ps ↔ (entry p).isSome) ∧ rows.map some = ps.map entry

/-- The counting pass writes nothing, and the filling pass one entry at each index below the count. -/
structure Counted {α : Type*} (n : ℕ) (t : Trie α) (d : ℕ) : Prop where
  none : (getAll n t false d [] 0).1 = []
  indices : (getAll n t true d [] 0).1.map Prod.fst = List.range (getAll n t false d [] 0).2
  same : (getAll n t true d [] 0).2 = (getAll n t false d [] 0).2

theorem counted {α : Type*} (n : ℕ) (t : Trie α) (d : ℕ) : Counted n t d := by
  refine ⟨?_, ?_, ?_⟩
  · rw [getAll_pass]
    rfl
  · rw [getAll_pass, getAll_pass]
    simp [pass, numbered_indices, List.range_eq_range']
  · rw [getAll_pass, getAll_pass]
    rfl

/-- The objects of a tree that is not deeper, each once. -/
theorem lists_getAll {α β : Type*} {n d : ℕ} {t : Trie α} (hw : Trie.WF n t)
    (hdeep : ∀ p, (t p).isSome → p.length ≤ d) {f : α → Option β}
    (hf : ∀ x ∈ Trie.getAll n t d [], (f x).isSome) :
    Lists (fun p => (t.objAt p).bind f) ((Trie.getAll n t d []).filterMap f) := by
  have hmem : ∀ p, p ∈ Trie.paths n t d [] ↔ (t.objAt p).isSome := by
    intro p
    rw [Trie.mem_paths hw]
    refine ⟨fun h => h.2.2, fun h => ⟨List.nil_suffix, ?_, h⟩⟩
    obtain ⟨x, hx⟩ := Option.isSome_iff_exists.mp h
    have hlen := hdeep p (Trie.isSome_of_objAt hx)
    rw [List.length_nil]
    omega
  have hlive : ∀ {p x}, t.objAt p = some x → (f x).isSome := by
    intro p x hx
    refine hf x ?_
    rw [Trie.getAll_eq]
    exact List.mem_filterMap.mpr ⟨p, (hmem p).mpr (by rw [hx]; rfl), hx⟩
  refine ⟨Trie.paths n t d [], Trie.nodup_paths hw d [], fun p => ?_, ?_⟩
  · rw [hmem p]
    cases hx : t.objAt p with
    | none => simp [hx]
    | some x => simpa [hx] using hlive hx
  · calc ((Trie.getAll n t d []).filterMap f).map some
        = (Trie.getAll n t d []).map f := map_filterMap hf
      _ = (((Trie.paths n t d []).filterMap t.objAt).map some).map (Option.bind · f) := by
          rw [Trie.getAll_eq, List.map_map]
          rfl
      _ = ((Trie.paths n t d []).map t.objAt).map (Option.bind · f) := by
          rw [map_filterMap fun p hp => (hmem p).mp hp]
      _ = (Trie.paths n t d []).map fun p => (t.objAt p).bind f := List.map_map

theorem Lists.map {β γ : Type*} {entry : Path → Option β} {rows : List β} (h : Lists entry rows)
    (g : β → γ) : Lists (fun p => (entry p).map g) (rows.map g) := by
  obtain ⟨ps, hnodup, hmem, hrows⟩ := h
  refine ⟨ps, hnodup, fun p => by rw [hmem p, Option.isSome_map], ?_⟩
  have hmap := congrArg (List.map (Option.map g)) hrows
  rw [List.map_map, List.map_map] at hmap
  rw [List.map_map]
  exact hmap

section
variable {m : Mem} {cUser : User} {userID : UserID} {transID : CStr} {d : ℕ}

/-- A user's holdings and triggers, in the order of their trees. -/
def userStocks (cUser : User) (d : ℕ) : List UserStock := Trie.getAll STOCK_CHARS cUser.usTree d []

def triggers (m : Mem) (userID : UserID) (d : ℕ) : List Trigger :=
  (Trie.getAll (2 * STOCK_CHARS) (m.tTree userID) d []).filterMap m.obj

theorem live_triggers (hmem : m.WF) : ∀ t ∈ Trie.getAll (2 * STOCK_CHARS) (m.tTree userID) d [],
    (m.obj t).isSome := by
  intro t ht
  rw [Trie.getAll_eq] at ht
  obtain ⟨p, -, hp⟩ := List.mem_filterMap.mp ht
  obtain ⟨tr, htr, -⟩ := hmem.held hp
  rw [htr]
  rfl

theorem entries_userStocks : entries STOCK_CHARS cUser.usTree some d = some (userStocks cUser d) := by
  rw [entries_eq fun _ _ => rfl, List.filterMap_some]
  rfl

theorem length_response (htrans : transID.length < 200) (hlong : wrap64 cUser.balance = cUser.balance)
    (hstock : (stockInfo (userStocks cUser d)).length < 0x10000)
    (htrigger : (triggerInfo (triggers m userID d)).length < 0x10000) :
    ("WSR|".toList ++ transID ++ '|' :: "DISPLAY_SUMMARY".toList ++ '|' :: "SUCC".toList ++
      '|' :: ld cUser.balance ++ '|' :: stockInfo (userStocks cUser d) ++
      '|' :: triggerInfo (triggers m userID d)).length < 0x100000 := by
  have hbalance := length_ld_wrap64 cUser.balance
  rw [hlong] at hbalance
  have h₁ : "WSR|".toList.length = 4 := by decide
  have h₂ : "DISPLAY_SUMMARY".toList.length = 15 := by decide
  have h₃ : "SUCC".toList.length = 4 := by decide
  simp only [List.length_append, List.length_cons, h₁, h₂, h₃]
  omega

theorem displaySummary_eq (hmem : m.WF) (hlong : wrap64 cUser.balance = cUser.balance)
    (hshort : transID.length < 200) (hstock : (stockInfo (userStocks cUser d)).length < 0x10000)
    (htrigger : (triggerInfo (triggers m userID d)).length < 0x10000) :
    displaySummary d m userID cUser transID "DISPLAY_SUMMARY".toList =
      some ("WSR|".toList ++ transID ++ '|' :: "DISPLAY_SUMMARY".toList ++ '|' :: "SUCC".toList ++
        '|' :: ld cUser.balance ++ '|' :: stockInfo (userStocks cUser d) ++
        '|' :: triggerInfo (triggers m userID d)) := by
  have hentries : entries (2 * STOCK_CHARS) (m.tTree userID) m.obj d = some (triggers m userID d) :=
    entries_eq (live_triggers hmem)
  have htriggerInfo : info ((triggers m userID d).map Trigger.line) =
      some (triggerInfo (triggers m userID d)) := if_pos htrigger
  have hstockInfo : info ((userStocks cUser d).map UserStock.line) =
      some (stockInfo (userStocks cUser d)) := if_pos hstock
  rw [displaySummary, hentries, entries_userStocks, Option.bind_some, Option.bind_some, htriggerInfo,
    Option.bind_some, hstockInfo, Option.bind_some]
  exact if_pos (length_response hshort hlong hstock htrigger)

/-- It is the reply of the command, whose trees are three letters deep. -/
theorem displaySummary_reply {s : Server} {c : Cmd} (hmem : s.mem.WF) (hcmd : c.userCmd = "DISPLAY_SUMMARY".toList)
    (hlong : wrap64 cUser.balance = cUser.balance) (hshort : c.transID.length < 200)
    (hstock : (stockInfo (userStocks cUser 3)).length < 0x10000)
    (htrigger : (triggerInfo (triggers s.mem c.userID 3)).length < 0x10000) :
    displaySummary 3 s.mem c.userID cUser c.transID c.userCmd =
      some ((Command.displaySummary s c cUser).2.text c.transID c.userCmd) := by
  rw [hcmd, displaySummary_eq hmem hlong hshort hstock htrigger]
  rfl

/-- The summary lists the user's account exactly. -/
theorem summary_exact (hmem : m.WF) (hus : Trie.WF STOCK_CHARS cUser.usTree)
    (hdeep : ∀ p, (m.tTree userID p).isSome → p.length ≤ d)
    (hdeep' : ∀ p, (cUser.usTree p).isSome → p.length ≤ d) (hlong : wrap64 cUser.balance = cUser.balance)
    (htrans : ∀ c ∈ transID, c ≠ '|') (hshort : transID.length < 200)
    (hstock : (stockInfo (userStocks cUser d)).length < 0x10000)
    (htrigger : (triggerInfo (triggers m userID d)).length < 0x10000) :
    (∃ response stockRows triggerRows,
      displaySummary d m userID cUser transID "DISPLAY_SUMMARY".toList = some response ∧
      split response = some ⟨cUser.balance, stockRows, triggerRows⟩ ∧
      Lists (fun p => (cUser.usTree.objAt p).map stockEntry) stockRows ∧
      Lists (fun p => (((m.tTree userID).objAt p).bind m.obj).map triggerEntry) triggerRows) ∧
    Counted STOCK_CHARS cUser.usTree d ∧ Counted (2 * STOCK_CHARS) (m.tTree userID) d := by
  refine ⟨⟨_, _, _, displaySummary_eq hmem hlong hshort hstock htrigger,
    split_response htrans cUser.balance (userStocks cUser d) (triggers m userID d), ?_, ?_⟩,
    counted _ _ _, counted _ _ _⟩
  · have h := (lists_getAll hus hdeep' (f := some) fun _ _ => rfl).map stockEntry
    simp only [List.filterMap_some, Option.bind_fun_some] at h
    exact h
  · exact (lists_getAll (hmem.tree userID) hdeep (live_triggers hmem)).map triggerEntry

end

/-! ### A user with holdings and triggers -/

theorem isSome_addUserStock {us : Trie UserStock} (hroot : (us []).isSome) {st : StockID} {num : ℤ} {p : Path}
    (h : ((addUserStock us st num).1 p).isSome) : (us p).isSome ∨ p <:+ usKey st := by
  refine Trie.isSome_of_insertPath hroot (keyPath_usKey st) ?_
  unfold addUserStock at h
  generalize Trie.insertPath usSlot st.str [] us = ip at h ⊢
  obtain ⟨tree, temp⟩ := ip
  cases temp with
  | none => exact h
  | some temp =>
    simp only at h
    cases hobj : tree.objAt temp with
    | some uso =>
      rw [hobj] at h
      exact h
    | none =>
      rw [hobj] at h
      simp only at h
      rwa [Trie.isSome_setObj] at h

/-- A tree of stocks, none deeper than the three letters of a stock. -/
structure Stocked (us : Trie UserStock) : Prop where
  wf : Trie.WF STOCK_CHARS us
  deep : ∀ p, (us p).isSome → p.length ≤ 3

theorem length_of_empty {α : Type*} {p : Path} (h : ((Trie.empty : Trie α) p).isSome) : p.length ≤ 3 := by
  by_cases hp : p = []
  · rw [hp]
    exact Nat.zero_le 3
  · rw [Trie.empty, if_neg hp] at h
    cases h

theorem stocked_empty : Stocked Trie.empty := ⟨Trie.wf_empty, fun _ => length_of_empty⟩

theorem Stocked.add {us : Trie UserStock} (h : Stocked us) {st : StockID} (hnone : getUserStock us st = none)
    (num : ℤ) : Stocked (addUserStock us st num).1 where
  wf := (getUserStock_addUserStock h.wf hnone num).2.1
  deep p hp := by
    rcases isSome_addUserStock h.wf.root hp with hold | hsuf
    · exact h.deep p hold
    · exact (Mem.length_keyOf st .b) ▸ hsuf.length_le

/-- The same of the trees of triggers. -/
structure Triggered (m : Mem) : Prop where
  wf : m.WF
  deep : ∀ u p, (m.tTree u p).isSome → p.length ≤ 3

theorem triggered_init : Triggered Mem.init := ⟨Mem.wf_init, fun _ _ => length_of_empty⟩

theorem Triggered.add {m : Mem} (h : Triggered m) {u : UserID} {st : StockID} {ty : TType}
    (hnone : m.getTrigger u st ty = none) (tid : CStr) (amount trig : ℤ) :
    Triggered (m.addTrigger u tid st ty amount trig).1 where
  wf := by
    obtain ⟨m', hadd, hwf, -⟩ := h.wf.addTrigger_new hnone tid amount trig
    rw [hadd]
    exact hwf
  deep u' p hp := by
    rcases Mem.addTrigger_nodes h.wf hp with hold | hsuf
    · exact h.deep u' p hold
    · exact (Mem.length_keyOf st ty) ▸ hsuf.length_le

/-- Five shares of one stock and seven of another. -/
def aHolder : User := ⟨12050, 0, none, 0, 0, 0, (addUserStock (addUserStock Trie.empty stockABC 5).1 stockACC 7).1⟩

/-- A buy and a sell trigger for the one, and a sell trigger for the other. -/
def aMem : Mem :=
  (((Mem.init.addTrigger aUser "1".toList stockABC .b 1000 200).1.addTrigger aUser "2".toList stockABC .s 300 400).1
    |>.addTrigger aUser "3".toList stockACC .s 700 150).1

theorem stocked_aHolder : Stocked aHolder.usTree := (stocked_empty.add (by decide) 5).add (by decide) 7

theorem triggered_aMem : Triggered aMem :=
  ((triggered_init.add (by decide) _ _ _).add (by decide) _ _ _).add (by decide) _ _ _

theorem summary_aHolder : (∃ response stockRows triggerRows,
    displaySummary 3 aMem aUser aHolder "7".toList "DISPLAY_SUMMARY".toList = some response ∧
    split response = some ⟨12050, stockRows, triggerRows⟩ ∧
    Lists (fun p => (aHolder.usTree.objAt p).map stockEntry) stockRows ∧
    Lists (fun p => (((aMem.tTree aUser).objAt p).bind aMem.obj).map triggerEntry) triggerRows) ∧
    Counted STOCK_CHARS aHolder.usTree 3 ∧ Counted (2 * STOCK_CHARS) (aMem.tTree aUser) 3 :=
  summary_exact triggered_aMem.wf stocked_aHolder.wf (triggered_aMem.deep aUser) stocked_aHolder.deep (by decide)
    (by simp) (by decide) (by decide) (by decide)

end TradeC.Summary
