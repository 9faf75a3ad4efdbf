import Mathlib.Data.List.Basic
import Mathlib.Tactic.SplitIfs

/-! Texts of statements that end in semicolons, with strings in single quotes.

    `split` takes a text apart after the semicolons outside of strings. `scan` goes through a piece of text
    that has none of these, and says whether a string is open behind it; so a text made of pieces is
    scanned piece by piece, and a piece without quotes and semicolons changes nothing. -/

namespace TradeC.Sql

def quote : Char := '\x27'

/-- `cur` is the statement before the text. -/
def split : Bool → List Char → List Char → List (List Char)
  | _, cur, [] => if cur = [] then [] else [cur]
  | inside, cur, c :: cs =>
    if c = quote then split (!inside) (cur ++ [c]) cs
    else if c = ';' ∧ inside = false then (cur ++ [c]) :: split false [] cs
    else split inside (cur ++ [c]) cs

def statements (text : List Char) : List (List Char) := split false [] text

def scan : Bool → List Char → Option Bool
  | inside, [] => some inside
  | inside, c :: cs =>
    if c = quote then scan (!inside) cs
    else if c = ';' ∧ inside = false then none
    else scan inside cs

theorem scan_append : ∀ (inside : Bool) (s t : List Char),
    scan inside (s ++ t) = (scan inside s).bind fun inside => scan inside t := by
  intro inside s
  induction s generalizing inside with
  | nil =>
    intro _
    rfl
  | cons c s ih =>
    intro t
    rw [List.cons_append, scan, scan]
    split_ifs
    · exact ih _ t
    · rfl
    · exact ih _ t

/-- A piece without quotes and semicolons. -/
def Clean (s : List Char) : Prop := ∀ c ∈ s, c ≠ quote ∧ c ≠ ';'

theorem scan_clean {s : List Char} (h : Clean s) (inside : Bool) : scan inside s = some inside := by
  induction s with
  | nil => rfl
  | cons c s ih =>
    obtain ⟨hquote, hend⟩ := h c List.mem_cons_self
    rw [scan, if_neg hquote, if_neg fun hc => hend hc.1]
    exact ih fun c' hc' => h c' (List.mem_cons_of_mem c hc')

/-- A statement ends at its semicolon if it closes its strings. -/
theorem split_of_scan {t : List Char} : ∀ {s : List Char} {inside : Bool} (cur : List Char),
    scan inside s = some false →
      split inside cur (s ++ ';' :: t) = (cur ++ s ++ [';']) :: split false [] t := by
  intro s
  induction s with
  | nil =>
    intro inside cur h
    cases h
    rw [List.nil_append, split, if_neg (by decide), if_pos ⟨rfl, rfl⟩, List.append_nil]
  | cons c s ih =>
    intro inside cur h
    have hcur : cur ++ [c] ++ s = cur ++ c :: s := List.append_cons cur c s ▸ rfl
    rw [scan] at h
    rw [List.cons_append, split]
    split_ifs at h ⊢
    · rw [ih _ h, hcur]
    · rw [ih _ h, hcur]

def Statement (s : List Char) : Prop := ∃ body, s = body ++ [';'] ∧ scan false body = some false

/-- A text made of statements comes apart into these. -/
theorem statements_flatten : ∀ {l : List (List Char)}, (∀ s ∈ l, Statement s) → statements l.flatten = l := by
  intro l
  induction l with
  | nil =>
    intro _
    rfl
  | cons s l ih =>
    intro h
    obtain ⟨body, rfl, hbody⟩ := h s List.mem_cons_self
    rw [List.flatten_cons, List.append_assoc, List.singleton_append, statements, split_of_scan [] hbody,
      List.nil_append]
    congr 1
    exact ih fun s' hs' => h s' (List.mem_cons_of_mem _ hs')

end TradeC.Sql
