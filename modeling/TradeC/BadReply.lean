import TradeC.Bounds
import TradeC.Quotes
import Mathlib.Logic.Function.Basic

/-! What the load balancer makes of a reply of the quote server, of whatever bytes it is.

    `get_quote_thread` trims the reply in its buffer, and `str2price` looks for a comma in it, not for its
    end. `quote_handler` splits it into five pointers that nothing sets before, and looks only at whether
    there was anything to split. -/

namespace TradeC.BadReply
open Bounds Quotes

section
variable (mem : ℤ → Char)

/-! ### `get_quote_thread`

    The buffer is in memory that goes on before and behind it. -/

/-- `readSize` after the trims. -/
def readSize (n : ℤ) : ℤ := chop mem '\n' (chop mem nul n)

/-- What is read of `rep` by the trims, and the terminator. -/
def repIndices (n : ℤ) : List ℤ := [n - 1, chop mem nul n - 1, readSize mem n]

/-- `rep[readSize] = '\0'`. -/
def rep (n : ℤ) : ℤ → Char := Function.update mem (readSize mem n) nul

/-- The string in the buffer. -/
def reply (n : ℤ) : CStr := cstr ((List.range (readSize mem n).toNat).map fun i : ℕ => mem i) 0

end

/-- `while(str[i] != ',') i++` ends with `prclen`. -/
def Stops (str : ℤ → Char) (prclen : ℕ) : Prop := str prclen = ',' ∧ ∀ i < prclen, str i ≠ ','

/-! ### `quote_handler` -/

/-- What has become of the slot, whether the requester has been released, and whether the handler goes on. -/
structure Round where
  entry : Option QuoteContents
  returned : Bool
  serving : Bool

/-- From `delimSep` to `sem_post`. There is no result where `newQuote` is overrun, or a pointer of it that
    has not been set is stored and freed. -/
def store (entry : Option QuoteContents) (now : ℤ) (reply : CStr) : Option Round :=
  match delimSepNoCpy (some reply) ',' with
  | [] => some ⟨entry, false, false⟩
  | [price, sym, user, _, key] => some ⟨some ⟨price, sym, user, now, key⟩, true, true⟩
  | _ => none

/-- A reply of `n` bytes does no harm. -/
structure Harmless (mem : ℤ → Char) (n : ℕ) (entry : Option QuoteContents) (now : ℤ) : Prop where
  buffer : ∀ i ∈ repIndices mem n, 0 ≤ i ∧ i < 200
  str2price : ∃ prclen, Stops (rep mem n) prclen ∧ prclen < (reply mem n).length
  newQuote : ∀ i ∈ sepSlots (some (reply mem n)) ',', i < 5
  other : (delimSepNoCpy (some (reply mem n)) ',').length ≠ 5 →
    store entry now (reply mem n) = some ⟨entry, true, true⟩
  quote : ∀ price sym user ts key,
    delimSepNoCpy (some (reply mem n)) ',' = [price, sym, user, ts, key] →
      store entry now (reply mem n) = some ⟨some ⟨price, sym, user, now, key⟩, true, true⟩

/-- What is left of the bytes of a reply. -/
def trimmed (bytes : List Char) : List Char := dropEnd '\n' (dropEnd nul bytes)

/-! ### Fields -/

theorem length_delimSep {s : CStr} (hs : s ≠ []) (delim : Char) :
    (delimSepNoCpy (some s) delim).length = s.count delim + 1 := by
  rw [delimSep_eq hs]
  exact length_delimLoop delim s []

/-- Where there are fields, but not five, pointers are missing or one too many is written. -/
theorem store_eq_none {entry : Option QuoteContents} {now : ℤ} {reply : CStr} (hne : reply ≠ [])
    (hcount : reply.count ',' ≠ 4) : store entry now reply = none := by
  have hlen := length_delimSep hne ','
  unfold store
  split
  · rename_i h
    rw [h] at hlen
    exact absurd hlen (by simp)
  · rename_i h
    rw [h] at hlen
    simp only [List.length_cons, List.length_nil] at hlen
    omega
  · rfl

/-! ### The reply in the buffer -/

section
variable {mem : ℤ → Char} {bytes : List Char}

theorem readSize_eq (hmem : Bounds.Holds mem bytes) (hne : bytes ≠ []) (hne₁ : dropEnd nul bytes ≠ []) :
    readSize mem bytes.length = (trimmed bytes).length ∧
      chop mem nul bytes.length = (dropEnd nul bytes).length := by
  have h₁ := chop_eq hmem nul List.prefix_rfl hne
  refine ⟨?_, h₁⟩
  rw [readSize, h₁, trimmed, chop_eq hmem '\n' (dropEnd_isPrefix nul bytes) hne₁]

theorem reply_eq (hmem : Bounds.Holds mem bytes) (hsize : readSize mem bytes.length = (trimmed bytes).length) :
    reply mem bytes.length = cstr (trimmed bytes) 0 := by
  rw [reply, hsize, Int.toNat_natCast]
  congr 1
  obtain ⟨r, hr⟩ : trimmed bytes <+: bytes := (dropEnd_isPrefix _ _).trans (dropEnd_isPrefix _ _)
  refine List.ext_getElem (by simp) fun i hi hi' => ?_
  have hget : bytes[i]? = (trimmed bytes)[i]? := by
    conv_lhs => rw [← hr]
    exact List.getElem?_append_left hi'
  rw [List.getElem_map, List.getElem_range]
  refine hmem i _ ?_
  rw [hget, List.getElem?_eq_getElem hi']
  rfl

/-- The characters of the string are those in memory. -/
theorem rep_reply {n : ℤ} {i : ℕ} (hi : i < (reply mem n).length) : rep mem n i = (reply mem n)[i] := by
  have hrange : (reply mem n) <+: (List.range (readSize mem n).toNat).map fun i : ℕ => mem i :=
    List.takeWhile_prefix _
  have hlt : i < (readSize mem n).toNat := by
    have hle := hrange.length_le
    rw [List.length_map, List.length_range] at hle
    omega
  have hne : (i : ℤ) ≠ readSize mem n := by omega
  rw [rep, Function.update_of_ne hne, hrange.getElem hi]
  simp

/-- `str2price` stops in the string if there is a comma in it. -/
theorem stops_iff (n : ℤ) : (∃ prclen, Stops (rep mem n) prclen ∧ prclen < (reply mem n).length) ↔
    ',' ∈ reply mem n := by
  constructor
  · rintro ⟨prclen, ⟨hcomma, -⟩, hlt⟩
    rw [rep_reply hlt] at hcomma
    rw [← hcomma]
    exact List.getElem_mem hlt
  · intro h
    have hlt := List.idxOf_lt_length_iff.mpr h
    refine ⟨(reply mem n).idxOf ',', ⟨?_, fun i hi => ?_⟩, hlt⟩
    · rw [rep_reply hlt, List.getElem_idxOf]
    · rw [rep_reply (hi.trans hlt)]
      exact fun heq => absurd (List.not_of_lt_findIdx hi) (by simp [heq])

/-- A reply does no harm exactly if it leaves room for the terminator when it has been trimmed, and has four
    commas up to the first NUL. -/
theorem harmless_iff (hmem : Bounds.Holds mem bytes) (hlen : bytes.length ≤ 200) (entry : Option QuoteContents)
    (now : ℤ) : Harmless mem bytes.length entry now ↔
      (trimmed bytes).length < 200 ∧ (cstr (trimmed bytes) 0).count ',' = 4 := by
  constructor
  · intro h
    have hbuf := h.buffer
    simp only [repIndices, List.mem_cons, List.not_mem_nil, or_false, forall_eq_or_imp, forall_eq] at hbuf
    obtain ⟨hn, hn₁, hn₂⟩ := hbuf
    have hne : bytes ≠ [] := by
      rintro rfl
      exact absurd hn.1 (by simp)
    have hne₁ : dropEnd nul bytes ≠ [] := by
      intro hnil
      rw [chop_eq hmem nul List.prefix_rfl hne, hnil] at hn₁
      exact absurd hn₁.1 (by simp)
    have hsize := (readSize_eq hmem hne hne₁).1
    have hreply := reply_eq hmem hsize
    have hcomma := (stops_iff _).mp h.str2price
    have hpos := List.count_pos_iff.mpr hcomma
    have hfields := (sepSlots_iff _ ',' (by decide)).mp h.newQuote
    have hsome : reply mem bytes.length ≠ [] := List.ne_nil_of_mem hcomma
    refine ⟨by omega, ?_⟩
    rw [← hreply]
    by_contra hfour
    have hother := h.other (by rw [length_delimSep hsome]; omega)
    rw [store_eq_none hsome hfour] at hother
    cases hother
  · rintro ⟨hfits, hfour⟩
    have hne₂ : trimmed bytes ≠ [] := by
      intro hnil
      rw [hnil] at hfour
      exact absurd hfour (by decide)
    have hne₁ : dropEnd nul bytes ≠ [] := fun hnil => hne₂ (by rw [trimmed, hnil]; rfl)
    have hne : bytes ≠ [] := fun hnil => hne₁ (by rw [hnil]; rfl)
    obtain ⟨hsize, hsize₁⟩ := readSize_eq hmem hne hne₁
    have hreply := reply_eq hmem hsize
    rw [← hreply] at hfour
    have hcomma : ',' ∈ reply mem bytes.length := List.count_pos_iff.mp (by omega)
    have hsome := List.ne_nil_of_mem hcomma
    have hpos := List.length_pos_iff.mpr hne
    have hpos₁ := List.length_pos_iff.mpr hne₁
    have hle₁ := (dropEnd_isPrefix nul bytes).length_le
    refine ⟨?_, (stops_iff _).mpr hcomma, (sepSlots_iff _ ',' (by decide)).mpr (by omega), fun h => ?_, ?_⟩
    · simp only [repIndices, List.mem_cons, List.not_mem_nil, or_false, forall_eq_or_imp, forall_eq, hsize,
        hsize₁]
      omega
    · exact absurd (by rw [length_delimSep hsome, hfour]) h
    · intro price sym user ts key hfields
      rw [store, hfields]

end

def aQuoteReply : List Char := "12.50,ABC,aaaaaaaaaa,1000,k\n".toList

theorem harmless_aQuoteReply : Harmless (memOf aQuoteReply) aQuoteReply.length none 2000 :=
  (harmless_iff (holds_memOf _) (by decide) none 2000).mpr ⟨by decide, by decide⟩

/-- Where there is no comma, the scan goes on behind the string. -/
theorem noComma : ¬ ∀ (mem : ℤ → Char) (bytes : List Char), Bounds.Holds mem bytes → bytes.length ≤ 200 →
    ∀ entry now, Harmless mem bytes.length entry now := by
  intro h
  have hharmless := h (memOf "no quote".toList) "no quote".toList (holds_memOf _) (by decide) none 0
  have hfour := ((harmless_iff (holds_memOf _) (by decide) none 0).mp hharmless).2
  exact absurd hfour (by decide)

end TradeC.BadReply
