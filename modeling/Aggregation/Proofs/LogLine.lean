import Aggregation.Event
import Mathlib.Data.Int.Notation
import Mathlib.Data.Nat.Notation
import Mathlib.Tactic.SplitIfs

/-!
# Log lines with filters

A filter is logged as it is rendered, and its keys and texts may come from
anywhere.  JSON has few places where they are written, and each escapes control
characters; numbers have none.  So a filter stays on the line that it is logged
on.
-/

namespace Aggregation

open Json

/-! ## Visible characters -/

namespace Text

/-- Without control characters. -/
def Visible (cs : List Char) : Prop :=
  ∀ c ∈ cs, 0x20 ≤ c.toNat

@[simp]
theorem visible_nil : Visible [] :=
  List.forall_mem_nil _

@[simp]
theorem visible_cons {c : Char} {cs : List Char} :
    Visible (c :: cs) ↔ 0x20 ≤ c.toNat ∧ Visible cs :=
  List.forall_mem_cons

@[simp]
theorem visible_append {cs ds : List Char} :
    Visible (cs ++ ds) ↔ Visible cs ∧ Visible ds :=
  List.forall_mem_append

theorem Visible.subset {cs ds : List Char} (h : Visible ds)
    (hsubset : cs ⊆ ds) : Visible cs :=
  fun c hmem => h c (hsubset hmem)

end Text

open Text

/-! ## Numbers -/

theorem visible_toDigits (n : ℕ) : Visible (Nat.toDigits 10 n) := by
  intro c hmem
  have hdigit := Nat.isDigit_of_mem_toDigits (by decide) (by decide) hmem
  rw [Char.isDigit_iff_toNat] at hdigit
  have : '0'.toNat = 0x30 := rfl
  omega

theorem visible_intText (n : ℤ) : Visible (intText n) := by
  unfold intText
  split <;> simp [visible_toDigits]

theorem visible_zeros (count : ℕ) : Visible (List.replicate count '0') := by
  intro c hmem
  rw [List.eq_of_mem_replicate hmem]
  decide

theorem visible_exponentText (exponent : ℤ) :
    Visible (exponentText exponent) := by
  unfold exponentText
  split <;> simp [visible_toDigits]

/-- Beside the digits, a layout adds zeros, a point and an exponent. -/
theorem visible_layDigits (layout : NumberLayout) {digits : List Char}
    (h : Visible digits) (exponent : ℤ) :
    Visible (layDigits layout digits exponent) := by
  have htake (count : ℕ) : Visible (digits.take count) :=
    h.subset (List.take_subset _ _)
  have hdrop (count : ℕ) : Visible (digits.drop count) :=
    h.subset (List.drop_subset _ _)
  simp only [layDigits]
  split_ifs
  · simp [h, visible_zeros]
  · simp [htake, hdrop]
  · simp [h, visible_zeros]
  · split
    · simpa [visible_exponentText] using h
    · simp [h, visible_exponentText]

theorem visible_doubleText (d : Double) : Visible (doubleText d) := by
  simp only [doubleText]
  split_ifs <;> simp [visible_layDigits, visible_toDigits]

/-! ## Strings -/

theorem le_toNat_lowerHexDigit (n : ℕ) : 0x20 ≤ (lowerHexDigit n).toNat := by
  have hdigits : ∀ digit < 16, 0x20 ≤ (Nat.digitChar digit).toNat := by decide
  exact hdigits _ (Nat.mod_lt n (by decide))

/-- Control characters are all escaped, and no escape has one. -/
theorem visible_escapeChar (c : Char) : Visible (escapeChar c) := by
  unfold escapeChar
  split
  next => simp
  next => simp
  next => simp
  next => simp
  next => simp
  next =>
    split_ifs with hbackspace hfeed hcontrol
    · simp
    · simp
    · simp [le_toNat_lowerHexDigit]
    · simpa using hcontrol

/-- A quoted text has no control character, whatever the text has. -/
theorem visible_quote (s : String) : Visible (quote s) := by
  have hchars : Visible (s.toList.flatMap escapeChar) := by
    intro c hmem
    obtain ⟨source, -, hescape⟩ := List.mem_flatMap.mp hmem
    exact visible_escapeChar source c hescape
  simp [quote, hchars]

/-! ## Values on one line -/

mutual

/-- Nothing but the characters of its texts could put a control character into
compact JSON. -/
theorem visible_compactChars : ∀ json, Visible (compactChars json)
  | .null | .bool true | .bool false | .array [] | .object [] =>
    by simp [compactChars]
  | .int n => visible_intText n
  | .double d => by
      rw [compactChars]
      split
      · exact visible_doubleText d
      · simp
  | .string s => visible_quote s
  | .array (item :: items) => by
      simp [compactChars, visible_compactChars item, visible_compactItems items]
  | .object ((key, value) :: members) => by
      simp [compactChars, visible_quote, visible_compactChars value,
        visible_compactMembers members]

theorem visible_compactItems : ∀ items, Visible (compactItems items)
  | [] => by simp [compactItems]
  | item :: items => by
      simp [compactItems, visible_compactChars item, visible_compactItems items]

theorem visible_compactMembers : ∀ members, Visible (compactMembers members)
  | [] => by simp [compactMembers]
  | (key, value) :: members => by
      simp [compactMembers, visible_quote, visible_compactChars value,
        visible_compactMembers members]

end

/-! ## Filters in the log -/

theorem visible_renderFilter (document : Document) :
    Visible document.renderFilter.toList := by
  rw [Document.renderFilter, Json.compact, String.toList_ofList]
  exact visible_compactChars _

namespace Event

/-- Nothing follows the filter on its line. -/
theorem line_filterCompiled (document : Document) :
    (filterCompiled document).line =
      "DEBUG event=FILTER_COMPILED filter=" ++ document.renderFilter := by
  apply String.toList_inj.mp
  simp [line, fields, level, name, fieldText, Level.text, toString]

theorem line_findDispatched (collection : String) (document : Document) :
    (findDispatched collection document).line =
      "TRACE event=FIND_DISPATCHED collection=" ++ collection ++ " filter=" ++
        document.renderFilter := by
  apply String.toList_inj.mp
  simp [line, fields, level, name, fieldText, Level.text, toString]

end Event

/-- A rendered filter has no control character, whatever its keys and its texts
hold at any depth.  So the line about a filter that was compiled is one line,
and that about a find breaks only where the name of the collection does. -/
theorem rendered_filter_on_one_line (document : Document) :
    (∀ c ∈ document.renderFilter.toList, 0x20 ≤ c.toNat) ∧
      (∀ c ∈ (Event.filterCompiled document).line.toList, 0x20 ≤ c.toNat) ∧
      ∀ collection : String,
        (Event.findDispatched collection document).line.toList.filter
          (·.toNat < 0x20) = collection.toList.filter (·.toNat < 0x20) := by
  have hfilter := visible_renderFilter document
  refine ⟨hfilter, ?_, fun collection => ?_⟩
  · rw [Event.line_filterCompiled, String.toList_append]
    exact visible_append.mpr ⟨by simp, hfilter⟩
  · have hnone : document.renderFilter.toList.filter (·.toNat < 0x20) = [] :=
      List.filter_eq_nil_iff.mpr fun c hmem => by simpa using hfilter c hmem
    rw [Event.line_findDispatched]
    simp [hnone]

end Aggregation
