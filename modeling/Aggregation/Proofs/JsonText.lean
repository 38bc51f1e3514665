import Aggregation.Json.Printer
import Aggregation.Json.Text
import Aggregation.Proofs.Fields
import Mathlib.Data.Int.Notation

/-!
# Reading JSON back

What the printers write is read as the value that was written, in either layout.
Both layouts are cases of one, which only says where blanks stand, so one
induction over values serves the two.  Reading goes by two steps: the grammar
gives the tree of the text, and the tree gives the value.

Doubles are left out.  Their text is the shortest that rounds to them, while
reading rounds at every step.
-/

namespace Aggregation

open Json

namespace JsonText

/-! ## Strings -/

theorem hexDigit?_digitChar :
    ∀ n < 16, Text.hexDigit? (Nat.digitChar n) = some n := by
  decide

theorem hexValue?_lowerHexDigit {n : ℕ} (h : n < 0x20) :
    hexValue? ['0', '0', lowerHexDigit (n / 16), lowerHexDigit n] = some n := by
  have hzero : Text.hexDigit? '0' = some 0 := by decide
  have hhigh := hexDigit?_digitChar (n / 16 % 16) (by omega)
  have hlow := hexDigit?_digitChar (n % 16) (by omega)
  simp only [hexValue?, lowerHexDigit, List.foldlM_cons, List.foldlM_nil, hzero,
    hhigh, hlow, Option.map_some, Option.bind_eq_bind, Option.bind_some, pure]
  congr 1
  omega

/-- A character is read back from its letter after a backslash. -/
theorem readCodes_letter {letter c : Char} (h : escaped? letter = some c)
    (rest : List Char) :
    readCodes ('\\' :: letter :: rest) =
      (readCodes rest).map fun (codes, rest) => (c.toNat :: codes, rest) := by
  have hletter : letter ≠ 'u' := by
    rintro rfl
    simp [escaped?] at h
  rw [readCodes, h]
  · cases readCodes rest <;> rfl
  · simp [hletter]

/-- A character is read back from its escape. -/
theorem readCodes_escapeChar (c : Char) (rest : List Char) :
    readCodes (escapeChar c ++ rest) =
      (readCodes rest).map fun (codes, rest) => (c.toNat :: codes, rest) := by
  unfold escapeChar
  split
  · exact readCodes_letter rfl rest
  · exact readCodes_letter rfl rest
  · exact readCodes_letter rfl rest
  · exact readCodes_letter rfl rest
  · exact readCodes_letter rfl rest
  next hquote hbackslash hnewline hreturn htab =>
    split_ifs with hbackspace hfeed hcontrol
    · obtain rfl : c = '\x08' := Char.toNat_inj.mp hbackspace
      exact readCodes_letter rfl rest
    · obtain rfl : c = '\x0c' := Char.toNat_inj.mp hfeed
      exact readCodes_letter rfl rest
    · have hcode := hexValue?_lowerHexDigit hcontrol
      simp only [List.cons_append, List.nil_append, readCodes, hcode]
      cases readCodes rest <;> rfl
    · simp only [List.cons_append, List.nil_append]
      rw [readCodes, if_neg hcontrol]
      · cases readCodes rest <;> rfl
      · exact hquote
      · exact fun _ _ _ _ _ h => absurd h hbackslash
      · exact fun _ _ h => absurd h hbackslash

/-- The closing quote ends a text, as one within it is escaped. -/
theorem readCodes_quoted (cs rest : List Char) :
    readCodes (cs.flatMap escapeChar ++ '"' :: rest) =
      some (cs.map Char.toNat, rest) := by
  induction cs with
  | nil => simp [readCodes]
  | cons c cs ih =>
      rw [List.flatMap_cons, List.append_assoc, readCodes_escapeChar, ih]
      rfl

/-- The codes of characters are no surrogates, so none are joined. -/
theorem joinSurrogates_codes (cs : List Char) :
    joinSurrogates (cs.map Char.toNat) = some cs := by
  have hvalid : ∀ c : Char, c.toNat.isValidChar := fun c => c.valid
  induction cs with
  | nil => rfl
  | cons c cs ih =>
      cases cs with
      | nil => exact dif_pos (hvalid c)
      | cons d cs =>
          have hsurrogate : ¬ (0xD800 ≤ c.toNat ∧ c.toNat < 0xDC00 ∧
              0xDC00 ≤ d.toNat ∧ d.toNat < 0xE000) := by
            have := hvalid c
            simp only [Nat.isValidChar] at this
            omega
          calc joinSurrogates ((c :: d :: cs).map Char.toNat)
              = (joinSurrogates ((d :: cs).map Char.toNat)).map (c :: ·) :=
                (if_neg hsurrogate).trans (dif_pos (hvalid c))
            _ = some (c :: d :: cs) := by rw [ih, Option.map_some]

/-- A text is read back from its quoted form, after the opening quote. -/
theorem readString_quoted (s : String) (rest : List Char) :
    readString (s.toList.flatMap escapeChar ++ '"' :: rest) =
      some (some s, rest) := by
  simp only [readString, readCodes_quoted, Option.map_some,
    joinSurrogates_codes, String.ofList_toList]

/-! ## Numbers -/

/-- What follows a number cannot be taken for more of it. -/
def EndsNumber (rest : List Char) : Prop :=
  ∀ c ∈ rest.head?, c.isDigit = false ∧ c ≠ '.' ∧ c ≠ 'e' ∧ c ≠ 'E'

/-- The literal of a whole number. -/
def numeral (n : ℤ) : Numeral := ⟨n < 0, Nat.toDigits 10 n.natAbs, none, none⟩

theorem readFraction_of_endsNumber {rest : List Char} (h : EndsNumber rest) :
    readFraction rest = some (none, rest) := by
  cases rest with
  | nil => rfl
  | cons c rest =>
      obtain ⟨-, hpoint, -, -⟩ := h c rfl
      rw [readFraction]
      exact fun _ hsame => hpoint (List.cons.inj hsame).1

theorem readExponent_of_endsNumber {rest : List Char} (h : EndsNumber rest) :
    readExponent rest = some (none, rest) := by
  cases rest with
  | nil => rfl
  | cons c rest =>
      obtain ⟨-, -, hlower, hupper⟩ := h c rfl
      simp [readExponent, hlower, hupper]

/-- A number is written with a digit in front, which is a zero only for zero. -/
theorem toDigits_eq_cons (n : ℕ) :
    ∃ first more, Nat.toDigits 10 n = first :: more ∧ first.isDigit = true ∧
      (first = '0' → n = 0) := by
  induction n using Nat.base_induction 10 (by decide) with
  | single m hm =>
      refine ⟨m.digitChar, [], Nat.toDigits_of_lt_base hm, ?_,
        Nat.digitChar_eq_zero.mp⟩
      simpa [Nat.isDigit_digitChar] using hm
  | digit m k hk hm ih =>
      obtain ⟨first, more, hdigits, hdigit, hzero⟩ := ih
      refine ⟨first, more ++ Nat.toDigits 10 k, ?_, hdigit, fun h => ?_⟩
      · rw [← Nat.toDigits_append_toDigits (by decide) hm hk, hdigits,
          List.cons_append]
      · exact absurd (hzero h) (Nat.ne_of_gt hm)

theorem span_toDigits (n : ℕ) {rest : List Char} (h : EndsNumber rest) :
    (Nat.toDigits 10 n ++ rest).takeWhile Char.isDigit = Nat.toDigits 10 n ∧
      (Nat.toDigits 10 n ++ rest).dropWhile Char.isDigit = rest := by
  have hdigit : ∀ c ∈ Nat.toDigits 10 n, c.isDigit = true := fun _ =>
    Nat.isDigit_of_mem_toDigits (by decide) (by decide)
  rw [List.takeWhile_append_of_pos hdigit, List.dropWhile_append_of_pos hdigit]
  cases rest with
  | nil => simp
  | cons c rest => simp [(h c rfl).1]

theorem readUnsigned_toDigits (negative : Bool) (n : ℕ) {rest : List Char}
    (h : EndsNumber rest) :
    readUnsigned negative (Nat.toDigits 10 n ++ rest) =
      some (⟨negative, Nat.toDigits 10 n, none, none⟩, rest) := by
  rcases Nat.eq_zero_or_pos n with rfl | hpos
  · simp [readUnsigned, readFraction_of_endsNumber h,
      readExponent_of_endsNumber h]
  · obtain ⟨first, more, hdigits, -, hzero⟩ := toDigits_eq_cons n
    obtain ⟨htake, hdrop⟩ := span_toDigits n h
    rw [readUnsigned, htake, hdrop]
    · simp [readFraction_of_endsNumber h, readExponent_of_endsNumber h, hdigits]
    · rw [hdigits]
      intro _ hsame
      exact Nat.ne_of_gt hpos (hzero (List.cons.inj hsame).1)

/-- A whole number is read back as its literal. -/
theorem readNumber_intText (n : ℤ) {rest : List Char} (h : EndsNumber rest) :
    readNumber (intText n ++ rest) = some (numeral n, rest) := by
  unfold intText numeral
  split_ifs with hneg
  · rw [List.cons_append, readNumber, readUnsigned_toDigits true _ h]
    simp [hneg]
  · obtain ⟨first, more, hdigits, hdigit, -⟩ := toDigits_eq_cons n.natAbs
    rw [readNumber, readUnsigned_toDigits false _ h]
    · simp [hneg]
    · rw [hdigits]
      rintro _ hsame
      rw [(List.cons.inj hsame).1] at hdigit
      cases hdigit

end JsonText

/-! ## Layouts -/

/-- Where blanks may stand in a text: before each item and each closing bracket,
which depends on the level, and after each colon. -/
structure Layout where
  gap : ℕ → List Char
  space : List Char
  gap_blank : ∀ level, ∀ c ∈ gap level, JsonText.isBlank c = true
  space_blank : ∀ c ∈ space, JsonText.isBlank c = true

namespace Layout

/-- The layout on one line, without any blanks. -/
def tight : Layout where
  gap _ := []
  space := []
  gap_blank := nofun
  space_blank := nofun

/-- The layout over lines, with two spaces for each level. -/
def spread : Layout where
  gap := newLine
  space := [' ']
  gap_blank level := by simp +contextual [newLine, JsonText.isBlank]
  space_blank := by simp [JsonText.isBlank]

variable (layout : Layout)

mutual

/-- The text of a value at a level. -/
def chars (level : ℕ) : Json → List Char
  | .null => ['n', 'u', 'l', 'l']
  | .bool true => ['t', 'r', 'u', 'e']
  | .bool false => ['f', 'a', 'l', 's', 'e']
  | .int n => intText n
  | .double d => if d.isFinite then doubleText d else ['n', 'u', 'l', 'l']
  | .string s => quote s
  | .array [] => ['[', ']']
  | .array (item :: items) =>
    '[' :: layout.gap (level + 1) ++ chars (level + 1) item ++
      itemChars level items
  | .object [] => ['\x7b', '\x7d']
  | .object ((key, value) :: members) =>
    '\x7b' :: layout.gap (level + 1) ++ quote key ++ ':' :: layout.space ++
      chars (level + 1) value ++ memberChars level members

/-- The items after the first, and the closing bracket. -/
def itemChars (level : ℕ) : List Json → List Char
  | [] => layout.gap level ++ [']']
  | item :: items =>
    ',' :: layout.gap (level + 1) ++ chars (level + 1) item ++
      itemChars level items

/-- The members after the first, and the closing brace. -/
def memberChars (level : ℕ) : List (String × Json) → List Char
  | [] => layout.gap level ++ ['\x7d']
  | (key, value) :: members =>
    ',' :: layout.gap (level + 1) ++ quote key ++ ':' :: layout.space ++
      chars (level + 1) value ++ memberChars level members

end

mutual

theorem compactChars_eq (level : ℕ) :
    ∀ json, compactChars json = tight.chars level json
  | .null | .bool true | .bool false | .int _ | .double _ | .string _
  | .array [] | .object [] => by
      simp only [compactChars, chars]
  | .array (item :: items) => by
      simp [compactChars, chars, tight, compactChars_eq (level + 1) item,
        compactItems_eq level items]
  | .object ((key, value) :: members) => by
      simp [compactChars, chars, tight, compactChars_eq (level + 1) value,
        compactMembers_eq level members]

theorem compactItems_eq (level : ℕ) :
    ∀ items, compactItems items = tight.itemChars level items
  | [] => by simp [compactItems, itemChars, tight]
  | item :: items => by
      simp [compactItems, itemChars, tight, compactChars_eq (level + 1) item,
        compactItems_eq level items]

theorem compactMembers_eq (level : ℕ) :
    ∀ members, compactMembers members = tight.memberChars level members
  | [] => by simp [compactMembers, memberChars, tight]
  | (key, value) :: members => by
      simp [compactMembers, memberChars, tight,
        compactChars_eq (level + 1) value, compactMembers_eq level members]

end

mutual

theorem prettyChars_eq (level : ℕ) :
    ∀ json, prettyChars level json = spread.chars level json
  | .null | .bool true | .bool false | .int _ | .double _ | .string _
  | .array [] | .object [] => by
      simp only [prettyChars, chars]
  | .array (item :: items) => by
      simp [prettyChars, chars, spread, prettyChars_eq (level + 1) item,
        prettyItems_eq level items]
  | .object ((key, value) :: members) => by
      simp [prettyChars, chars, spread, prettyChars_eq (level + 1) value,
        prettyMembers_eq level members]

theorem prettyItems_eq (level : ℕ) :
    ∀ items, prettyItems level items = spread.itemChars level items
  | [] => by simp [prettyItems, itemChars, spread]
  | item :: items => by
      simp [prettyItems, itemChars, spread, prettyChars_eq (level + 1) item,
        prettyItems_eq level items]

theorem prettyMembers_eq (level : ℕ) :
    ∀ members, prettyMembers level members = spread.memberChars level members
  | [] => by simp [prettyMembers, memberChars, spread]
  | (key, value) :: members => by
      simp [prettyMembers, memberChars, spread,
        prettyChars_eq (level + 1) value, prettyMembers_eq level members]

end

end Layout

/-! ## Values -/

namespace Json

mutual

/-- Values that are read back from their text: no doubles, whole numbers of
sixty-four bits with or without a sign, and one member for each key. -/
def IsExact : Json → Prop
  | .int n => -0x8000000000000000 ≤ n ∧ n < 0x10000000000000000
  | .double _ => False
  | .array items => ItemsExact items
  | .object members => (Fields.keys members).Nodup ∧ MembersExact members
  | .null | .bool _ | .string _ => True

def ItemsExact : List Json → Prop
  | [] => True
  | item :: items => item.IsExact ∧ ItemsExact items

def MembersExact : List (String × Json) → Prop
  | [] => True
  | (_, value) :: members => value.IsExact ∧ MembersExact members

end

mutual

/-- How many arrays and objects stand around the innermost value, the value
itself included. -/
def levels : Json → ℕ
  | .array items => itemsLevels items + 1
  | .object members => membersLevels members + 1
  | .null | .bool _ | .int _ | .double _ | .string _ => 0

def itemsLevels : List Json → ℕ
  | [] => 0
  | item :: items => max item.levels (itemsLevels items)

def membersLevels : List (String × Json) → ℕ
  | [] => 0
  | (_, value) :: members => max value.levels (membersLevels members)

end

theorem itemsExact_iff {items : List Json} :
    ItemsExact items ↔ ∀ item ∈ items, item.IsExact := by
  induction items with
  | nil => simp [ItemsExact]
  | cons item items ih => simp [ItemsExact, ih]

theorem membersExact_iff {members : List (String × Json)} :
    MembersExact members ↔ ∀ member ∈ members, member.2.IsExact := by
  induction members with
  | nil => simp [MembersExact]
  | cons member members ih => simp only [MembersExact, ih, List.forall_mem_cons]

theorem itemsLevels_le_iff {items : List Json} {depth : ℕ} :
    itemsLevels items ≤ depth ↔ ∀ item ∈ items, item.levels ≤ depth := by
  induction items with
  | nil => simp [itemsLevels]
  | cons item items ih =>
      simp only [itemsLevels, Nat.max_le, ih, List.forall_mem_cons]

theorem membersLevels_le_iff {members : List (String × Json)} {depth : ℕ} :
    membersLevels members ≤ depth ↔
      ∀ member ∈ members, member.2.levels ≤ depth := by
  induction members with
  | nil => simp [membersLevels]
  | cons member members ih =>
      simp only [membersLevels, Nat.max_le, ih, List.forall_mem_cons]

end Json

namespace JsonText

mutual

/-- The tree of the text of a value.  Doubles have no place here; theirs is that
of null. -/
def ofJson : Json → JsonText
  | .null => null
  | .bool b => bool b
  | .int n => number (numeral n)
  | .double _ => null
  | .string s => string (some s)
  | .array items => array (ofItems items)
  | .object members => object (ofMembers members)

def ofItems : List Json → List JsonText
  | [] => []
  | item :: items => ofJson item :: ofItems items

def ofMembers : List (String × Json) → List (Option String × JsonText)
  | [] => []
  | (key, member) :: members => (some key, ofJson member) :: ofMembers members

end

theorem skipBlanks_append {blanks : List Char}
    (h : ∀ c ∈ blanks, isBlank c = true) (rest : List Char) :
    skipBlanks (blanks ++ rest) = skipBlanks rest :=
  List.dropWhile_append_of_pos h

theorem skipBlanks_cons {c : Char} (h : isBlank c = false) (rest : List Char) :
    skipBlanks (c :: rest) = c :: rest := by
  simp [skipBlanks, h]

theorem readValue_append {blanks : List Char}
    (h : ∀ c ∈ blanks, isBlank c = true) (fuel : ℕ) (rest : List Char) :
    readValue fuel (blanks ++ rest) = readValue fuel rest := by
  cases fuel with
  | zero => rfl
  | succ fuel => simp only [readValue, skipBlanks_append h]

/-- What a whole number starts with. -/
def StartsNumber (c : Char) : Prop :=
  c.isDigit = true ∨ c = '-'

theorem StartsNumber.ne {c d : Char} (h : StartsNumber c)
    (hdigit : d.isDigit = false) (hminus : d ≠ '-') : c ≠ d := by
  rintro rfl
  exact h.elim (by simp [hdigit]) hminus

theorem StartsNumber.not_blank {c : Char} (h : StartsNumber c) :
    isBlank c = false := by
  simp [isBlank, h.ne]

theorem intText_eq_cons (n : ℤ) :
    ∃ c more, intText n = c :: more ∧ StartsNumber c := by
  rw [intText]
  split_ifs
  · exact ⟨_, _, rfl, .inr rfl⟩
  · obtain ⟨first, more, hdigits, hdigit, -⟩ := toDigits_eq_cons n.natAbs
    exact ⟨first, more, hdigits, .inl hdigit⟩

theorem readValue_intText (n : ℤ) (fuel : ℕ) {rest : List Char}
    (h : EndsNumber rest) :
    readValue (fuel + 1) (intText n ++ rest) =
      some (number (numeral n), rest) := by
  have hnumber := readNumber_intText n h
  obtain ⟨c, more, hchars, hstart⟩ := intText_eq_cons n
  rw [hchars, List.cons_append] at hnumber ⊢
  rw [readValue, skipBlanks_cons hstart.not_blank]
  split
  case h_7 => rw [hnumber, Option.map_some]
  all_goals
    next hsame =>
      exact absurd (List.cons.inj hsame).1 (hstart.ne rfl (by decide))

/-- A key is read along with the colon after it. -/
theorem readKey_quoted (key : String) (rest : List Char) :
    readKey (key.toList.flatMap escapeChar ++ '"' :: ':' :: rest) =
      some (some key, rest) := by
  rw [readKey, readString_quoted]
  rfl

theorem readValue_array {text rest : List Char} {c : Char}
    (h : skipBlanks text = c :: rest) (hclose : c ≠ ']') (fuel : ℕ) :
    readValue (fuel + 1) ('[' :: text) = (do
      let (item, rest) ← readValue fuel (c :: rest)
      let (items, rest) ← readItems fuel rest
      some (array (item :: items), rest)) := by
  rw [readValue, skipBlanks_cons rfl]
  simp only [h]
  split
  · next hsame => exact absurd (List.cons.inj hsame).1 hclose
  · rfl

theorem readValue_object {text rest rest' : List Char} {key : Option String}
    (h : skipBlanks text = '"' :: rest)
    (hkey : readKey rest = some (key, rest')) (fuel : ℕ) :
    readValue (fuel + 1) ('\x7b' :: text) = (do
      let (value, rest) ← readValue fuel rest'
      let (members, rest) ← readMembers fuel rest
      some (object ((key, value) :: members), rest)) := by
  rw [readValue, skipBlanks_cons rfl]
  simp only [h, hkey]
  rfl

theorem endsNumber_append {blanks rest : List Char}
    (h : ∀ c ∈ blanks, isBlank c = true) (hrest : EndsNumber rest) :
    EndsNumber (blanks ++ rest) := by
  cases blanks with
  | nil => exact hrest
  | cons c blanks =>
      rintro _ ⟨⟩
      have hblank := h c List.mem_cons_self
      simp only [isBlank, Bool.or_eq_true, decide_eq_true_eq] at hblank
      rcases hblank with ((rfl | rfl) | rfl) | rfl <;> decide

theorem readMembers_cons {text rest rest' : List Char} {key : Option String}
    (h : skipBlanks text = '"' :: rest)
    (hkey : readKey rest = some (key, rest')) (fuel : ℕ) :
    readMembers (fuel + 1) (',' :: text) = (do
      let (value, rest) ← readValue fuel rest'
      let (members, rest) ← readMembers fuel rest
      some ((key, value) :: members, rest)) := by
  rw [readMembers, skipBlanks_cons rfl]
  simp only [h, hkey]
  rfl

variable (layout : Layout)

theorem endsNumber_itemChars (level : ℕ) (items : List Json)
    (rest : List Char) :
    EndsNumber (layout.itemChars level items ++ rest) := by
  cases items with
  | nil =>
      rw [Layout.itemChars, List.append_assoc]
      exact endsNumber_append (layout.gap_blank level) (by rintro _ ⟨⟩; decide)
  | cons item items =>
      rw [Layout.itemChars]
      rintro _ ⟨⟩
      decide

theorem endsNumber_memberChars (level : ℕ) (members : List (String × Json))
    (rest : List Char) :
    EndsNumber (layout.memberChars level members ++ rest) := by
  cases members with
  | nil =>
      rw [Layout.memberChars, List.append_assoc]
      exact endsNumber_append (layout.gap_blank level) (by rintro _ ⟨⟩; decide)
  | cons member members =>
      rw [Layout.memberChars]
      rintro _ ⟨⟩
      decide

/-- A text starts with neither a blank nor a closing bracket. -/
theorem chars_eq_cons (level : ℕ) {json : Json} (h : json.IsExact) :
    ∃ c more, layout.chars level json = c :: more ∧ isBlank c = false ∧
      c ≠ ']' := by
  cases json with
  | int n =>
      obtain ⟨c, more, hchars, hstart⟩ := intText_eq_cons n
      exact ⟨c, more, by rw [Layout.chars, hchars], hstart.not_blank,
        hstart.ne rfl (by decide)⟩
  | double d => exact h.elim
  | null | string s => exact ⟨_, _, rfl, by decide, by decide⟩
  | bool b => cases b <;> exact ⟨_, _, rfl, by decide, by decide⟩
  | array items => cases items <;> exact ⟨_, _, rfl, by decide, by decide⟩
  | object members => cases members <;> exact ⟨_, _, rfl, by decide, by decide⟩

mutual

/-- Read from its text, whatever follows.  The fuel only has to reach as far as
the text is long, so it is taken down by one for each bracket and comma along
with the text. -/
theorem readValue_chars :
    ∀ (json : Json) (level fuel : ℕ) (rest : List Char), json.IsExact →
    EndsNumber rest → (layout.chars level json).length ≤ fuel →
      readValue fuel (layout.chars level json ++ rest) =
        some (ofJson json, rest)
  | json, level, 0, rest, hexact, _, hfuel => by
      obtain ⟨c, more, hchars, -⟩ := chars_eq_cons layout level hexact
      simp [hchars] at hfuel
  | .null, level, fuel + 1, rest, _, _, _ => by
      simp [Layout.chars, readValue, skipBlanks, isBlank, ofJson]
  | .bool true, level, fuel + 1, rest, _, _, _ => by
      simp [Layout.chars, readValue, skipBlanks, isBlank, ofJson]
  | .bool false, level, fuel + 1, rest, _, _, _ => by
      simp [Layout.chars, readValue, skipBlanks, isBlank, ofJson]
  | .int n, level, fuel + 1, rest, _, hrest, _ => by
      rw [Layout.chars, readValue_intText n fuel hrest, ofJson]
  | .double d, _, _ + 1, _, hexact, _, _ => hexact.elim
  | .string s, level, fuel + 1, rest, _, _, _ => by
      simp [Layout.chars, readValue, skipBlanks, isBlank, ofJson, quote,
        readString_quoted]
  | .array [], level, fuel + 1, rest, _, _, _ => by
      simp [Layout.chars, readValue, skipBlanks, isBlank, ofJson, ofItems]
  | .array (item :: items), level, fuel + 1, rest, ⟨hitem, hitems⟩, _,
      hfuel => by
      obtain ⟨c, more, hchars, hblank, hclose⟩ :=
        chars_eq_cons layout (level + 1) hitem
      have hskip : skipBlanks (layout.gap (level + 1) ++
          (layout.chars (level + 1) item ++
          (layout.itemChars level items ++ rest))) =
            c :: (more ++ (layout.itemChars level items ++ rest)) := by
        rw [skipBlanks_append (layout.gap_blank _), hchars, List.cons_append,
          skipBlanks_cons hblank]
      simp only [Layout.chars, List.length_cons, List.length_append] at hfuel
      have hread := readValue_chars item (level + 1) fuel
        (layout.itemChars level items ++ rest) hitem
        (endsNumber_itemChars layout level items rest) (by omega)
      rw [hchars, List.cons_append] at hread
      simp only [Layout.chars, List.cons_append, List.append_assoc]
      rw [readValue_array hskip hclose, hread]
      simp only [Option.bind_eq_bind, Option.bind_some,
        readItems_chars items level fuel rest hitems (by omega),
        ofJson, ofItems]
  | .object [], level, fuel + 1, rest, _, _, _ => by
      simp [Layout.chars, readValue, skipBlanks, isBlank, ofJson, ofMembers]
  | .object ((key, value) :: members), level, fuel + 1, rest,
      ⟨_, hvalue, hmembers⟩, _, hfuel => by
      simp only [Layout.chars, quote, List.length_cons, List.length_append]
        at hfuel
      have hread := readValue_chars value (level + 1) fuel
        (layout.memberChars level members ++ rest) hvalue
        (endsNumber_memberChars layout level members rest) (by omega)
      simp only [Layout.chars, quote, List.cons_append, List.append_assoc,
        List.nil_append]
      rw [readValue_object (skipBlanks_append (layout.gap_blank _) _)
        (readKey_quoted key _), readValue_append layout.space_blank, hread]
      simp only [Option.bind_eq_bind, Option.bind_some,
        readMembers_chars members level fuel rest hmembers (by omega),
        ofJson, ofMembers]

theorem readItems_chars :
    ∀ (items : List Json) (level fuel : ℕ) (rest : List Char),
    Json.ItemsExact items → (layout.itemChars level items).length ≤ fuel →
      readItems fuel (layout.itemChars level items ++ rest) =
        some (ofItems items, rest)
  | [], level, 0, rest, _, hfuel => by
      simp [Layout.itemChars] at hfuel
  | [], level, fuel + 1, rest, _, _ => by
      rw [Layout.itemChars, List.append_assoc, readItems,
        skipBlanks_append (layout.gap_blank _)]
      simp [skipBlanks, isBlank, ofItems]
  | _ :: _, level, 0, rest, _, hfuel => by
      simp [Layout.itemChars] at hfuel
  | item :: items, level, fuel + 1, rest, ⟨hitem, hitems⟩, hfuel => by
      simp only [Layout.itemChars, List.length_cons, List.length_append]
        at hfuel
      have hread := readValue_chars item (level + 1) fuel
        (layout.itemChars level items ++ rest) hitem
        (endsNumber_itemChars layout level items rest) (by omega)
      simp only [Layout.itemChars, List.cons_append, List.append_assoc]
      rw [readItems, skipBlanks_cons rfl]
      simp only [readValue_append (layout.gap_blank _), hread,
        Option.bind_eq_bind, Option.bind_some,
        readItems_chars items level fuel rest hitems (by omega), ofItems]

theorem readMembers_chars : ∀ (members : List (String × Json)) (level fuel : ℕ)
    (rest : List Char), Json.MembersExact members →
      (layout.memberChars level members).length ≤ fuel →
        readMembers fuel (layout.memberChars level members ++ rest) =
          some (ofMembers members, rest)
  | [], level, 0, rest, _, hfuel => by
      simp [Layout.memberChars] at hfuel
  | [], level, fuel + 1, rest, _, _ => by
      rw [Layout.memberChars, List.append_assoc, readMembers,
        skipBlanks_append (layout.gap_blank _)]
      simp [skipBlanks, isBlank, ofMembers]
  | _ :: _, level, 0, rest, _, hfuel => by
      simp [Layout.memberChars] at hfuel
  | (key, value) :: members, level, fuel + 1, rest, ⟨hvalue, hmembers⟩,
      hfuel => by
      simp only [Layout.memberChars, quote, List.length_cons,
        List.length_append] at hfuel
      have hread := readValue_chars value (level + 1) fuel
        (layout.memberChars level members ++ rest) hvalue
        (endsNumber_memberChars layout level members rest) (by omega)
      simp only [Layout.memberChars, quote, List.cons_append, List.append_assoc,
        List.nil_append]
      rw [readMembers_cons (skipBlanks_append (layout.gap_blank _) _)
        (readKey_quoted key _), readValue_append layout.space_blank, hread]
      simp only [Option.bind_eq_bind, Option.bind_some,
        readMembers_chars members level fuel rest hmembers (by omega),
        ofMembers]

end

/-- The text of a value in any layout is read as the tree of the value. -/
theorem parse?_chars {json : Json} (h : json.IsExact) :
    parse? (String.ofList (layout.chars 0 json)) = some (ofJson json) := by
  have hread :=
    readValue_chars layout json 0 ((layout.chars 0 json).length + 1) [] h nofun
      (Nat.le_succ _)
  rw [List.append_nil] at hread
  simp only [parse?, String.toList_ofList, hread, Option.bind_eq_bind,
    Option.bind_some]
  rfl

theorem parse?_compact {json : Json} (h : json.IsExact) :
    parse? json.compact = some (ofJson json) := by
  rw [Json.compact, Layout.compactChars_eq 0]
  exact parse?_chars .tight h

theorem parse?_pretty {json : Json} (h : json.IsExact) :
    parse? json.pretty = some (ofJson json) := by
  rw [Json.pretty, Layout.prettyChars_eq 0]
  exact parse?_chars .spread h

/-! ## The value of a tree -/

theorem le_ofDigitChars (digits : List Char) (start : ℕ) :
    start ≤ Nat.ofDigitChars 10 digits start := by
  rw [Nat.ofDigitChars_eq_ofDigitChars_zero]
  have hpower : 0 < 10 ^ digits.length := Nat.pow_pos (by decide)
  exact Nat.le_trans (Nat.le_mul_of_pos_left start hpower)
    (Nat.le_add_right _ _)

/-- Digits are taken up as long as the number that they make fits. -/
theorem absorb_eq (digits : List Char) (start : ℕ)
    (h : Nat.ofDigitChars 10 digits start < UInt64.size) :
    Numeral.absorb start digits = (Nat.ofDigitChars 10 digits start, []) := by
  induction digits generalizing start with
  | nil => rfl
  | cons c digits ih =>
      rw [Nat.ofDigitChars_cons] at h ⊢
      rw [Numeral.absorb, if_pos (Nat.lt_of_le_of_lt (le_ofDigitChars _ _) h),
        ih _ h]

theorem value?_numeral {n : ℤ} (hlow : -0x8000000000000000 ≤ n)
    (hhigh : n < 0x10000000000000000) :
    (numeral n).value? = some (.int n) := by
  have hsize : n.natAbs < UInt64.size := by
    simp only [UInt64.size]
    omega
  have habsorb :
      Numeral.absorb 0 (Nat.toDigits 10 n.natAbs) = (n.natAbs, []) := by
    rw [absorb_eq, Nat.ofDigitChars_ten_toDigits]
    rwa [Nat.ofDigitChars_ten_toDigits]
  simp only [Numeral.value?, numeral, habsorb]
  by_cases hneg : n < 0
  · have hfits : ¬ (n.natAbs = 0 ∨ 0x8000000000000000 < n.natAbs) := by omega
    have hback : -(n.natAbs : ℤ) = n := by omega
    rw [if_pos (decide_eq_true hneg), if_neg hfits, hback]
  · have hback : (n.natAbs : ℤ) = n := by omega
    rw [if_neg (by simpa using hneg), hback]

mutual

theorem valueWithin?_ofJson : ∀ (json : Json) (depth : ℕ), json.IsExact →
    json.levels ≤ depth →
    valueWithin? depth (ofJson json) = some json
  | .null, depth, _, _ => rfl
  | .bool b, depth, _, _ => rfl
  | .int n, depth, ⟨hlow, hhigh⟩, _ => by
      rw [ofJson, valueWithin?, value?_numeral hlow hhigh, Option.map_some]
  | .double d, _, hexact, _ => hexact.elim
  | .string s, depth, _, _ => rfl
  | .array items, depth, hexact, hdepth => by
      rw [Json.levels] at hdepth
      rw [ofJson, valueWithin?, if_neg (by omega),
        itemsWithin?_ofItems items (depth - 1) hexact (by omega),
        Option.map_some]
  | .object members, depth, ⟨hkeys, hmembers⟩, hdepth => by
      rw [Json.levels] at hdepth
      rw [ofJson, valueWithin?, if_neg (by omega),
        membersWithin?_ofMembers members (depth - 1) hmembers (by omega),
        Option.map_some, Fields.ofPairs_of_nodup hkeys]

theorem itemsWithin?_ofItems :
    ∀ (items : List Json) (depth : ℕ), Json.ItemsExact items →
    Json.itemsLevels items ≤ depth →
      itemsWithin? depth (ofItems items) = some items
  | [], depth, _, _ => rfl
  | item :: items, depth, ⟨hitem, hitems⟩, hdepth => by
      rw [Json.itemsLevels, Nat.max_le] at hdepth
      simp only [ofItems, itemsWithin?,
        valueWithin?_ofJson item depth hitem hdepth.1, itemsWithin?_ofItems
          items depth hitems hdepth.2, Option.bind_eq_bind, Option.bind_some]

theorem membersWithin?_ofMembers :
    ∀ (members : List (String × Json)) (depth : ℕ),
    Json.MembersExact members → Json.membersLevels members ≤ depth →
      membersWithin? depth (ofMembers members) = some members
  | [], depth, _, _ => rfl
  | (key, value) :: members, depth, ⟨hvalue, hmembers⟩, hdepth => by
      rw [Json.membersLevels, Nat.max_le] at hdepth
      simp only [ofMembers, membersWithin?,
        valueWithin?_ofJson value depth hvalue hdepth.1,
        membersWithin?_ofMembers members depth hmembers hdepth.2,
        Option.bind_eq_bind, Option.bind_some]

end

end JsonText

/-! ## Printing and reading -/

namespace Json

variable {json : Json}

theorem parse?_compact (hexact : json.IsExact)
    (hdepth : json.levels ≤ JsonText.maxDepth) :
    parse? json.compact = some json := by
  rw [parse?, JsonText.parse?_compact hexact, Option.bind_some]
  exact JsonText.valueWithin?_ofJson json JsonText.maxDepth hexact hdepth

theorem parse?_pretty (hexact : json.IsExact)
    (hdepth : json.levels ≤ JsonText.maxDepth) :
    parse? json.pretty = some json := by
  rw [parse?, JsonText.parse?_pretty hexact, Option.bind_some]
  exact JsonText.valueWithin?_ofJson json JsonText.maxDepth hexact hdepth

end Json

end Aggregation
