import Aggregation.Proofs.Sorting

/-!
# Sort entries

A sort lists entries.  Each of them is a structure that names a field, and may
have a text for its verse.  The fields are sorted by in the order of their first
appearance, and each in the direction of its last entry.  The first entry that
is something else is what the list is refused for.  Where there is no list, a
ready sort document is taken as it is and anything else is refused.
-/

namespace Aggregation

/-! ## Directions -/

/-- A number that stands for a direction in a ready sort document. -/
inductive Value.IsDirection : Value → Prop
  | int32 {n : Int32} (h : n = 1 ∨ n = -1) : IsDirection (.int32 n)
  | int64 {n : Int64} (h : n = 1 ∨ n = -1) : IsDirection (.int64 n)
  | double {d : Double}
      (h : d.equal (.ofNat false 1) = true ∨ d.equal (.ofNat true 1) = true) :
      IsDirection (.double d)

namespace Double

theorem ofNat_one : ofNat false 1 = ⟨0x3FF0000000000000⟩ := by
  decide +kernel

theorem ofNat_minusOne : ofNat true 1 = ⟨0xBFF0000000000000⟩ := by
  decide +kernel

theorem isUnit_iff {d : Double} :
    d.isUnit = true ↔ d.equal (.ofNat false 1) = true ∨
      d.equal (.ofNat true 1) = true := by
  have hbits := d.bits.toNat_lt
  simp only [ofNat_one, ofNat_minusOne, isUnit, equal, isNaN, isZero,
    Bool.and_eq_true, Bool.or_eq_true, Bool.not_eq_true', decide_eq_true_eq,
    decide_eq_false_iff_not, beq_iff_eq, ← UInt64.toNat_inj]
  simp only [sizeCode, infinityCode, fractionSize, signCode, UInt64.reduceToNat]
  omega

end Double

theorem Value.isUnit_iff {value : Value} : value.isUnit = true ↔
    value.IsDirection := by
  constructor
  · intro h
    cases value with
    | int32 n => exact .int32 (by simpa [isUnit] using h)
    | int64 n => exact .int64 (by simpa [isUnit] using h)
    | double d => exact .double (Double.isUnit_iff.mp h)
    | _ => cases h
  · rintro (h | h | h)
    · simpa [isUnit] using h
    · simpa [isUnit] using h
    · exact Double.isUnit_iff.mpr h

end Aggregation

namespace Aggregation.Sort

/-! ## One entry -/

/-- A structure that names a field, and has a text for its verse if it has
anything. -/
inductive Lists : Value → String × Option String → Prop
  | entry {members : Document} {field : String} {verse : Option String}
      (hfield : Fields.get? members "field" = some (.string field))
      (hnonempty : field ≠ "")
      (hverse : Fields.get? members "verse" = verse.map .string) :
      Lists (.document members) (field, verse)

/-- What the entry with this index is refused for. -/
inductive Faulty (index : ℕ) : Value → Malformation → Prop
  | notStructure {value : Value} (h : ∀ members, value ≠ .document members) :
      Faulty index value (.entryNotStructure index)
  | withoutField {members : Document}
      (h : ∀ field,
        Fields.get? members "field" = some (.string field) → field = "") :
      Faulty index (.document members) (.entryWithoutField index)
  | verse {members : Document} {field : String} {value : Value}
      (hfield : Fields.get? members "field" = some (.string field))
      (hnonempty : field ≠ "")
      (hverse : Fields.get? members "verse" = some value)
      (hother : ∀ text, value ≠ .string text) :
      Faulty index (.document members) (.entryVerse index field)

/-- Downwards for the verse `desc`, and upwards for any other and for none. -/
def direction (verse : Option String) : Int32 :=
  if verse = some "desc" then -1 else 1

variable {index : ℕ} {value : Value} {field : String} {verse : Option String}
  {found : Malformation}

theorem readEntry_of_lists (h : Lists value (field, verse)) :
    readEntry index value = .ok (field, direction verse) := by
  cases h with
  | entry hfield hnonempty hverse =>
      simp only [readEntry, hfield, String.isEmpty_iff, hnonempty, hverse]
      cases verse <;> simp [direction]

theorem readEntry_of_faulty (h : Faulty index value found) :
    readEntry index value = .error found := by
  cases h with
  | notStructure h =>
      rw [readEntry.eq_def]
      split
      · next members => exact absurd rfl (h members)
      · rfl
  | @withoutField members h =>
      rw [readEntry]
      split
      · next field hfield =>
          rw [h field hfield]
          rfl
      · rfl
  | @verse members field value hfield hnonempty hverse hother =>
      simp only [readEntry, hfield, String.isEmpty_iff, hnonempty, hverse]
      cases value with
      | string text => exact absurd rfl (hother text)
      | _ => rfl

theorem Faulty.not_lists (h : Faulty index value found)
    (entry : String × Option String) :
    ¬ Lists value entry := by
  intro hentry
  have hread := readEntry_of_faulty h
  rw [readEntry_of_lists hentry] at hread
  cases hread

theorem lists_or_faulty (index : ℕ) (value : Value) :
    (∃ entry, Lists value entry) ∨ ∃ found, Faulty index value found := by
  by_cases hstructure : ∃ members, value = .document members
  · obtain ⟨members, rfl⟩ := hstructure
    by_cases hfield :
        ∃ field, Fields.get? members "field" = some (.string field) ∧ field ≠ ""
    · obtain ⟨field, hfield, hnonempty⟩ := hfield
      cases hverse : Fields.get? members "verse" with
      | none => exact .inl ⟨(field, none), .entry hfield hnonempty hverse⟩
      | some value =>
          by_cases htext : ∃ text, value = .string text
          · obtain ⟨text, rfl⟩ := htext
            exact .inl ⟨(field, some text), .entry hfield hnonempty hverse⟩
          · exact .inr ⟨_, .verse hfield hnonempty hverse (not_exists.mp htext)⟩
    · refine .inr ⟨_, .withoutField fun field hsome => ?_⟩
      by_contra hnonempty
      exact hfield ⟨field, hsome, hnonempty⟩
  · exact .inr ⟨_, .notStructure (not_exists.mp hstructure)⟩

/-! ## Lists of entries -/

/-- The document that sorts by these fields and verses. -/
def sorted (entries : Fields (Option String)) : Document :=
  Fields.ofPairs
    (entries.map fun entry => (entry.1, .int32 (direction entry.2)))

theorem sorted_concat (entries : Fields (Option String)) (field : String)
    (verse : Option String) :
    sorted (entries ++ [(field, verse)]) =
      Fields.insert (sorted entries) field (.int32 (direction verse)) := by
  rw [sorted, List.map_append]
  exact Fields.ofPairs_concat _ _ _

theorem keys_sorted (entries : Fields (Option String)) :
    Fields.keys (sorted entries) = (Fields.keys entries).eraseDups := by
  rw [sorted, Fields.keys_ofPairs, Fields.keys, Fields.keys, List.map_map]
  rfl

theorem get?_sorted (entries : Fields (Option String)) (field : String) :
    Fields.get? (sorted entries) field =
      (Fields.last? entries field).map fun verse =>
        .int32 (direction verse) := by
  rw [sorted, Fields.get?_ofPairs]
  exact Fields.last?_map
    (fun verse => Value.int32 (direction verse)) entries field

variable {values : List Value} {entries : Fields (Option String)}

/-- Entries are taken up one after another. -/
theorem addEntries_of_lists (h : List.Forall₂ Lists values entries)
    (earlier : Fields (Option String)) (index : ℕ) :
    addEntries (sorted earlier) index values =
      .ok (sorted (earlier ++ entries)) := by
  induction h generalizing earlier index with
  | nil =>
      rw [List.append_nil]
      rfl
  | @cons value entry values entries hvalue _ ih =>
      obtain ⟨field, verse⟩ := entry
      rw [addEntries, readEntry_of_lists hvalue]
      calc
        addEntries
            (Fields.insert (sorted earlier) field (.int32 (direction verse)))
            (index + 1) values =
          addEntries (sorted (earlier ++ [(field, verse)])) (index + 1)
            values := by
          rw [sorted_concat]
        _ = .ok (sorted (earlier ++ (field, verse) :: entries)) := by
          rw [ih, List.append_assoc]
          rfl

/-- The first faulty entry decides, whatever follows it. -/
theorem addEntries_of_faulty {before after : List Value}
    (hbefore : ∀ value ∈ before, ∃ entry, Lists value entry)
    (document : Document)
    (hfaulty : Faulty (index + before.length) value found) :
    addEntries document index (before ++ value :: after) = .error found := by
  induction before generalizing document index with
  | nil =>
      have hread : readEntry index value = .error found :=
        readEntry_of_faulty hfaulty
      rw [List.nil_append, addEntries, hread]
      rfl
  | cons first before ih =>
      obtain ⟨⟨⟨field, verse⟩, hfirst⟩, hrest⟩ :=
        List.forall_mem_cons.mp hbefore
      rw [List.cons_append, addEntries, readEntry_of_lists hfirst]
      apply ih hrest
      rw [Nat.add_right_comm]
      exact hfaulty

/-! ## Arguments -/

variable {args document : Document}

theorem ofArgs_of_list (hlist : Fields.get? args "order" = some (.array values))
    (hsome : values ≠ []) : ofArgs args = addEntries [] 0 values := by
  rw [ofArgs, hlist]
  cases values with
  | nil => exact absurd rfl hsome
  | cons value values => rfl

/-- A list is empty, or it is sorted by, or one of its values is refused. -/
theorem ofArgs_list_cases
    (hlist : Fields.get? args "order" = some (.array values)) :
    (values = [] ∧ ofArgs args = .error .orderEmpty) ∨
      (values ≠ [] ∧ ∃ entries, List.Forall₂ Lists values entries ∧
        ofArgs args = .ok (sorted entries)) ∨
      ∃ before value after found, values = before ++ value :: after ∧
        (∀ earlier ∈ before, ∃ entry, Lists earlier entry) ∧
        Faulty before.length value found ∧ ofArgs args = .error found := by
  by_cases hempty : values = []
  · subst hempty
    refine .inl ⟨rfl, ?_⟩
    rw [ofArgs, hlist]
  · rw [ofArgs_of_list hlist hempty]
    rcases Result.forall_or_first
        (fun value => ∃ entry, Lists value entry) values with
      hall | ⟨before, value, after, rfl, hbefore, hvalue⟩
    · obtain ⟨entries, hentries⟩ := Result.exists_forall₂_iff.mpr hall
      exact .inr (.inl ⟨hempty, entries, hentries,
        addEntries_of_lists hentries [] 0⟩)
    · obtain ⟨found, hfaulty⟩ :=
        (lists_or_faulty before.length value).resolve_left hvalue
      refine .inr (.inr ⟨before, value, after, found, rfl, hbefore,
        hfaulty, ?_⟩)
      apply addEntries_of_faulty hbefore
      rw [Nat.zero_add]
      exact hfaulty

theorem ofArgs_of_list_eq_ok_iff
    (hlist : Fields.get? args "order" = some (.array values)) :
    ofArgs args = .ok document ↔
      values ≠ [] ∧ ∃ entries, List.Forall₂ Lists values entries ∧
        document = sorted entries := by
  rcases ofArgs_list_cases hlist with
    ⟨rfl, hargs⟩ | ⟨hsome, entries, hentries, hargs⟩ |
      ⟨before, value, after, found, rfl, -, hfaulty, hargs⟩
  · simp [hargs]
  · rw [hargs, Except.ok.injEq]
    constructor
    · rintro rfl
      exact ⟨hsome, entries, hentries, rfl⟩
    · rintro ⟨-, entries', hentries', rfl⟩
      have hsame := addEntries_of_lists hentries [] 0
      rw [addEntries_of_lists hentries' [] 0] at hsame
      exact (Except.ok.inj hsame).symm
  · rw [hargs]
    refine iff_of_false nofun ?_
    rintro ⟨-, entries, hentries, -⟩
    obtain ⟨entry, hentry⟩ :=
      Result.exists_forall₂_iff.mp ⟨entries, hentries⟩ value (by simp)
    exact hfaulty.not_lists entry hentry

theorem ofArgs_of_list_eq_error
    (hlist : Fields.get? args "order" = some (.array values))
    (h : ofArgs args = .error found) :
    (values = [] ∧ found = .orderEmpty) ∨
      ∃ before value after, values = before ++ value :: after ∧
        (∀ earlier ∈ before, ∃ entry, Lists earlier entry) ∧
        Faulty before.length value found := by
  rcases ofArgs_list_cases hlist with
    ⟨hempty, hargs⟩ | ⟨-, entries, -, hargs⟩ |
      ⟨before, value, after, other, hsplit, hbefore, hfaulty, hargs⟩
  · rw [hargs] at h
    exact .inl ⟨hempty, (Except.error.inj h).symm⟩
  · rw [hargs] at h
    cases h
  · rw [hargs] at h
    exact .inr ⟨before, value, after, hsplit, hbefore,
      Except.error.inj h ▸ hfaulty⟩

theorem ofArgs_of_not_list (hvalue : Fields.get? args "order" = some value)
    (hother : ∀ values, value ≠ .array values) :
    ofArgs args = .error .orderNotList := by
  rw [ofArgs, hvalue]
  cases value with
  | array values => exact absurd rfl (hother values)
  | _ => rfl

/-- Without a list, only a ready sort document is taken. -/
theorem ofArgs_of_no_list (hnone : Fields.get? args "order" = none) :
    ofArgs args =
      if isNative args then .ok args else .error .orderMissing := by
  rw [ofArgs, hnone]

theorem isNative_iff_isDirection :
    isNative args = true ↔ args ≠ [] ∧ ∀ field ∈ args, field.2.IsDirection := by
  simp only [isNative_iff, Value.isUnit_iff]

end Aggregation.Sort

namespace Aggregation

open Aggregation.Sort

theorem StageOperator.plan_sort_eq_error_iff {args : Document}
    {param : Option Param} {cause : Cause} :
    sort.plan args param = .error cause ↔
      ∃ found, Sort.ofArgs args = .error found ∧ cause = .structural found := by
  rw [plan_sort]
  cases Sort.ofArgs args <;> simp [eq_comm]

/-- A list is accepted exactly if it has entries and nothing else in it.  The
document then has the fields that the entries name, in the order of their first
appearance, and each in the direction of its last entry: downwards if the verse
is `desc`, else upwards.  Otherwise the list is refused for its structure, and
where it is not empty for that of the first of its values which is no entry.
Arguments without a list are taken as they are if they are a ready sort
document, some fields with a direction each, and refused if they are not.  A
list that is something else is always refused. -/
theorem plan_sort_reference (args : Document) (param : Option Param) :
    (∀ values, Fields.get? args "order" = some (.array values) →
      ((∃ plan, StageOperator.sort.plan args param = .ok plan) ↔
        values ≠ [] ∧ ∀ value ∈ values, ∃ entry, Lists value entry) ∧
      (∀ plan, StageOperator.sort.plan args param = .ok plan →
        ∃ entries document, List.Forall₂ Lists values entries ∧
          plan = .operand (.document document) ∧
          Fields.keys document = (Fields.keys entries).eraseDups ∧
          ∀ field ∈ Fields.keys document, ∃ verse, Fields.last? entries field =
            some verse ∧
            Fields.get? document field =
              some (.int32 (if verse = some "desc" then -1 else 1))) ∧
      ∀ cause, StageOperator.sort.plan args param = .error cause →
        cause.code = .structural ∧
        ((values = [] ∧ cause = .structural .orderEmpty) ∨
          ∃ before value after found, values = before ++ value :: after ∧
            (∀ earlier ∈ before, ∃ entry, Lists earlier entry) ∧
            (∀ entry, ¬ Lists value entry) ∧ Faulty before.length value found ∧
            cause = .structural found)) ∧
    (Fields.get? args "order" = none →
      (StageOperator.sort.plan args param = .ok (.operand (.document args)) ↔
        args ≠ [] ∧ ∀ field ∈ args, field.2.IsDirection) ∧
      (¬ (args ≠ [] ∧ ∀ field ∈ args, field.2.IsDirection) →
        StageOperator.sort.plan args param =
          .error (.structural .orderMissing))) ∧
    ∀ value, Fields.get? args "order" = some value →
      (∀ values, value ≠ .array values) →
      StageOperator.sort.plan args param =
        .error (.structural .orderNotList) := by
  refine ⟨fun values hlist =>
    ⟨⟨?_, ?_⟩, fun plan hplan => ?_, fun cause hcause => ?_⟩,
    fun hnone => ?_, fun value hvalue hother => ?_⟩
  · rintro ⟨plan, hplan⟩
    obtain ⟨document, hdocument, -⟩ :=
      StageOperator.plan_sort_eq_ok_iff.mp hplan
    obtain ⟨hsome, entries, hentries, -⟩ :=
      (ofArgs_of_list_eq_ok_iff hlist).mp hdocument
    exact ⟨hsome, Result.exists_forall₂_iff.mp ⟨entries, hentries⟩⟩
  · rintro ⟨hsome, hall⟩
    obtain ⟨entries, hentries⟩ := Result.exists_forall₂_iff.mpr hall
    have hdocument :=
      (ofArgs_of_list_eq_ok_iff hlist).mpr ⟨hsome, entries, hentries, rfl⟩
    exact ⟨_, StageOperator.plan_sort_eq_ok_iff.mpr ⟨_, hdocument, rfl⟩⟩
  · obtain ⟨document, hdocument, rfl⟩ :=
      StageOperator.plan_sort_eq_ok_iff.mp hplan
    obtain ⟨-, entries, hentries, rfl⟩ :=
      (ofArgs_of_list_eq_ok_iff hlist).mp hdocument
    refine ⟨entries, _, hentries, rfl, keys_sorted entries,
      fun field hmem => ?_⟩
    rw [keys_sorted, List.mem_eraseDups] at hmem
    obtain ⟨verse, hverse⟩ :=
      Option.ne_none_iff_exists'.mp fun hnone =>
        Fields.last?_eq_none_iff.mp hnone hmem
    exact ⟨verse, hverse,
      by rw [get?_sorted, hverse, Option.map_some, direction]⟩
  · obtain ⟨found, hfound, rfl⟩ :=
      StageOperator.plan_sort_eq_error_iff.mp hcause
    refine ⟨rfl, ?_⟩
    rcases ofArgs_of_list_eq_error hlist hfound with
      ⟨hempty, rfl⟩ | ⟨before, value, after, hsplit, hbefore, hfaulty⟩
    · exact .inl ⟨hempty, rfl⟩
    · exact .inr ⟨before, value, after, found, hsplit, hbefore,
        hfaulty.not_lists, hfaulty, rfl⟩
  · rw [StageOperator.plan_sort, ofArgs_of_no_list hnone,
      ← isNative_iff_isDirection]
    cases isNative args <;> simp
  · exact StageOperator.plan_sort_eq_error_iff.mpr
      ⟨_, ofArgs_of_not_list hvalue hother, rfl⟩

/-- Entries that sort by age twice, the first time downwards, and by name in
between. -/
def Sort.ageNameAge : List Value :=
  [.document [("field", .string "age"), ("verse", .string "desc")],
    .document [("verse", .string "DESC"), ("field", .string "name")],
    .document [("field", .string "age"), ("verse", .string "asc")]]

theorem plan_sort_ageNameAge :
    (∃ entries document, List.Forall₂ Lists ageNameAge entries ∧
      StageOperator.sort.plan [("order", .array ageNameAge)] none =
        .ok (.operand (.document document)) ∧
      Fields.keys document = ["age", "name"] ∧
      ∃ verse, Fields.last? entries "age" = some verse ∧ verse ≠ some "desc") ∧
    (∃ cause,
      StageOperator.sort.plan [("order", .array (ageNameAge ++ [.null]))] none =
        .error cause ∧
      cause.message = "sort entry 3 is not a \x7bfield, verse\x7d structure" ∧
      ∃ before value after, ageNameAge ++ [.null] = before ++ value :: after ∧
        ∀ entry, ¬ Lists value entry) ∧
    StageOperator.sort.plan
        [("age", .int64 (-1)), ("name", .double ⟨0x3FF0000000000000⟩)] none =
      .ok
        (.operand
          (.document
            [("age", .int64 (-1)), ("name", .double ⟨0x3FF0000000000000⟩)])) ∧
    StageOperator.sort.plan [("order", .int32 1)] none =
      .error (.structural .orderNotList) := by
  refine ⟨?_, ?_, ?_, ?_⟩
  · have hplan : StageOperator.sort.plan [("order", .array ageNameAge)] none =
        .ok (.operand (.document [("age", .int32 1), ("name", .int32 1)])) := by
      rfl
    obtain ⟨-, hsorted, -⟩ :=
      (plan_sort_reference [("order", .array ageNameAge)] none).1 ageNameAge rfl
    obtain ⟨entries, document, hentries, hsame, hkeys, hdirection⟩ :=
      hsorted _ hplan
    cases hsame
    obtain ⟨verse, hverse, hdown⟩ := hdirection "age" (by decide)
    refine ⟨entries, _, hentries, hplan, rfl, verse, hverse, ?_⟩
    rintro rfl
    simp [Fields.get?] at hdown
  · have hplan :
        StageOperator.sort.plan [("order", .array (ageNameAge ++ [.null]))]
            none =
          .error (.structural (.entryNotStructure 3)) := by
      rfl
    obtain ⟨-, -, hrefused⟩ :=
      (plan_sort_reference [("order", .array (ageNameAge ++ [.null]))] none).1 _
        rfl
    obtain ⟨-, ⟨hempty, -⟩ | ⟨before, value, after, _, hsplit, -,
        hother, -, -⟩⟩ :=
      hrefused _ hplan
    · cases hempty
    · exact ⟨_, hplan, by decide, before, value, after, hsplit, hother⟩
  · obtain ⟨-, hready, -⟩ := plan_sort_reference
      [("age", .int64 (-1)), ("name", .double ⟨0x3FF0000000000000⟩)] none
    refine (hready rfl).1.mpr ⟨List.cons_ne_nil _ _, List.forall_mem_cons.mpr
      ⟨.int64 (.inr rfl), List.forall_mem_singleton.mpr (.double (.inl ?_))⟩⟩
    decide +kernel
  · refine (plan_sort_reference [("order", .int32 1)] none).2.2 _ rfl ?_
    rintro values ⟨⟩

end Aggregation
