import Aggregation.Proofs.Dependence
import Aggregation.Proofs.Fields

/-!
# Sort documents

Whatever a sort is given, a list of entries or a ready sort document, it comes
to a ready sort document: some fields, each with `1` or `-1`.  Given that in
turn it comes to the same again, unless one of the fields has the name under
which a sort looks for its list of entries.  That field is then taken for the
list, which it is not.
-/

namespace Aggregation.Sort

open Result

theorem isNative_iff {args : Document} :
    isNative args = true ↔ args ≠ [] ∧ ∀ field ∈ args,
      field.2.isUnit = true := by
  simp [isNative]

/-- An entry sorts upwards or downwards. -/
theorem isUnit_of_readEntry {index : ℕ} {entry : Value} {field : String}
    {direction : Int32} (h : readEntry index entry = .ok (field, direction)) :
    (Value.int32 direction).isUnit = true := by
  rw [readEntry.eq_def] at h
  split at h
  · split at h
    · split at h
      · cases h
      · split at h
        · cases h
          rfl
        · cases h
          split <;> rfl
        · cases h
    · cases h
  · cases h

/-- One more entry keeps a sort document ready. -/
theorem isNative_insert {document : Document} (field : String)
    {direction : Int32} (hall : ∀ field ∈ document, field.2.isUnit = true)
    (hdirection : (Value.int32 direction).isUnit = true) :
    isNative (Fields.insert document field (.int32 direction)) = true := by
  apply isNative_iff.mpr
  constructor
  · exact Fields.insert_ne_nil
  · intro field hmem
    cases Fields.mem_insert hmem with
    | inl hnew => exact hnew ▸ hdirection
    | inr hold => exact hall field hold

/-- So does a list of entries, and it makes an empty document ready unless it is
empty itself. -/
theorem isNative_addEntries {document sorted : Document} {index : ℕ}
    {entries : List Value} (h : addEntries document index entries = .ok sorted)
    (hall : ∀ field ∈ document, field.2.isUnit = true)
    (hnonempty : entries = [] → document ≠ []) : isNative sorted = true := by
  induction entries generalizing document index with
  | nil =>
      obtain rfl := Except.ok.inj h
      exact isNative_iff.mpr ⟨hnonempty rfl, hall⟩
  | cons entry entries ih =>
      rw [addEntries, bind_eq_ok_iff] at h
      obtain ⟨⟨field, direction⟩, hentry, hrest⟩ := h
      have hready := isNative_insert field hall (isUnit_of_readEntry hentry)
      obtain ⟨hsome, hunits⟩ := isNative_iff.mp hready
      exact ih hrest hunits fun _ => hsome

theorem isNative_of_ofArgs {args sorted : Document}
    (h : ofArgs args = .ok sorted) :
    isNative sorted = true := by
  rw [ofArgs] at h
  split at h
  · cases h
  · next entries hsome _ =>
      apply isNative_addEntries h nofun
      rintro rfl
      exact absurd rfl hsome
  · cases h
  · split at h
    · next hnative =>
        obtain rfl := Except.ok.inj h
        exact hnative
    · cases h

/-- A ready sort document is taken as it is. -/
theorem ofArgs_of_isNative {args : Document} (hnative : isNative args = true)
    (hlist : Fields.get? args "order" = none) : ofArgs args = .ok args := by
  rw [ofArgs, hlist]
  exact if_pos hnative

/-- None of its directions is a list of entries. -/
theorem ofArgs_of_isNative_of_get? {args : Document} {value : Value}
    (hnative : isNative args = true)
    (hvalue : Fields.get? args "order" = some value) :
    ofArgs args = .error .orderNotList := by
  obtain ⟨-, hunits⟩ := isNative_iff.mp hnative
  have hunit : value.isUnit = true := hunits _ (Fields.mem_of_get? hvalue)
  rw [ofArgs, hvalue]
  cases value with
  | array => cases hunit
  | _ => rfl

end Aggregation.Sort

namespace Aggregation

/-- What a sort comes to is a ready sort document.  As the arguments of a sort
it comes to itself, whatever is bound, unless it has a field named `order`.  If
it has, it is refused, for that field is no list of entries. -/
theorem plan_sort_sorted {args sorted : Document} {param : Option Param}
    (h : StageOperator.sort.plan args param = .ok (.operand (.document sorted)))
    (param' : Option Param) :
    Sort.isNative sorted = true ∧
    ("order" ∉ Fields.keys sorted →
      StageOperator.sort.plan sorted param' =
        .ok (.operand (.document sorted))) ∧
    ("order" ∈ Fields.keys sorted →
      StageOperator.sort.plan sorted param' =
        .error (.structural .orderNotList)) := by
  obtain ⟨document, hsorted, hplan⟩ := StageOperator.plan_sort_eq_ok_iff.mp h
  cases hplan
  have hnative := Sort.isNative_of_ofArgs hsorted
  refine ⟨hnative, fun hfree => ?_, fun htaken => ?_⟩
  · have hlist : Fields.get? sorted "order" = none :=
      Fields.get?_eq_none_iff.mpr hfree
    rw [StageOperator.plan_sort, Sort.ofArgs_of_isNative hnative hlist]
  · have hlist : Fields.get? sorted "order" ≠ none :=
      fun hnone => Fields.get?_eq_none_iff.mp hnone htaken
    obtain ⟨value, hvalue⟩ := Option.ne_none_iff_exists'.mp hlist
    rw [StageOperator.plan_sort, Sort.ofArgs_of_isNative_of_get? hnative hvalue]

/-- Entries that sort by age, downwards, and then by name. -/
def Sort.ageThenName : Document :=
  [("order", .array
    [.document [("field", .string "age"), ("verse", .string "desc")],
      .document [("field", .string "name")]])]

theorem plan_sort_ageThenName :
    StageOperator.sort.plan Sort.ageThenName none =
        .ok (.operand (.document [("age", .int32 (-1)), ("name", .int32 1)])) ∧
      StageOperator.sort.plan [("age", .int32 (-1)), ("name", .int32 1)] none =
        .ok
          (.operand
            (.document [("age", .int32 (-1)), ("name", .int32 1)])) := by
  have hplan : StageOperator.sort.plan Sort.ageThenName none =
      .ok
        (.operand (.document [("age", .int32 (-1)), ("name", .int32 1)])) := by
    rfl
  obtain ⟨-, hagain, -⟩ := plan_sort_sorted hplan none
  exact ⟨hplan, hagain (by decide)⟩

/-- An entry that sorts by a field with the name of the list itself. -/
def Sort.byOrder : Document :=
  [("order", .array [.document [("field", .string "order")]])]

/-- The document that sorts by such a field is refused as the arguments of a
sort. -/
theorem plan_sort_byOrder_refused :
    StageOperator.sort.plan Sort.byOrder none =
        .ok (.operand (.document [("order", .int32 1)])) ∧
      StageOperator.sort.plan [("order", .int32 1)] none =
        .error (.structural .orderNotList) :=
  ⟨rfl, rfl⟩

end Aggregation
