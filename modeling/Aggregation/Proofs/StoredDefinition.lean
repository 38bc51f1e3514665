import Aggregation.Definition.Format
import Aggregation.Proofs.JsonText
import Aggregation.Proofs.Result
import Mathlib.Tactic.FinCases

/-!
# Definitions as files

A definition written as the compact text of its JSON is read back as it was: the
text gives back the tree, and the reader takes each member of the tree for the
field that it was written from.  A key or arguments that are left out come back
as none.

The arguments are where this can fail.  A file does not say how wide a whole
number is, and a record with a key of extended JSON stands for something else.
-/

namespace Aggregation

namespace ExtendedJson

/-- The keys under which extended JSON writes what is not a record. -/
def reservedKeys : List String :=
  ["$oid", "$symbol", "$numberInt", "$numberLong", "$numberDouble",
    "$numberDecimal", "$numberDecimalBytes", "$binary", "$code", "$scope",
    "$timestamp", "$regularExpression", "$dbPointer", "$date", "$minKey",
    "$maxKey", "$undefined"]

theorem inInt64_toInt (n : Int64) : inInt64 n.toInt = true := by
  have hlow := n.le_toInt
  have hhigh := n.toInt_lt
  simp only [inInt64, Bool.and_eq_true, decide_eq_true_eq]
  omega

end ExtendedJson

/-- Values that a file gives back as they are: whole numbers have the width that
their size tells, and no record has a reserved key. -/
inductive Value.IsStorable : Value → Prop
  | null : IsStorable .null
  | bool (b : Bool) : IsStorable (.bool b)
  | string (s : String) : IsStorable (.string s)
  | int32 {n : Int32} (hsign : 0 ≤ n.toInt) : IsStorable (.int32 n)
  | int64 {n : Int64} (hsize : n.toInt < 0 ∨ 0x7FFFFFFF < n.toInt) :
      IsStorable (.int64 n)
  | array {items : List Value} (hitems : ∀ item ∈ items, IsStorable item) :
      IsStorable (.array items)
  | document {fields : Document} (hkeys : (Fields.keys fields).Nodup)
      (hplain : ∀ key ∈ Fields.keys fields, key ∉ ExtendedJson.reservedKeys)
      (hvalues : ∀ field ∈ fields, IsStorable field.2) :
      IsStorable (.document fields)

/-! ## The data of a text -/

theorem itemsToJson_eq_map (form : ExtendedJson.Form) (items : List Value) :
    itemsToJson form items = items.map (Value.toJson form) := by
  induction items with
  | nil => rfl
  | cons item items ih => rw [itemsToJson, ih, List.map_cons]

theorem Value.toJson_array (form : ExtendedJson.Form) (items : List Value) :
    Value.toJson form (.array items) =
      .array (items.map (Value.toJson form)) := by
  rw [Value.toJson, itemsToJson_eq_map]

theorem fieldsToJson_eq_map (form : ExtendedJson.Form) (fields : Document) :
    fieldsToJson form fields = fields.map fun field =>
      (field.1, field.2.toJson form) := by
  induction fields with
  | nil => rfl
  | cons field fields ih => rw [fieldsToJson, ih, List.map_cons]

theorem Value.toJson_document (form : ExtendedJson.Form) (fields : Document) :
    Value.toJson form (.document fields) =
      .object (fields.map fun field => (field.1, field.2.toJson form)) := by
  rw [Value.toJson, fieldsToJson_eq_map]

namespace Stage

/-- The members that a stage is written with; a key and arguments are left out
where there are none. -/
def members (stage : Stage) : List (String × Json) :=
  (stage.key.map fun key => ("key", Json.string key)).toList ++
    ("operator", .string stage.operator) ::
      if stage.args.isEmpty then [] else [("args", stage.args.toJson .stored)]

theorem toJson_eq (stage : Stage) : stage.toJson = .object stage.members := by
  rw [toJson, members]
  cases stage.key <;> rfl

theorem keys_members_sublist (stage : Stage) :
    (Fields.keys stage.members).Sublist ["key", "operator", "args"] := by
  rw [members]
  cases stage.key <;> split <;> simp [Fields.keys]

theorem nodup_keys_members (stage : Stage) :
    (Fields.keys stage.members).Nodup :=
  stage.keys_members_sublist.nodup (by decide)

end Stage

namespace Datum

/-- What a reader finds in the text of a value. -/
def ofJson (json : Json) : Datum :=
  ofJsonText (JsonText.ofJson json)

def key (name : String) : Datum :=
  .scalar { text := some name, value := some (.string name) }

theorem ofJson_array (items : List Json) :
    ofJson (.array items) = .list false (items.map ofJson) := by
  have hitems :
      itemsOfJsonText (JsonText.ofItems items) = items.map ofJson := by
    induction items with
    | nil => rfl
    | cons item items ih =>
        rw [JsonText.ofItems, itemsOfJsonText, ih, List.map_cons, ofJson]
  rw [ofJson, JsonText.ofJson, ofJsonText, hitems]

theorem ofJson_object (members : List (String × Json)) :
    ofJson (.object members) =
      .record false
        (members.map fun member => (key member.1, ofJson member.2)) := by
  have hentries : entriesOfJsonText (JsonText.ofMembers members) =
      members.map fun member => (key member.1, ofJson member.2) := by
    induction members with
    | nil => rfl
    | cons member members ih =>
        rw [JsonText.ofMembers, entriesOfJsonText, ih, List.map_cons, ofJson]
        rfl
  rw [ofJson, JsonText.ofJson, ofJsonText, hentries]

end Datum

namespace SourceReader

variable (source : Source)

/-! ## Values -/

theorem integer?_int32 {n : Int32} (h : 0 ≤ n.toInt) :
    integer? n.toInt = some (.int32 n) := by
  have hsize : ExtendedJson.inInt32 n.toInt = true := by
    have := n.toInt_lt
    simp only [ExtendedJson.inInt32, Bool.and_eq_true, decide_eq_true_eq]
    omega
  rw [integer?, if_pos ⟨h, hsize⟩, Int32.ofInt_toInt]

theorem integer?_int64 {n : Int64} (h : n.toInt < 0 ∨ 0x7FFFFFFF < n.toInt) :
    integer? n.toInt = some (.int64 n) := by
  have hwide : ¬ (0 ≤ n.toInt ∧ ExtendedJson.inInt32 n.toInt = true) := by
    simp only [ExtendedJson.inInt32, Bool.and_eq_true, decide_eq_true_eq]
    omega
  rw [integer?, if_neg hwide, if_pos (ExtendedJson.inInt64_toInt n),
    Int64.ofInt_toInt]

/-- Every other key is that of a field. -/
theorem mem_reservedKeys_iff (depth : ℕ) {key : String} :
    key ∈ ExtendedJson.reservedKeys ↔
      key = "$code" ∨ key = "$scope" ∨
        (payload? source depth key).isSome = true := by
  constructor
  · intro hmem
    fin_cases hmem <;> first
      | exact .inl rfl
      | exact .inr (.inl rfl)
      | exact .inr (.inr rfl)
  · rintro (rfl | rfl | hread)
    · decide
    · decide
    · unfold payload? at hread
      split at hread
      case h_16 => cases hread
      all_goals decide

theorem value_scalar (depth : ℕ) (scalar : Scalar) :
    value source depth (.scalar scalar) = ofOption scalar.value := by
  cases depth with
  | zero => rfl
  | succ depth =>
      rw [value]
      rfl

theorem value_int (depth : ℕ) {n : ℤ} (hlow : -0x8000000000000000 ≤ n)
    (hhigh : n < 0x10000000000000000) :
    value source depth (Datum.ofJson (.int n)) = ofOption (integer? n) := by
  have hscalar : Scalar.ofJsonText? (JsonText.ofJson (.int n)) = some
      { value := integer? n,
        natural := if 0 ≤ n then some n.toNat else none } := by
    simp only [JsonText.ofJson, Scalar.ofJsonText?,
      JsonText.value?_numeral hlow hhigh]
  calc value source depth (Datum.ofJson (.int n))
      = value source depth
          (.scalar
            ((Scalar.ofJsonText? (JsonText.ofJson (.int n))).getD {})) := rfl
    _ = ofOption (integer? n) := by rw [hscalar, value_scalar, Option.getD_some]

/-- Entries without reserved keys are taken up in their order. -/
theorem fields_of_plain (depth : ℕ) (read : Datum → SourceReader Value)
    (scope : Datum → SourceReader Document) (before : Document)
    {after : Document} (hkeys : (Fields.keys (before ++ after)).Nodup)
    (hplain : ∀ key ∈ Fields.keys after, key ∉ ExtendedJson.reservedKeys)
    (hread : ∀ field ∈ after,
      read (Datum.ofJson (field.2.toJson .stored)) = pure field.2) :
    fields source depth read scope before (after.map fun field =>
        (Datum.key field.1, Datum.ofJson (field.2.toJson .stored))) =
      pure (.document (before ++ after)) := by
  -- A key that is not there yet goes last, so what has been taken up grows at
  -- its end.
  induction after generalizing before with
  | nil => simp [fields]
  | cons field after ih =>
      obtain ⟨key, held⟩ := field
      rw [List.forall_mem_cons] at hread
      have hfree : key ∉ ExtendedJson.reservedKeys :=
        hplain key List.mem_cons_self
      have hfresh : key ∉ Fields.keys before := by
        rw [Fields.keys, List.map_append, List.map_cons] at hkeys
        exact fun hmem =>
          List.disjoint_of_nodup_append hkeys hmem List.mem_cons_self
      rw [mem_reservedKeys_iff source depth, not_or, not_or,
        Option.not_isSome_iff_eq_none] at hfree
      obtain ⟨hcode, hscope, hpayload⟩ := hfree
      have hrest := ih (before ++ [(key, held)]) (by simpa using hkeys)
        (fun other hmem => hplain other (List.mem_cons_of_mem _ hmem)) hread.2
      rw [List.append_assoc, List.singleton_append] at hrest
      have hkey : text source (Datum.key key) = pure key := rfl
      rw [List.map_cons, fields, hkey, pure_bind, if_neg hcode, if_neg hscope,
        hpayload, hread.1, pure_bind, Fields.insert_of_not_mem hfresh, hrest]

/-- A storable value is read back from its text. -/
theorem value_stored {held : Value} (h : held.IsStorable) :
    ∀ depth, (held.toJson .stored).levels ≤ depth →
      value source depth (Datum.ofJson (held.toJson .stored)) = pure held := by
  induction h with
  | null | bool b | string s =>
      intro depth _
      exact value_scalar source depth _
  | @int32 n hsign =>
      intro depth _
      have hlow := n.le_toInt
      have hhigh := n.toInt_lt
      rw [Value.toJson, value_int source depth (by omega) (by omega),
        integer?_int32 hsign]
      rfl
  | @int64 n hsize =>
      intro depth _
      have hlow := n.le_toInt
      have hhigh := n.toInt_lt
      rw [Value.toJson, value_int source depth (by omega) (by omega),
        integer?_int64 hsize]
      rfl
  | @array items _ ih =>
      intro depth hdepth
      rw [Value.toJson_array, Json.levels] at hdepth
      obtain ⟨inner, rfl⟩ : ∃ inner, depth = inner + 1 := ⟨depth - 1, by omega⟩
      have hlevels : ∀ item ∈ items, (item.toJson .stored).levels ≤ inner :=
        fun item hmem =>
        Json.itemsLevels_le_iff.mp (Nat.le_of_succ_le_succ hdepth) _
          (List.mem_map_of_mem hmem)
      have hitems :
          (items.map fun item => Datum.ofJson (item.toJson .stored)).mapM
          (value source inner) = pure items :=
        Result.mapM_map_eq_pure fun item hmem =>
          ih item hmem inner (hlevels item hmem)
      rw [Value.toJson_array, Datum.ofJson_array, List.map_map, value]
      simp only [resolve, pure_bind]
      exact (congrArg (Value.array <$> ·) hitems).trans (map_pure _ _)
  | @document held hkeys hplain _ ih =>
      intro depth hdepth
      rw [Value.toJson_document, Json.levels] at hdepth
      obtain ⟨inner, rfl⟩ : ∃ inner, depth = inner + 1 := ⟨depth - 1, by omega⟩
      have hlevels : ∀ field ∈ held, (field.2.toJson .stored).levels ≤ inner :=
        fun field hmem =>
        Json.membersLevels_le_iff.mp (Nat.le_of_succ_le_succ hdepth) _
          (List.mem_map_of_mem hmem)
      rw [Value.toJson_document, Datum.ofJson_object, List.map_map, value]
      simp only [resolve, pure_bind]
      exact fields_of_plain source inner _ _ [] hkeys hplain fun field hmem =>
        ih field hmem inner (hlevels field hmem)

/-- A record where only a record may stand. -/
theorem document_stored {held : Document}
    (h : Value.IsStorable (.document held)) {depth : ℕ}
    (hdepth : (held.toJson .stored).levels ≤ depth) :
    document source depth (Datum.ofJson (held.toJson .stored)) = pure held := by
  have hvalue := value_stored source h depth hdepth
  rw [Document.toJson, Json.levels] at hdepth
  obtain ⟨inner, rfl⟩ : ∃ inner, depth = inner + 1 := ⟨depth - 1, by omega⟩
  rw [Value.toJson, Datum.ofJson_object, value] at hvalue
  rw [Document.toJson, Datum.ofJson_object, document]
  simp only [resolve, pure_bind] at hvalue ⊢
  rw [hvalue, pure_bind]

/-! ## Stages and definitions -/

/-- Members with different known keys go to their slots in order. -/
theorem fillSlots_known (names : List String) (other : SourceReader Unit)
    (before : List (String × Datum)) (members : List (String × Json))
    (hkeys : (Fields.keys before ++ Fields.keys members).Nodup)
    (hknown : ∀ key ∈ Fields.keys members, key ∈ names) :
    fillSlots source names other before
        (members.map fun member =>
          (Datum.key member.1, Datum.ofJson member.2)) =
      pure (before ++ members.map fun member =>
        (member.1, Datum.ofJson member.2)) := by
  induction members generalizing before with
  | nil => simp [fillSlots]
  | cons member members ih =>
      obtain ⟨key, held⟩ := member
      have hknown' := List.forall_mem_cons.mp hknown
      have hfresh : Fields.contains before key = false := by
        have habsent : key ∉ Fields.keys before := fun hmem =>
          List.disjoint_of_nodup_append hkeys hmem List.mem_cons_self
        rw [Fields.contains, Fields.get?_eq_none_iff.mpr habsent,
          Option.isSome_none]
      have hkey : text source (Datum.key key) = pure key := rfl
      have hrest := ih (before ++ [(key, Datum.ofJson held)])
        (by simpa [Fields.keys] using hkeys) hknown'.2
      rw [List.append_assoc, List.singleton_append] at hrest
      rw [List.map_cons, fillSlots, hkey, pure_bind, if_pos hknown'.1,
        hfresh, hrest]
      rfl

/-- Known members are all sorted into their slots. -/
theorem slots_known (names : List String) (other : SourceReader Unit)
    (members : List (String × Json)) (hkeys : (Fields.keys members).Nodup)
    (hknown : ∀ key ∈ Fields.keys members, key ∈ names) :
    slots source names other (Datum.ofJson (.object members)) =
      pure (members.map fun member => (member.1, Datum.ofJson member.2)) := by
  rw [Datum.ofJson_object, slots]
  simp only [resolve, pure_bind]
  exact fillSlots_known source names other [] members hkeys hknown

theorem text_string (s : String) :
    text source (Datum.ofJson (.string s)) = pure s := rfl

theorem optionalText_string (s : String) :
    ask source Scalar.optionalText (Datum.ofJson (.string s)) = pure (some s) :=
  rfl

/-- A stage is read back from its record. -/
theorem stage_stored (stage : Stage)
    (h : Value.IsStorable (.document stage.args))
    (hdepth : stage.toJson.levels ≤ argsDepth source + 1) :
    SourceReader.stage source (Datum.ofJson stage.toJson) = pure stage := by
  have hslots :=
    slots_known source ["key", "operator", "args"] (pure ()) stage.members
      stage.nodup_keys_members
      fun key hmem => stage.keys_members_sublist.subset hmem
  have hargs : stage.args ≠ [] → document source (argsDepth source)
      (Datum.ofJson (stage.args.toJson .stored)) = pure stage.args := by
    intro hgiven
    refine document_stored source h ?_
    rw [stage.toJson_eq, Json.levels, Nat.add_le_add_iff_right] at hdepth
    exact Json.membersLevels_le_iff.mp hdepth
      ("args", stage.args.toJson .stored)
      (by simp [Stage.members, hgiven])
  rw [SourceReader.stage, stage.toJson_eq, hslots, pure_bind]
  obtain ⟨key, operator, args⟩ := stage
  cases key <;> by_cases hgiven : args = [] <;>
    simp_all [Stage.members, slot, slotOr, Fields.get?, ofOption, text_string,
      optionalText_string]

/-- A definition is read back from its record. -/
theorem definition_stored (definition : Definition)
    (hargs : ∀ stage ∈ definition.stages,
      Value.IsStorable (.document stage.args))
    (hdepth : definition.toJson.levels ≤ source.depth) :
    SourceReader.definition source (Datum.ofJson definition.toJson) =
      pure definition := by
  have hlevels : ∀ stage ∈ definition.stages,
      stage.toJson.levels ≤ argsDepth source + 1 := by
    intro stage hmem
    have hstages : Json.itemsLevels (definition.stages.map Stage.toJson) + 2 ≤
        source.depth := by
      simp only [Definition.toJson, Json.levels, Json.membersLevels] at hdepth
      omega
    have hstage : stage.toJson.levels ≤
        Json.itemsLevels (definition.stages.map Stage.toJson) :=
      Json.itemsLevels_le_iff.mp (Nat.le_refl _) _ (List.mem_map_of_mem hmem)
    rw [stage.toJson_eq, Json.levels] at hstage ⊢
    rw [argsDepth]
    omega
  have hstages : stages source
      (Datum.ofJson (.array (definition.stages.map Stage.toJson))) =
      pure definition.stages := by
    rw [Datum.ofJson_array, List.map_map, stages]
    simp only [resolve, pure_bind]
    exact Result.mapM_map_eq_pure fun stage hmem =>
      stage_stored source stage (hargs stage hmem) (hlevels stage hmem)
  have hslots := slots_known source ["name", "collection", "stages"] (pure ())
    [("name", .string definition.name),
      ("collection", .string definition.collection),
      ("stages", .array (definition.stages.map Stage.toJson))]
    (by simp [Fields.keys]) (by simp [Fields.keys])
  rw [SourceReader.definition, Definition.toJson, hslots]
  simp [slot, slotOr, Fields.get?, ofOption, text_string, hstages]

end SourceReader

/-! ## Texts -/

theorem Value.IsStorable.isExact_toJson {held : Value} (h : held.IsStorable) :
    (held.toJson .stored).IsExact := by
  induction h with
  | null | bool b | string s => exact trivial
  | @int32 n _ =>
      have hlow := n.le_toInt
      have hhigh := n.toInt_lt
      exact ⟨by omega, by omega⟩
  | @int64 n _ =>
      have hlow := n.le_toInt
      have hhigh := n.toInt_lt
      exact ⟨by omega, by omega⟩
  | array _ ih =>
      rw [Value.toJson_array, Json.IsExact, Json.itemsExact_iff]
      exact List.forall_mem_map.mpr ih
  | document hkeys _ _ ih =>
      rw [Value.toJson_document, Json.IsExact, Json.membersExact_iff,
        Fields.keys, List.map_map]
      exact ⟨hkeys, List.forall_mem_map.mpr ih⟩

theorem Stage.isExact_toJson {stage : Stage}
    (h : Value.IsStorable (.document stage.args)) :
    stage.toJson.IsExact := by
  have hargs : (stage.args.toJson .stored).IsExact := h.isExact_toJson
  have hmembers : Json.MembersExact stage.members := by
    rw [Stage.members]
    cases stage.key <;> split <;> simp [Json.MembersExact, Json.IsExact, hargs]
  rw [stage.toJson_eq]
  exact ⟨stage.nodup_keys_members, hmembers⟩

namespace Definition

theorem isExact_toJson {definition : Definition}
    (hargs : ∀ stage ∈ definition.stages,
      Value.IsStorable (.document stage.args)) :
    definition.toJson.IsExact := by
  have hstages : Json.ItemsExact (definition.stages.map Stage.toJson) :=
    Json.itemsExact_iff.mpr (List.forall_mem_map.mpr fun stage hmem =>
      Stage.isExact_toJson (hargs stage hmem))
  exact ⟨by simp [Fields.keys], trivial, trivial, hstages, trivial⟩

/-- A definition is read back from the compact text of its JSON. -/
theorem parse?_compact_toJson (definition : Definition)
    (hargs : ∀ stage ∈ definition.stages,
      Value.IsStorable (.document stage.args))
    (hdepth : definition.toJson.levels ≤ JsonText.maxDepth) :
    parse? .json definition.toJson.compact = some definition := by
  have htext := JsonText.parse?_compact (isExact_toJson hargs)
  let source : Source :=
    { root := Datum.ofJson definition.toJson, depth := JsonText.maxDepth,
      positional := true }
  have hread := SourceReader.definition_stored source definition hargs hdepth
  simp only [parse?, parseJson?, htext, Option.bind_eq_bind,
    Option.bind_some, ofSource?]
  exact congrArg (fun reader => (reader.run source.jumps).map Prod.fst) hread

theorem parse?_compact_toJson_of_nested :
    parse? .json
        (toJson
          ⟨"daily \"late\"\n", "orders",
            [⟨none, "$match", []⟩,
              ⟨some "", "$custom",
                [("z", .array [.int32 7, .int64 (-7), .array []]),
                  ("a",
                    .document
                      [("", .null), ("$set", .int64 2147483648)])]⟩]⟩).compact =
      some
        ⟨"daily \"late\"\n", "orders",
          [⟨none, "$match", []⟩,
            ⟨some "", "$custom",
              [("z", .array [.int32 7, .int64 (-7), .array []]),
                ("a",
                  .document
                    [("", .null), ("$set", .int64 2147483648)])]⟩]⟩ := by
  have hlist : Value.IsStorable (.array [.int32 7, .int64 (-7), .array []]) :=
    .array (List.forall_mem_cons.mpr
      ⟨.int32 (by decide),
        List.forall_mem_cons.mpr
          ⟨.int64 (by decide), List.forall_mem_singleton.mpr (.array nofun)⟩⟩)
  have hrecord :
      Value.IsStorable (.document [("", .null), ("$set", .int64 2147483648)]) :=
    .document (by decide) (by decide) (List.forall_mem_cons.mpr
      ⟨.null, List.forall_mem_singleton.mpr (.int64 (by decide))⟩)
  refine parse?_compact_toJson _
    (List.forall_mem_cons.mpr ⟨?_, List.forall_mem_singleton.mpr ?_⟩) ?_
  · exact .document List.nodup_nil nofun nofun
  · exact .document (by decide) (by decide)
      (List.forall_mem_cons.mpr ⟨hlist, List.forall_mem_singleton.mpr hrecord⟩)
  · decide

end Definition

end Aggregation
