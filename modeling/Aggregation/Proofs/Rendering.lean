import Aggregation.Proofs.StoredDefinition

/-!
# Rendered text, read back

A rendered pipeline is a fresh line and then a text that is read as one value
for each of its stages, in order; a rendered filter is read as its value.
Documents keep the order of their keys, at every depth.  Extended JSON writes
what JSON lacks as a record, so all that can go wrong is a double, a key that
stands twice in one document, or more levels than a reader admits.
-/

namespace Aggregation

/-! ## Values within a value -/

namespace Value

mutual

/-- Whether something is so of the value and of every value that stands in
it. -/
def Everywhere (p : Value → Prop) : Value → Prop
  | .array items => p (.array items) ∧ ItemsEverywhere p items
  | .document fields => p (.document fields) ∧ FieldsEverywhere p fields
  | .codeWithScope s scope =>
    p (.codeWithScope s scope) ∧ FieldsEverywhere p scope
  | value => p value

def ItemsEverywhere (p : Value → Prop) : List Value → Prop
  | [] => True
  | item :: items => item.Everywhere p ∧ ItemsEverywhere p items

def FieldsEverywhere (p : Value → Prop) : List (String × Value) → Prop
  | [] => True
  | (_, value) :: fields => value.Everywhere p ∧ FieldsEverywhere p fields

end

def IsNotDouble : Value → Prop
  | .double _ => False
  | _ => True

/-- A document, or the scope of code, has one field for each key. -/
def KeysDiffer : Value → Prop
  | .document fields => (Fields.keys fields).Nodup
  | .codeWithScope _ scope => (Fields.keys scope).Nodup
  | _ => True

end Value

/-! ## Records of extended JSON -/

namespace ExtendedJson

/-- A record with one reserved key is read back if what stands under it is. -/
@[simp]
theorem isExact_tagged {key : String} {body : Json} :
    (tagged key body).IsExact ↔ body.IsExact := by
  simp [tagged, Json.IsExact, Json.MembersExact, Fields.keys]

theorem isExact_ofInstant (form : Form) (millis : ℤ) :
    (ofInstant form millis).IsExact := by
  unfold ofInstant
  split
  · simp [Json.IsExact]
  · split <;> simp [Json.IsExact]

/-- Stored bytes are numbers below 256, so the list of them is read back. -/
theorem isExact_ofBinary (form : Form) (subtype : UInt8) (bytes : List UInt8) :
    (ofBinary form subtype bytes).IsExact := by
  have hbody : (ofBinary.body subtype bytes).IsExact := by
    simp [ofBinary.body, Json.IsExact, Json.MembersExact, Fields.keys]
  have hbytes : Json.ItemsExact (bytes.map fun b => Json.nat b.toNat) := by
    refine Json.itemsExact_iff.mpr (List.forall_mem_map.mpr fun b _ => ?_)
    have hbound := b.toNat_lt
    exact ⟨by omega, by omega⟩
  unfold ofBinary
  split
  · split
    · exact hbytes
    · exact hbody
  · exact hbody

theorem isExact_ofRegex (form : Form) (pattern options : String) :
    (ofRegex form pattern options).IsExact := by
  simp [ofRegex, Json.IsExact, Json.MembersExact, Fields.keys]

end ExtendedJson

/-! ## Values as JSON -/

open ExtendedJson

theorem keys_fieldsToJson (form : Form) (fields : Document) :
    Fields.keys (fieldsToJson form fields) = Fields.keys fields := by
  rw [fieldsToJson_eq_map, Fields.keys, List.map_map]
  rfl

mutual

/-- In either form, a value is written as JSON that is read back from its
text. -/
theorem Value.isExact_toJson (form : Form) : ∀ value : Value,
    value.Everywhere Value.IsNotDouble → value.Everywhere Value.KeysDiffer →
      (value.toJson form).IsExact
  | .null, _, _ | .bool _, _, _ | .string _, _, _ => trivial
  | .int32 n, _, _ => by
      have hlow := n.le_toInt
      have hhigh := n.toInt_lt
      exact ⟨by omega, by omega⟩
  | .int64 n, _, _ => by
      have hlow := n.le_toInt
      have hhigh := n.toInt_lt
      exact ⟨by omega, by omega⟩
  | .double _, hdouble, _ => hdouble.elim
  | .array items, ⟨_, hdouble⟩, ⟨_, hkeys⟩ =>
      itemsExact_itemsToJson form items hdouble hkeys
  | .document fields, ⟨_, hdouble⟩, ⟨hown, hkeys⟩ =>
      ⟨(keys_fieldsToJson form fields).symm ▸ hown,
        membersExact_fieldsToJson form fields hdouble hkeys⟩
  | .objectId _, _, _ | .symbol _, _, _ | .code _, _, _ | .undefined, _, _ =>
      isExact_tagged.mpr trivial
  | .minKey, _, _ | .maxKey, _, _ => isExact_tagged.mpr ⟨by decide, by decide⟩
  | .dateTime millis, _, _ => isExact_ofInstant form millis.toInt
  | .binary subtype bytes, _, _ => isExact_ofBinary form subtype bytes
  | .timestamp time increment, _, _ => by
      have htime := time.toNat_lt
      have hincrement := increment.toNat_lt
      refine isExact_tagged.mpr ⟨by simp [Fields.keys], ⟨?_, ?_⟩, ⟨?_, ?_⟩,
        trivial⟩ <;> omega
  | .regex pattern options, _, _ => isExact_ofRegex form pattern options
  | .codeWithScope _ scope, ⟨_, hdouble⟩, ⟨hown, hkeys⟩ =>
      ⟨by simp [Fields.keys], trivial,
        ⟨(keys_fieldsToJson .stored scope).symm ▸ hown,
          membersExact_fieldsToJson .stored scope hdouble hkeys⟩, trivial⟩

theorem itemsExact_itemsToJson (form : Form) : ∀ items : List Value,
    Value.ItemsEverywhere Value.IsNotDouble items →
      Value.ItemsEverywhere Value.KeysDiffer items →
        Json.ItemsExact (itemsToJson form items)
  | [], _, _ => trivial
  | item :: items, ⟨hdouble, hdoubles⟩, ⟨hkey, hkeys⟩ =>
      ⟨item.isExact_toJson form hdouble hkey,
        itemsExact_itemsToJson form items hdoubles hkeys⟩

theorem membersExact_fieldsToJson (form : Form) :
    ∀ fields : List (String × Value),
    Value.FieldsEverywhere Value.IsNotDouble fields →
      Value.FieldsEverywhere Value.KeysDiffer fields →
        Json.MembersExact (fieldsToJson form fields)
  | [], _, _ => trivial
  | (_, value) :: fields, ⟨hdouble, hdoubles⟩, ⟨hkey, hkeys⟩ =>
      ⟨value.isExact_toJson form hdouble hkey,
        membersExact_fieldsToJson form fields hdoubles hkeys⟩

end

/-! ## Pipelines and filters -/

/-- A pipeline is read back if each of its stages is. -/
theorem Pipeline.isExact_toJson {pipeline : Pipeline}
    (hdouble : ∀ stage ∈ pipeline,
      (Value.document stage).Everywhere Value.IsNotDouble)
    (hkeys : ∀ stage ∈ pipeline,
      (Value.document stage).Everywhere Value.KeysDiffer) :
    pipeline.toJson.IsExact :=
  Json.itemsExact_iff.mpr (List.forall_mem_map.mpr fun stage hmem =>
    Value.isExact_toJson .relaxed (.document stage) (hdouble stage hmem)
      (hkeys stage hmem))

theorem Pipeline.render_ne_empty (pipeline : Pipeline) :
    pipeline.render ≠ "" := by
  simp [render]

theorem Document.renderFilter_ne_empty (filter : Document) :
    filter.renderFilter ≠ "" := by
  simp [renderFilter, Json.compact, Json.compactChars]

/-- Whatever keys and texts stand in a pipeline or a filter without doubles,
what it is rendered as is read back, unless it has more levels than a reader
admits.  A pipeline follows a fresh line and has one value for each stage, in
order, and every document has its keys in order.  No rendering is empty, with
doubles or without. -/
theorem rendered_text_read_back :
    (∀ pipeline : Pipeline,
      (∀ stage ∈ pipeline,
        (Value.document stage).Everywhere Value.IsNotDouble) →
      (∀ stage ∈ pipeline, (Value.document stage).Everywhere Value.KeysDiffer) →
      (Json.object [("pipeline", pipeline.toJson)]).levels ≤ JsonText.maxDepth →
        ∃ text, pipeline.render = "\n" ++ text ∧
          Json.parse? text = some (.object [("pipeline", pipeline.toJson)])) ∧
      (∀ filter : Document,
        (Value.document filter).Everywhere Value.IsNotDouble →
        (Value.document filter).Everywhere Value.KeysDiffer →
        (Json.object [("filter", filter.toJson .relaxed)]).levels ≤
          JsonText.maxDepth →
          Json.parse? filter.renderFilter =
            some (.object [("filter", filter.toJson .relaxed)])) ∧
      (∀ pipeline : Pipeline,
        pipeline.toJson =
          .array (pipeline.map fun stage =>
            (Value.document stage).toJson .relaxed)) ∧
      (∀ (form : Form) (fields : Document),
        (Value.document fields).toJson form =
        .object (fields.map fun field => (field.1, field.2.toJson form))) ∧
      (∀ pipeline : Pipeline, pipeline.render ≠ "") ∧
      ∀ filter : Document, filter.renderFilter ≠ "" := by
  refine ⟨fun pipeline hdouble hkeys hdepth => ?_,
    fun filter hdouble hkeys hdepth => ?_, fun _ => rfl, Value.toJson_document,
    Pipeline.render_ne_empty, Document.renderFilter_ne_empty⟩
  · have hexact : (Json.object [("pipeline", pipeline.toJson)]).IsExact :=
      isExact_tagged.mpr (Pipeline.isExact_toJson hdouble hkeys)
    exact ⟨_, rfl, Json.parse?_pretty hexact hdepth⟩
  · have hexact : (Json.object [("filter", filter.toJson .relaxed)]).IsExact :=
      isExact_tagged.mpr
        (Value.isExact_toJson .relaxed (.document filter) hdouble hkeys)
    exact Json.parse?_compact hexact hdepth

/-- A key and texts that have to be escaped, a reserved key, and code with a
scope. -/
def Document.escaped : Document :=
  [("say \"hi\"\n", .symbol "a\tb"), ("$oid", .string "\\"),
    ("run",
      .codeWithScope "f(n)"
        [("n", .int64 (-7)), ("bytes", .binary 0 [0, 255])])]

def Json.escaped : Json :=
  .object
    [("say \"hi\"\n", .object [("$symbol", .string "a\tb")]),
      ("$oid", .string "\\"),
      ("run",
        .object
          [("$code", .string "f(n)"),
            ("$scope",
              .object
                [("n", .int (-7)), ("bytes", .array [.int 0, .int 255])])])]

def Pipeline.escaped : Pipeline :=
  [[("$match", .document Document.escaped)], [("$project", .document [])]]

theorem rendered_text_escaped :
    (∃ text, Pipeline.escaped.render = "\n" ++ text ∧
      Json.parse? text =
        some
          (.object
            [("pipeline",
              .array
                [.object [("$match", Json.escaped)],
                  .object [("$project", .object [])]])])) ∧
      Json.parse? Document.escaped.renderFilter =
        some (.object [("filter", Json.escaped)]) := by
  have hdouble :
      (Value.document Document.escaped).Everywhere Value.IsNotDouble := by
    simp [Document.escaped, Value.Everywhere, Value.FieldsEverywhere,
      Value.IsNotDouble]
  have hkeys :
      (Value.document Document.escaped).Everywhere Value.KeysDiffer := by
    simp [Document.escaped, Value.Everywhere, Value.FieldsEverywhere,
      Value.KeysDiffer, Fields.keys]
  obtain ⟨hpipeline, hfilter, -⟩ := rendered_text_read_back
  constructor
  · refine hpipeline Pipeline.escaped ?_ ?_ (by decide)
    · exact List.forall_mem_cons.mpr ⟨⟨trivial, hdouble, trivial⟩,
        List.forall_mem_singleton.mpr ⟨trivial, ⟨trivial, trivial⟩, trivial⟩⟩
    · exact List.forall_mem_cons.mpr ⟨⟨List.nodup_singleton _, hkeys, trivial⟩,
        List.forall_mem_singleton.mpr
          ⟨List.nodup_singleton _, ⟨List.nodup_nil, trivial⟩, trivial⟩⟩
  · exact hfilter Document.escaped hdouble hkeys (by decide)

end Aggregation
