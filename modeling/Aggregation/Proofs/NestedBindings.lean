import Aggregation.Proofs.ByteOrder
import Aggregation.Proofs.Fields
import Aggregation.Proofs.Stage
import Mathlib.Data.List.Sort

/-!
# Nested bindings passed through

Entries are given for a mapping of bindings, and for the mappings in it, in any
order and with keys that repeat.  What is bound under a key is the last that is
given for it.  A mapping is passed through as a document that has the keys in
ascending order of their bytes, and the mappings in it as documents in turn.  A
filter anywhere in it stands in the way, unless a later entry has replaced it or
a mapping around it.
-/

namespace Aggregation

open CompileM

/-! ## Mappings from entries -/

namespace Param

/-- What holds of values and filters, and of a mapping when it holds of what is
in it, holds of every binding. -/
theorem induct {motive : Param → Prop} (value : ∀ bound, motive (.value bound))
    (filter : ∀ bound, motive (.filter bound))
    (params : ∀ entries, (∀ entry ∈ entries, motive entry.2) →
      motive (.params entries))
    (param : Param) : motive param :=
  @Param.rec motive (fun entries => ∀ entry ∈ entries, motive entry.2)
    (fun entry => motive entry.2) value filter params (List.forall_mem_nil _)
    (fun _ _ hentry hentries => List.forall_mem_cons.mpr ⟨hentry, hentries⟩)
    (fun _ _ hparam => hparam) param

mutual

/-- The binding with every mapping in it made from the entries that are given
for it. -/
def collected : Param → Param
  | .value bound => .value bound
  | .filter bound => .filter bound
  | .params entries => .params (Params.ofList (collectedEntries entries))

def collectedEntries : List (String × Param) → List (String × Param)
  | [] => []
  | (key, param) :: entries =>
    (key, collected param) :: collectedEntries entries

end

theorem collectedEntries_eq_map (entries : List (String × Param)) :
    collectedEntries entries = entries.map fun entry =>
      (entry.1, entry.2.collected) := by
  induction entries with
  | nil => rfl
  | cons entry entries ih => rw [collectedEntries, ih, List.map_cons]

theorem collectedEntries_eq {entries : List (String × Param)}
    (h : ∀ entry ∈ entries, entry.2.collected = entry.2) :
    collectedEntries entries = entries := by
  rw [collectedEntries_eq_map]
  refine (List.map_congr_left fun entry hmem => ?_).trans entries.map_id
  rw [h entry hmem]
  rfl

/-- Every mapping in the binding has its keys in ascending order. -/
inductive IsOrdered : Param → Prop
  | value (bound : Value) : IsOrdered (.value bound)
  | filter (bound : Option Filter) : IsOrdered (.filter bound)
  | params {entries : Params} (hascending : Fields.Ascending entries)
      (hentries : ∀ entry ∈ entries, IsOrdered entry.2) :
      IsOrdered (.params entries)

theorem IsOrdered.collected_eq {param : Param} (h : param.IsOrdered) :
    param.collected = param := by
  induction h with
  | value | filter => rfl
  | @params entries hascending _ ih =>
      rw [collected, collectedEntries_eq ih, Params.ofList,
        Fields.placeAll_of_perm hascending (.refl _)]

end Param

namespace Params

/-- The mapping of the entries, with the mappings in it made likewise. -/
def collect (entries : List (String × Param)) : Params :=
  ofList (Param.collectedEntries entries)

/-- Mappings that are made already are entered as they are. -/
theorem collect_eq_ofList {entries : List (String × Param)}
    (h : ∀ entry ∈ entries, entry.2.IsOrdered) :
    collect entries = ofList entries := by
  rw [collect, Param.collectedEntries_eq fun entry hmem =>
    (h entry hmem).collected_eq]

theorem ascending_collect (entries : List (String × Param)) :
    Fields.Ascending (collect entries) :=
  Fields.ascending_placeAll _

theorem get?_collect (entries : List (String × Param)) (key : String) :
    Fields.get? (collect entries) key =
      (Fields.last? entries key).map Param.collected := by
  rw [collect, ofList, Fields.get?_placeAll, Param.collectedEntries_eq_map]
  exact Fields.last?_map Param.collected entries key

theorem mem_keys_collect {entries : List (String × Param)} {key : String} :
    key ∈ Fields.keys (collect entries) ↔ key ∈ Fields.keys entries := by
  rw [← not_iff_not, ← Fields.get?_eq_none_iff, get?_collect,
    Option.map_eq_none_iff, Fields.last?_eq_none_iff]

end Params

/-! ## What is passed through -/

namespace Param

theorem toDocument?_eq_some_iff {entries : Params} {document : Document} :
    toDocument? entries = some document ↔
      List.Forall₂
        (fun entry field =>
          entry.1 = field.1 ∧ entry.2.toValue? = some field.2)
        entries document := by
  induction entries generalizing document with
  | nil => simp [toDocument?, eq_comm]
  | cons entry entries ih =>
      obtain ⟨key, param⟩ := entry
      simp only [toDocument?, Option.bind_eq_bind, Option.bind_eq_some_iff,
        List.forall₂_cons_left_iff, ih, Option.some.injEq]
      constructor
      · rintro ⟨value, hvalue, fields, hfields, rfl⟩
        exact ⟨(key, value), fields, ⟨rfl, hvalue⟩, hfields, rfl⟩
      · rintro ⟨⟨_, value⟩, fields, ⟨rfl, hvalue⟩, hfields, rfl⟩
        exact ⟨value, hvalue, fields, hfields, rfl⟩

/-- A filter, absent or not, stays bound in the binding: neither is it replaced
by a later entry nor is a mapping around it. -/
inductive HoldsFilter : Param → Prop
  | filter (bound : Option Filter) : HoldsFilter (.filter bound)
  | params {entries : List (String × Param)} {key : String} {param : Param}
      (hlast : Fields.last? entries key = some param) (h : HoldsFilter param) :
      HoldsFilter (.params entries)

/-- The value that is passed through for the binding: a value as it is, and a
mapping as the document that has its keys, each once and in ascending order of
their bytes, and under each what is passed through for the last entry. -/
inductive PassesAs : Param → Value → Prop
  | value (bound : Value) : PassesAs (.value bound) bound
  | params {entries : List (String × Param)} {document : Document}
      (hkeys : ∀ key, key ∈ Fields.keys document ↔ key ∈ Fields.keys entries)
      (hascending :
        (Fields.keys document).Pairwise fun key next =>
          Text.bytes key < Text.bytes next)
      (hvalues : ∀ key param value, Fields.last? entries key = some param →
        Fields.get? document key = some value → PassesAs param value) :
      PassesAs (.params entries) (.document document)

variable {param : Param} {value : Value}

theorem HoldsFilter.toValue?_collected (h : param.HoldsFilter) :
    param.collected.toValue? = none := by
  induction h with
  | filter => rfl
  | @params entries key param hlast _ ih =>
      have hbound : (key, param.collected) ∈ Params.collect entries := by
        apply Fields.mem_of_get?
        rw [Params.get?_collect, hlast, Option.map_some]
      rw [collected, toValue?, Option.map_eq_none_iff,
        Option.eq_none_iff_forall_ne_some]
      intro document hdocument
      obtain ⟨field, -, hfield⟩ :=
        Result.exists_forall₂_iff.mp ⟨document,
          toDocument?_eq_some_iff.mp hdocument⟩ _ hbound
      rw [ih] at hfield
      cases hfield

theorem PassesAs.toValue?_collected (h : param.PassesAs value) :
    param.collected.toValue? = some value := by
  induction h with
  | value => rfl
  | @params entries document hkeys hascending _ ih =>
      -- Two ascending lists of keys with the same members are the same list.
      have hsame :
          Fields.keys (Params.collect entries) = Fields.keys document := by
        refine (Params.ascending_collect entries).eq_of_mem_iff
          (hascending.imp Text.bytes_lt_bytes_iff.mp) fun key => ?_
        rw [Params.mem_keys_collect, hkeys]
      have hdocument :
          toDocument? (Params.collect entries) = some document := by
        refine toDocument?_eq_some_iff.mpr ((Fields.forall₂_iff_get?
          (fun param value => param.toValue? = some value)
          (Params.ascending_collect entries).nodup).mpr ⟨hsame, ?_⟩)
        intro key bound value hbound hvalue
        rw [Params.get?_collect, Option.map_eq_some_iff] at hbound
        obtain ⟨given, hlast, rfl⟩ := hbound
        exact ih key given value hlast hvalue
      rw [collected, toValue?]
      exact congrArg (Option.map Value.document) hdocument

theorem holdsFilter_or_passesAs (param : Param) :
    param.HoldsFilter ∨ ∃ value, param.PassesAs value := by
  induction param using induct with
  | value bound => exact .inr ⟨bound, .value bound⟩
  | filter bound => exact .inl (.filter bound)
  | params entries ih =>
      by_cases hfilter :
          ∃ key param, Fields.last? entries key = some param ∧ param.HoldsFilter
      · obtain ⟨key, param, hlast, hholds⟩ := hfilter
        exact .inl (.params hlast hholds)
      · -- The document is made from the entries as they are bound, one for each
        -- key.
        have hnodup := (Fields.ascending_placeAll entries).nodup
        have hpasses :
            ∀ entry ∈ Fields.placeAll entries, ∃ field : String × Value,
            entry.1 = field.1 ∧ entry.2.PassesAs field.2 := by
          rintro ⟨key, param⟩ hmem
          rw [← Fields.get?_eq_some_iff_mem hnodup, Fields.get?_placeAll]
            at hmem
          rcases ih _ (Fields.mem_of_last? hmem) with hholds | ⟨value, hvalue⟩
          · exact absurd ⟨key, param, hmem, hholds⟩ hfilter
          · exact ⟨(key, value), rfl, hvalue⟩
        obtain ⟨document, hdocument⟩ := Result.exists_forall₂_iff.mpr hpasses
        obtain ⟨hkeys, hvalues⟩ :=
          (Fields.forall₂_iff_get? PassesAs hnodup).mp hdocument
        refine .inr ⟨.document document, .params (fun key => ?_) ?_ ?_⟩
        · rw [← hkeys, Fields.mem_keys_placeAll]
        · rw [← hkeys]
          exact (Fields.ascending_placeAll entries).imp
            Text.bytes_lt_bytes_iff.mpr
        · simpa only [Fields.get?_placeAll] using hvalues

theorem toValue?_collected_eq_some_iff :
    param.collected.toValue? = some value ↔ param.PassesAs value := by
  refine ⟨fun h => ?_, PassesAs.toValue?_collected⟩
  rcases holdsFilter_or_passesAs param with hholds | ⟨other, hother⟩
  · rw [hholds.toValue?_collected] at h
    cases h
  · rw [hother.toValue?_collected] at h
    exact Option.some.inj h ▸ hother

theorem toValue?_collected_eq_none_iff :
    param.collected.toValue? = none ↔ param.HoldsFilter := by
  refine ⟨fun h => ?_, HoldsFilter.toValue?_collected⟩
  rcases holdsFilter_or_passesAs param with hholds | ⟨value, hvalue⟩
  · exact hholds
  · rw [hvalue.toValue?_collected] at h
    cases h

end Param

/-! ## Stages -/

/-- A stage passes through the value of what is bound for it, or fails. -/
theorem run_compileStage_passThrough {operator : StageOperator}
    (hoperator : operator = .skip ∨ operator = .limit) (stage : Stage)
    (htoken : stage.operator = operator.token) {params : Params} {param : Param}
    (hbound : params.bound? stage.key = some param) (embedding : Embedding)
    (frame : Frame) :
    (compileStage embedding params stage).run frame =
      match param.toValue? with
      | some value => (.ok [(operator.token, value)], frame)
      | none => (.error (.rejected
          ⟨.mismatch (.notPassable operator.token (some param.shape)), []⟩),
          frame) := by
  have hplan : operator.plan stage.args (some param) =
      operator.planPassThrough (some param) := by
    rcases hoperator with rfl | rfl <;> rfl
  rw [compileStage, planOf_of_token htoken, hbound, hplan,
    StageOperator.planPassThrough, Option.bind_some]
  cases param.toValue? <;> rfl

/-- A mapping made from entries, with mappings in it to any depth, has no
document exactly if a filter stays bound in it.  Otherwise its document has the
keys of the entries, each once and in ascending order of their bytes, and under
each what its last entry passes through as.  So a stage that passes through what
is bound for it fails for the mapping exactly if a filter stays bound in it, for
the type of the binding, and else consists of the document.  Mappings that are
made already are entered as they are. -/
theorem toDocument?_collect (entries : List (String × Param)) :
    ((∀ entry ∈ entries, entry.2.IsOrdered) →
      Params.collect entries = Params.ofList entries) ∧
    ((Params.collect entries).toDocument? = none ↔
      Param.HoldsFilter (.params entries)) ∧
    (∀ document, (Params.collect entries).toDocument? = some document ↔
      Param.PassesAs (.params entries) (.document document)) ∧
    ∀ (operator : StageOperator) (key : String) (args : Document)
    (params : Params)
      (embedding : Embedding) (frame : Frame),
      operator = .skip ∨ operator = .limit → key ≠ "" →
      params.get? key = some (.params (Params.collect entries)) →
      ((∃ cause, cause.code = .typeMismatch ∧
          (compileStage embedding params ⟨some key, operator.token, args⟩).run
            frame = (.error (.rejected ⟨cause, []⟩), frame)) ↔
        Param.HoldsFilter (.params entries)) ∧
      ∀ document,
        (compileStage embedding params ⟨some key, operator.token, args⟩).run
          frame = (.ok [(operator.token, .document document)], frame) ↔
        Param.PassesAs (.params entries) (.document document) := by
  have hvalue : (Param.collected (.params entries)).toValue? =
      (Params.collect entries).toDocument?.map .document := rfl
  have hnone : (Params.collect entries).toDocument? = none ↔
      Param.HoldsFilter (.params entries) := by
    rw [← Param.toValue?_collected_eq_none_iff, hvalue, Option.map_eq_none_iff]
  have hsome :
      ∀ document, (Params.collect entries).toDocument? = some document ↔
      Param.PassesAs (.params entries) (.document document) := by
    intro document
    rw [← Param.toValue?_collected_eq_some_iff, hvalue]
    simp
  refine ⟨Params.collect_eq_ofList, hnone, hsome,
    fun operator key args params embedding frame hoperator hkey hget => ?_⟩
  have hbound := Params.bound?_eq_some_iff.mpr ⟨key, rfl, hkey, hget⟩
  have hrun := run_compileStage_passThrough hoperator
    ⟨some key, operator.token, args⟩ rfl hbound embedding frame
  simp only [hrun, ← hnone, ← hsome, Params.toDocument?, Param.toValue?]
  cases Param.toDocument? (Params.collect entries) with
  | none =>
      exact ⟨iff_of_true ⟨_, rfl, rfl⟩ rfl, fun document =>
        iff_of_false nofun nofun⟩
  | some document =>
      refine ⟨iff_of_false ?_ nofun, fun other => ⟨?_, ?_⟩⟩
      · rintro ⟨cause, -, ⟨⟩⟩
      · rintro ⟨⟩
        rfl
      · rintro ⟨⟩
        rfl

/-- The start of a page, with its keys in order. -/
def startEntries : List (String × Param) :=
  [("day", .value (.int32 3)), ("year", .value (.int32 2024))]

/-- A page, given with filters: one of them is replaced, and so is a mapping
around another. -/
def pageEntries : List (String × Param) :=
  [("size", .params [("by", .filter none)]),
    ("from", .params (("year", .filter (some ⟨[]⟩)) :: startEntries)),
    ("size", .value (.int32 20))]

/-- The page is passed through as a document of its two keys, and with a filter
as its last entry it is not. -/
theorem toDocument?_collect_pageEntries :
    Params.collect [("from", .params startEntries)] =
      [("from", .params startEntries)] ∧
    (compileStage (fun _ _ => reject (.notFound ""))
        [("page", .params (Params.collect pageEntries))]
        ⟨some "page", "$skip", []⟩).run {} =
      (.ok
        [("$skip",
          .document
            [("from", .document [("day", .int32 3), ("year", .int32 2024)]),
              ("size", .int32 20)])], {}) ∧
    ∃ cause, cause.code = .typeMismatch ∧
      (compileStage (fun _ _ => reject (.notFound ""))
          [("page",
            .params (Params.collect (pageEntries ++ [("from", .filter none)])))]
          ⟨some "page", "$skip", []⟩).run {} =
        (.error (.rejected ⟨cause, []⟩), {}) := by
  obtain ⟨hmade, -⟩ := toDocument?_collect [("from", .params startEntries)]
  obtain ⟨-, -, hdocument, hstage⟩ := toDocument?_collect pageEntries
  obtain ⟨-, -, -, hstage'⟩ :=
    toDocument?_collect (pageEntries ++ [("from", .filter none)])
  refine ⟨hmade (List.forall_mem_singleton.mpr (.params ?_ ?_)), ?_, ?_⟩
  · show ["day", "year"].Pairwise (· < ·)
    decide
  · exact List.forall_mem_cons.mpr ⟨.value _,
      List.forall_mem_singleton.mpr (.value _)⟩
  · refine ((hstage .skip "page" [] _ _ {} (.inl rfl) (by decide) rfl).2 _).mpr
      ?_
    exact (hdocument _).mp (by rfl)
  · refine (hstage' .skip "page" [] _ _ {} (.inl rfl) (by decide) rfl).1.mpr ?_
    have hlast : Fields.last? (pageEntries ++ [("from", .filter none)]) "from" =
        some (.filter none) :=
      rfl
    exact .params hlast (.filter none)

end Aggregation
