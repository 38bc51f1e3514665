import Aggregation.Params.Json
import Aggregation.Proofs.StoredDefinition
import Mathlib.Data.List.Perm.Basic

/-!
# Bindings read back from JSON

Bindings can be written as JSON: a mapping as an object, a filter as an object
with the single key `$filter` that holds one object for each term, and a value
as itself.  What is read from there are the same bindings, whatever the order of
the members in the objects.  A mapping keeps its keys in ascending order however
they come, and the members of a term are taken up by name.

Objects are given two meanings, so a nested mapping must not look like a filter.
That is the only condition on keys.
-/

namespace Aggregation

/-! ## Bindings written as JSON -/

/-- Values that JSON writes as they are. -/
inductive Value.IsPlain : Value → Prop
  | null : IsPlain .null
  | bool (b : Bool) : IsPlain (.bool b)
  | string (s : String) : IsPlain (.string s)
  | int64 (n : Int64) : IsPlain (.int64 n)
  | double {d : Double} (hfinite : d.isFinite) : IsPlain (.double d)
  | array {items : List Value} (hitems : ∀ item ∈ items, IsPlain item) :
      IsPlain (.array items)

namespace FilterTerm

def members (term : FilterTerm) : List (String × Json) :=
  [("field", term.field.elim .null .string),
    ("operator", term.operator.elim .null .string),
    ("value", term.value.toJson .stored), ("omitempty", .bool term.omitEmpty)]

def toJson (term : FilterTerm) : Json := .object term.members

end FilterTerm

/-- A list of terms under `$filter`. -/
def Filter.toJson (filter : Filter) : Json :=
  .object [("$filter", .array (filter.terms.map FilterTerm.toJson))]

mutual

/-- An absent filter has no terms to write, and no binding is read from what
stands for it. -/
def Param.toJson : Param → Json
  | .value bound => bound.toJson .stored
  | .filter (some bound) => bound.toJson
  | .filter none => .object [("$filter", .null)]
  | .params entries => .object (Param.entriesToJson entries)

def Param.entriesToJson : List (String × Param) → List (String × Json)
  | [] => []
  | (key, param) :: entries =>
    (key, param.toJson) :: Param.entriesToJson entries

end

def Params.toJson (params : Params) : Json :=
  .object (Param.entriesToJson params)

/-- Bindings that are read back from JSON.  A nested mapping with `$filter` as
its only key would be read as a filter. -/
inductive Param.IsPlain : Param → Prop
  | value {bound : Value} (h : bound.IsPlain) : IsPlain (.value bound)
  | filter {bound : Filter}
      (hterms : ∀ term ∈ bound.terms, term.value.IsPlain) :
      IsPlain (.filter (some bound))
  | params {entries : Params} (hascending : Fields.Ascending entries)
      (hkeys : Fields.keys entries ≠ ["$filter"])
      (hentries : ∀ entry ∈ entries, IsPlain entry.2) :
      IsPlain (.params entries)

/-- The mapping at the top is never taken for a filter. -/
structure Params.IsPlain (params : Params) : Prop where
  ascending : Fields.Ascending params
  entries : ∀ entry ∈ params, entry.2.IsPlain

/-! ## Orders of members -/

/-- The second value is the first with the members of its objects in any
order. -/
inductive Json.Reordered : Json → Json → Prop
  | null : Reordered .null .null
  | bool (b : Bool) : Reordered (.bool b) (.bool b)
  | int (n : ℤ) : Reordered (.int n) (.int n)
  | double (d : Double) : Reordered (.double d) (.double d)
  | string (s : String) : Reordered (.string s) (.string s)
  | array {items items' : List Json}
      (hitems : List.Forall₂ Reordered items items') :
      Reordered (.array items) (.array items')
  | object {members others : List (String × Json)} {values : List Json}
      (hvalues : List.Forall₂ Reordered (members.map Prod.snd) values)
      (horder : others.Perm ((Fields.keys members).zip values)) :
      Reordered (.object members) (.object others)

namespace Json.Reordered

mutual

theorem refl : ∀ json : Json, json.Reordered json
  | .null => .null
  | .bool b => .bool b
  | .int n => .int n
  | .double d => .double d
  | .string s => .string s
  | .array items => .array (refl_items items)
  | .object members =>
      .object (refl_values members) (.of_eq (List.zip_of_prod rfl rfl))

theorem refl_items : ∀ items : List Json, List.Forall₂ Reordered items items
  | [] => .nil
  | item :: items => .cons (refl item) (refl_items items)

theorem refl_values : ∀ members : List (String × Json),
    List.Forall₂ Reordered (members.map Prod.snd) (members.map Prod.snd)
  | [] => .nil
  | (_, value) :: members => .cons (refl value) (refl_values members)

end

/-- Items that are reorderings of nothing but themselves stay as they are. -/
theorem eq_of_forall₂ {items items' : List Json}
    (h : ∀ item ∈ items, ∀ json, item.Reordered json → json = item)
    (hitems : List.Forall₂ Reordered items items') : items' = items := by
  have hsame : List.Forall₂ (fun json item => json = item) items' items :=
    (((List.forall₂_and_left items items').mpr ⟨h, hitems⟩).imp
      fun _ json hitem => hitem.1 json hitem.2).flip
  rwa [List.forall₂_eq_eq_eq] at hsame

end Json.Reordered

/-! ## Plain values -/

theorem itemsToValues?_eq_mapM (items : List Json) :
    Json.itemsToValues? items = items.mapM Json.toValue? := by
  induction items with
  | nil => rfl
  | cons item items ih =>
      rw [Json.itemsToValues?, ih, List.mapM_cons]
      rfl

namespace Value.IsPlain

variable {bound : Value}

theorem toJson_double {d : Double} (h : d.isFinite) :
    Value.toJson .stored (.double d) = .double d := by
  rw [Value.toJson, ExtendedJson.ofDouble, if_pos h]

/-- A plain value holds no objects, so there is nothing to put in another
order. -/
theorem eq_of_reordered (h : bound.IsPlain) :
    ∀ json, (bound.toJson .stored).Reordered json →
      json = bound.toJson .stored := by
  induction h with
  | null | bool b | string s | int64 n =>
      rintro _ ⟨⟩
      rfl
  | double hfinite =>
      rw [toJson_double hfinite]
      rintro _ ⟨⟩
      rfl
  | @array items _ ih =>
      rw [Value.toJson_array]
      rintro _ (_ | _ | _ | _ | _ | hitems)
      rw [Json.Reordered.eq_of_forall₂ (List.forall_mem_map.mpr ih) hitems]

theorem toValue?_toJson (h : bound.IsPlain) :
    (bound.toJson .stored).toValue? = some bound := by
  induction h with
  | null | bool b | string s => rfl
  | int64 n =>
      rw [Value.toJson, Json.toValue?, if_pos (ExtendedJson.inInt64_toInt n),
        Int64.ofInt_toInt]
  | double hfinite => rw [toJson_double hfinite, Json.toValue?]
  | @array items _ ih =>
      have hitems : Json.itemsToValues? (items.map (Value.toJson .stored)) =
          some items := by
        rw [itemsToValues?_eq_mapM]
        exact Result.mapM_map_eq_pure ih
      rw [Value.toJson_array, Json.toValue?, hitems, Option.map_some]

theorem toJson_ne_object (h : bound.IsPlain) (members : List (String × Json)) :
    bound.toJson .stored ≠ .object members := by
  cases h with
  | null | bool b | string s | int64 n | array hitems => exact Json.noConfusion
  | double hfinite =>
      rw [toJson_double hfinite]
      exact Json.noConfusion

/-- A plain value is read as itself. -/
theorem ofJson_eq_value (h : bound.IsPlain) :
    Param.ofJson (bound.toJson .stored) = .ok (.value bound) := by
  rw [Param.ofJson]
  · rw [h.toValue?_toJson]
  · exact fun terms => h.toJson_ne_object [("$filter", terms)]
  · exact h.toJson_ne_object

end Value.IsPlain

/-! ## Filters -/

namespace TermJson

/-- Members with different keys may be taken up in any order. -/
theorem withMember_comm {key other : String} (h : key ≠ other) (term : TermJson)
    (member member' : Json) :
    (term.withMember key member).bind (·.withMember other member') =
      (term.withMember other member').bind (·.withMember key member) := by
  -- Two different keys set two different parts of the term, or one of them is
  -- refused.
  simp only [withMember]
  split <;> split <;> first
    | exact absurd rfl h
    | cases member.asOptionalString? <;> cases member'.asOptionalString? <;>
        cases member.asBool? <;> cases member'.asBool? <;> rfl

theorem foldlM_withMember_perm {members others : List (String × Json)}
    (hperm : others.Perm members) (hkeys : (Fields.keys others).Nodup)
    (term : TermJson) :
    others.foldlM (fun term (key, member) => term.withMember key member) term =
      members.foldlM
        (fun term (key, member) => term.withMember key member) term := by
  induction hperm generalizing term with
  | nil => rfl
  | cons member _ ih =>
      rw [List.foldlM_cons, List.foldlM_cons]
      exact bind_congr fun term => ih (List.nodup_cons.mp hkeys).2 term
  | swap first second rest =>
      have hdiffer : second.1 ≠ first.1 := by
        intro hsame
        simp [Fields.keys, hsame] at hkeys
      have hswap := withMember_comm hdiffer term second.2 first.2
      simp only [List.foldlM_cons, Option.bind_eq_bind]
      rw [← Option.bind_assoc, hswap, Option.bind_assoc]
  | trans hfirst _ ih ih' =>
      rw [ih hkeys, ih' ((hfirst.map Prod.fst).nodup_iff.mp hkeys)]

end TermJson

namespace FilterTerm

variable {term : FilterTerm}

/-- A term with its value still to be converted. -/
def asJson (term : FilterTerm) : TermJson :=
  ⟨term.field, term.operator, term.value.toJson .stored, term.omitEmpty⟩

theorem foldlM_members (term : FilterTerm) :
    term.members.foldlM
        (fun term (key, member) => term.withMember key member) {} =
      some term.asJson := by
  obtain ⟨field, operator, value, omitEmpty⟩ := term
  cases field <;> cases operator <;> rfl

/-- No member of a term but its value may hold objects. -/
theorem eq_of_member_reordered (h : term.value.IsPlain) :
    ∀ value ∈ term.members.map Prod.snd, ∀ json, value.Reordered json →
      json = value := by
  have htext : ∀ (text : Option String) json,
      (text.elim .null .string : Json).Reordered json →
        json = text.elim .null .string := by
    rintro (_ | s) _ ⟨⟩ <;> rfl
  have hflag : ∀ (flag : Bool) json, (Json.bool flag).Reordered json →
      json = .bool flag := by
    rintro flag _ ⟨⟩
    rfl
  simpa [members]
    using ⟨htext term.field, htext term.operator, h.eq_of_reordered,
      hflag term.omitEmpty⟩

theorem read?_of_reordered (h : term.value.IsPlain) {json : Json}
    (hreordered : term.toJson.Reordered json) :
    TermJson.read? json = some term.asJson := by
  cases hreordered with
  | @object _ others values hvalues horder =>
      have hsame :=
        Json.Reordered.eq_of_forall₂ (eq_of_member_reordered h) hvalues
      have hmembers : (Fields.keys term.members).zip values = term.members := by
        rw [hsame]
        exact (List.zip_of_prod rfl rfl).symm
      rw [hmembers] at horder
      have hkeys : (Fields.keys others).Nodup :=
        (horder.map Prod.fst).nodup_iff.mpr (by simp [members])
      rw [TermJson.read?, TermJson.foldlM_withMember_perm horder hkeys,
        foldlM_members]

theorem toTerm_asJson (h : term.value.IsPlain) :
    term.asJson.toTerm = .ok term := by
  rw [TermJson.toTerm, asJson, h.toValue?_toJson]

end FilterTerm

namespace Filter

theorem ofJson_of_reordered {filter : Filter}
    (h : ∀ term ∈ filter.terms, term.value.IsPlain) {json : Json}
    (hreordered :
      (Json.array (filter.terms.map FilterTerm.toJson)).Reordered json) :
    ofJson json = .ok filter := by
  cases hreordered with
  | @array _ items hitems =>
      have hread : items.mapM TermJson.read? =
          some (filter.terms.map FilterTerm.asJson) := by
        have hterms := (List.forall₂_and_left filter.terms items).mpr
          ⟨h, List.forall₂_map_left_iff.mp hitems⟩
        refine Result.mapM_eq_pure
          (List.forall₂_map_right_iff.mpr (hterms.imp ?_).flip)
        exact fun _ _ hterm => FilterTerm.read?_of_reordered hterm.1 hterm.2
      have hterms : (filter.terms.map FilterTerm.asJson).mapM TermJson.toTerm =
          .ok filter.terms :=
        Result.mapM_map_eq_pure fun term hmem =>
          FilterTerm.toTerm_asJson (h term hmem)
      simp only [ofJson, hread, hterms, Except.map]

end Filter

/-! ## Mappings -/

namespace Param

theorem entriesToJson_eq_map (entries : Params) :
    entriesToJson entries = entries.map fun entry =>
      (entry.1, entry.2.toJson) := by
  induction entries with
  | nil => rfl
  | cons entry entries ih => rw [entriesToJson, ih, List.map_cons]

theorem entriesOfJson_eq_mapM (members : List (String × Json)) :
    entriesOfJson members = members.mapM fun member =>
      (ofJson member.2).map (member.1, ·) := by
  induction members with
  | nil => rfl
  | cons member members ih =>
      rw [entriesOfJson, ih, List.mapM_cons]
      cases ofJson member.2 <;> rfl

/-- An object is a mapping unless `$filter` is its only key. -/
theorem ofJson_object {members : List (String × Json)}
    (h : Fields.keys members ≠ ["$filter"]) :
    ofJson (.object members) =
      (entriesOfJson members).map fun entries =>
        .params (Params.ofList entries) := by
  rw [ofJson]
  rintro terms rfl
  exact h rfl

/-- Keys and values that stand side by side are entries again. -/
theorem forall₂_zip_keys {entries : Params} {values : List Json}
    {matched : String × Param → Json → Prop}
    (h : List.Forall₂ matched entries values) :
    List.Forall₂ (fun member entry => member.1 = entry.1 ∧
      matched entry member.2)
      ((Fields.keys entries).zip values) entries := by
  induction h with
  | nil => exact .nil
  | cons hmatched _ ih => exact .cons ⟨rfl, hmatched⟩ ih

/-- Entries that are each read back make up the mapping again, whatever order
they come in. -/
theorem exists_entriesOfJson_eq {entries : Params}
    (hascending : Fields.Ascending entries)
    (hread : ∀ entry ∈ entries, ∀ json, entry.2.toJson.Reordered json →
      ofJson json = .ok entry.2)
    {json : Json}
    (hreordered : (Json.object (entriesToJson entries)).Reordered json) :
    ∃ members, json = .object members ∧
      (Fields.keys members).Perm (Fields.keys entries) ∧
      (entriesOfJson members).map Params.ofList = .ok entries := by
  cases hreordered with
  | @object _ members values hvalues horder =>
      -- The members give the entries in the order of the members; placing sorts
      -- them again.
      have hkeys :
          Fields.keys (entriesToJson entries) = Fields.keys entries := by
        rw [entriesToJson_eq_map, Fields.keys, Fields.keys, List.map_map]
        rfl
      have hvalues' :
          List.Forall₂ (fun entry json =>
            ofJson json = .ok entry.2) entries values := by
        rw [entriesToJson_eq_map, List.map_map, List.forall₂_map_left_iff]
          at hvalues
        exact ((List.forall₂_and_left entries values).mpr ⟨hread, hvalues⟩).imp
          fun _ json hentry => hentry.1 json hentry.2
      rw [hkeys] at horder
      obtain ⟨entries', hmembers, hperm⟩ :=
        List.perm_comp_forall₂ horder (forall₂_zip_keys hvalues')
      have hnames : Fields.keys members = Fields.keys entries' := by
        rw [Fields.keys, Fields.keys, ← List.forall₂_eq_eq_eq,
          List.forall₂_map_left_iff, List.forall₂_map_right_iff]
        exact hmembers.imp fun _ _ hmember => hmember.1
      have hentries : entriesOfJson members = .ok entries' := by
        rw [entriesOfJson_eq_mapM]
        refine Result.mapM_eq_pure (hmembers.imp fun member entry hmember => ?_)
        rw [hmember.2, Except.map, hmember.1]
        rfl
      refine ⟨members, rfl, hnames ▸ hperm.map Prod.fst, ?_⟩
      rw [hentries, Except.map, Params.ofList,
        Fields.placeAll_of_perm hascending hperm]

theorem IsPlain.ofJson_of_reordered {param : Param} (h : param.IsPlain) :
    ∀ json, param.toJson.Reordered json → ofJson json = .ok param := by
  induction h with
  | value hbound =>
      intro json hreordered
      rw [hbound.eq_of_reordered json hreordered, hbound.ofJson_eq_value]
  | @filter bound hterms =>
      intro json hreordered
      rw [toJson, Filter.toJson] at hreordered
      cases hreordered with
      | @object _ members _ hvalues horder =>
          obtain _ | ⟨hterms', ⟨⟩⟩ := hvalues
          obtain rfl := List.perm_singleton.mp horder
          rw [ofJson, Filter.ofJson_of_reordered hterms hterms', Except.map]
  | @params entries hascending hkeys _ ih =>
      intro json hreordered
      obtain ⟨members, rfl, hperm, hread⟩ :=
        exists_entriesOfJson_eq hascending ih hreordered
      have hmapping : Fields.keys members ≠ ["$filter"] := by
        intro hsame
        rw [hsame, List.singleton_perm] at hperm
        exact hkeys hperm.symm
      obtain ⟨entries', hentries, hentries'⟩ := Result.map_eq_ok_iff.mp hread
      rw [ofJson_object hmapping, hentries, Except.map, hentries']

/-- A nested mapping with `$filter` as its only key is never read back. -/
theorem ofJson_toJson_ne (param : Param) :
    ofJson (toJson (.params [("$filter", param)])) ≠
      .ok (.params [("$filter", param)]) := by
  rw [toJson, entriesToJson, entriesToJson, ofJson]
  cases Filter.ofJson param.toJson <;> nofun

end Param

namespace Params

/-- Bindings are read back from their JSON, with its members in any order. -/
theorem ofJson_toJson {params : Params} (h : params.IsPlain) :
    ofJson params.toJson = .ok params ∧
      ∀ json, params.toJson.Reordered json → ofJson json = .ok params := by
  have hread : ∀ json, params.toJson.Reordered json →
      ofJson json = .ok params := by
    intro json hreordered
    obtain ⟨members, rfl, -, hentries⟩ :=
      Param.exists_entriesOfJson_eq h.ascending
        (fun entry hmem => (h.entries entry hmem).ofJson_of_reordered)
        hreordered
    rw [ofJson, hentries]
  exact ⟨hread _ (.refl _), hread⟩

theorem ofJson_toJson_of_nested :
    ofJson
        (.object
          [("$filter",
            .object
              [("limit", .array [.int (-3), .null]),
                ("by",
                  .object
                    [("$filter",
                      .array
                        [.object
                          [("field", .string "size"), ("operator", .null),
                            ("value", .double ⟨0⟩),
                            ("omitempty", .bool true)]])])])]) =
      .ok
        [("$filter",
          .params
            [("by",
              .filter (some ⟨[⟨some "size", none, .double ⟨0⟩, true⟩]⟩)),
              ("limit", .value (.array [.int64 (-3), .null]))])] := by
  have hfilter : Param.IsPlain
      (.filter (some ⟨[⟨some "size", none, .double ⟨0⟩, true⟩]⟩)) :=
    .filter (List.forall_mem_singleton.mpr (.double (by decide)))
  have hlist : Param.IsPlain (.value (.array [.int64 (-3), .null])) :=
    .value (.array
      (List.forall_mem_cons.mpr
        ⟨.int64 _, List.forall_mem_singleton.mpr .null⟩))
  refine (ofJson_toJson
    ⟨?_, List.forall_mem_singleton.mpr (.params ?_ ?_ ?_)⟩).2 _ ?_
  · exact List.pairwise_singleton _ _
  · show ["by", "limit"].Pairwise (· < ·)
    decide
  · decide
  · exact List.forall_mem_cons.mpr ⟨hfilter,
      List.forall_mem_singleton.mpr hlist⟩
  · exact .object
      (.cons (.object (Json.Reordered.refl_values _) (.swap _ _ _)) .nil)
      (.refl _)

end Params

end Aggregation
