import Aggregation.Command.Run
import Aggregation.Proofs.Fields
import Aggregation.Proofs.ParamsRoundTrip

/-!
# What bindings are read from

Bindings are read from an object, each member of which is accepted or refused.
A member that is an object with the single key `$filter` is accepted with a list
of terms, any other object if its own members are, and everything else if its
whole numbers are in range.  A term is an object of the members that terms have,
or an array of them in their order.  The first member that is refused, at every
depth, decides the error.
-/

namespace Aggregation

/-! ## Values that can be stored -/

namespace Json

/-- Induction on a JSON value, for an array and an object from what stands in
it. -/
theorem induct {motive : Json → Prop} (null : motive .null)
    (bool : ∀ b, motive (.bool b)) (int : ∀ n, motive (.int n))
    (double : ∀ d, motive (.double d)) (string : ∀ s, motive (.string s))
    (array : ∀ items, (∀ item ∈ items, motive item) → motive (.array items))
    (object : ∀ members, (∀ member ∈ members, motive member.2) →
      motive (.object members))
    (json : Json) : motive json :=
  @Json.rec motive (fun items => ∀ item ∈ items, motive item)
    (fun members => ∀ member ∈ members, motive member.2)
    (fun member => motive member.2)
    null bool int double string array object (List.forall_mem_nil _)
    (fun _ _ hitem hitems => List.forall_mem_cons.mpr ⟨hitem, hitems⟩)
    (List.forall_mem_nil _)
    (fun _ _ hmember hmembers => List.forall_mem_cons.mpr ⟨hmember, hmembers⟩)
    (fun _ _ hvalue => hvalue) json

/-- The whole number stands in the value, at some depth. -/
inductive Holds (n : ℤ) : Json → Prop
  | here : Holds n (.int n)
  | item {items : List Json} {item : Json} (hmem : item ∈ items)
      (h : Holds n item) :
      Holds n (.array items)
  | member {members : List (String × Json)} {member : String × Json}
      (hmem : member ∈ members)
      (h : Holds n member.2) : Holds n (.object members)

/-- All whole numbers in the value are in the range of sixty-four bits with a
sign. -/
def Convertible (json : Json) : Prop :=
  ∀ n, json.Holds n → Int64.minValue.toInt ≤ n ∧ n ≤ Int64.maxValue.toInt

/-- A literal below the range of sixty-four bits is a double. -/
theorem Numeral.le_of_value? {numeral : Numeral} {n : ℤ}
    (h : numeral.value? = some (.int n)) :
    Int64.minValue.toInt ≤ n := by
  rw [Int64.toInt_minValue]
  simp only [value?] at h
  split at h
  · split at h
    · split at h
      · cases h
      · next hrange =>
          cases h
          omega
    · cases h
      omega
  · obtain ⟨_, -, hdouble⟩ := Option.map_eq_some_iff.mp h
    cases hdouble

theorem convertible_int_iff {n : ℤ} :
    (int n).Convertible ↔ ExtendedJson.inInt64 n = true := by
  have hrange : ExtendedJson.inInt64 n = true ↔
      Int64.minValue.toInt ≤ n ∧ n ≤ Int64.maxValue.toInt := by
    simp only [ExtendedJson.inInt64, Bool.and_eq_true, decide_eq_true_eq,
      Int64.toInt_minValue, Int64.toInt_maxValue]
    omega
  rw [hrange]
  constructor
  · exact fun h => h n .here
  · rintro h _ ⟨⟩
    exact h

theorem convertible_array_iff {items : List Json} :
    (array items).Convertible ↔ ∀ item ∈ items, item.Convertible := by
  constructor
  · exact fun h item hmem n hholds => h n (.item hmem hholds)
  · rintro h n (_ | ⟨hmem, hholds⟩)
    exact h _ hmem n hholds

theorem convertible_object_iff {members : List (String × Json)} :
    (object members).Convertible ↔
      ∀ member ∈ members, member.2.Convertible := by
  constructor
  · exact fun h member hmem n hholds => h n (.member hmem hholds)
  · rintro h n (_ | _ | ⟨hmem, hholds⟩)
    exact h _ hmem n hholds

theorem membersToFields?_eq_mapM (members : List (String × Json)) :
    membersToFields? members = members.mapM fun member =>
      member.2.toValue?.map (member.1, ·) := by
  induction members with
  | nil => rfl
  | cons member members ih =>
      rw [membersToFields?, ih, List.mapM_cons]
      cases member.2.toValue? <;> rfl

/-- Only whole numbers out of range stand in the way of a conversion. -/
theorem exists_toValue?_iff (json : Json) :
    (∃ value, json.toValue? = some value) ↔ json.Convertible := by
  induction json using induct with
  | null | bool | double | string => exact iff_of_true ⟨_, rfl⟩ nofun
  | int n =>
      rw [convertible_int_iff, toValue?]
      split <;> simp_all
  | array items ih =>
      have hitems : (∃ value, (array items).toValue? = some value) ↔
          ∃ values, items.mapM toValue? = some values := by
        rw [toValue?, itemsToValues?_eq_mapM]
        cases items.mapM toValue? <;> simp
      rw [hitems, Result.exists_mapM_eq_some_iff, convertible_array_iff]
      exact forall₂_congr ih
  | object members ih =>
      have hmembers : (∃ value, (object members).toValue? = some value) ↔
          ∃ fields, (members.mapM fun member =>
            member.2.toValue?.map (member.1, ·)) = some fields := by
        rw [toValue?, membersToFields?_eq_mapM]
        cases members.mapM fun member => member.2.toValue?.map (member.1, ·) <;>
          simp
      rw [hmembers, Result.exists_mapM_eq_some_iff, convertible_object_iff]
      refine forall₂_congr fun member hmem => ?_
      rw [← ih member hmem]
      cases member.2.toValue? <;> simp

end Json

namespace JsonText

open Json

variable {n : ℤ}

mutual

theorem le_of_valueWithin? : ∀ {tree : JsonText} {depth : ℕ} {json : Json},
    valueWithin? depth tree = some json → json.Holds n →
      Int64.minValue.toInt ≤ n
  | .null, _, _, h, hholds | .bool _, _, _, h, hholds => by
      cases h
      cases hholds
  | .number numeral, _, _, h, hholds => by
      obtain ⟨number, hnumber, rfl⟩ := Option.map_eq_some_iff.mp h
      cases number with
      | int m =>
          cases hholds
          exact Numeral.le_of_value? hnumber
      | double d => cases hholds
  | .string _, _, _, h, hholds => by
      obtain ⟨_, -, rfl⟩ := Option.map_eq_some_iff.mp h
      cases hholds
  | .array items, depth, json, h, hholds => by
      rw [valueWithin?] at h
      split at h
      · cases h
      · obtain ⟨values, hvalues, rfl⟩ := Option.map_eq_some_iff.mp h
        cases hholds with
        | item hmem hholds => exact le_of_itemsWithin? hvalues hmem hholds
  | .object members, _, json, h, hholds => by
      rw [valueWithin?] at h
      split at h
      · cases h
      · obtain ⟨fields, hfields, rfl⟩ := Option.map_eq_some_iff.mp h
        cases hholds with
        | member hmem hholds =>
            exact le_of_membersWithin? hfields
              (Fields.mem_of_mem_ofPairs hmem) hholds

theorem le_of_itemsWithin? :
    ∀ {items : List JsonText} {depth : ℕ} {values : List Json},
    itemsWithin? depth items = some values → ∀ {value : Json}, value ∈ values →
      value.Holds n → Int64.minValue.toInt ≤ n
  | [], _, _, h, _, hmem, _ => by
      cases h
      cases hmem
  | item :: items, depth, _, h, value, hmem, hholds => by
      simp only [itemsWithin?, Option.bind_eq_bind, Option.bind_eq_some_iff,
        Option.some.injEq] at h
      obtain ⟨first, hfirst, rest, hrest, rfl⟩ := h
      rcases List.mem_cons.mp hmem with rfl | hmem
      · exact le_of_valueWithin? hfirst hholds
      · exact le_of_itemsWithin? hrest hmem hholds

theorem le_of_membersWithin? :
    ∀ {members : List (Option String × JsonText)} {depth : ℕ}
    {fields : List (String × Json)}, membersWithin? depth members =
      some fields →
      ∀ {field : String × Json}, field ∈ fields → field.2.Holds n →
        Int64.minValue.toInt ≤ n
  | [], _, _, h, _, hmem, _ => by
      cases h
      cases hmem
  | (_, tree) :: members, depth, _, h, field, hmem, hholds => by
      simp only [membersWithin?, Option.bind_eq_bind, Option.bind_eq_some_iff,
        Option.some.injEq] at h
      obtain ⟨key, -, first, hfirst, rest, hrest, rfl⟩ := h
      rcases List.mem_cons.mp hmem with rfl | hmem
      · exact le_of_valueWithin? hfirst hholds
      · exact le_of_membersWithin? hrest hmem hholds

end

end JsonText

/-- No whole number that is read is too small, so those out of range are too
great. -/
theorem Json.le_of_parse? {text : String} {json : Json} {n : ℤ}
    (h : parse? text = some json) (hholds : json.Holds n) :
    Int64.minValue.toInt ≤ n := by
  obtain ⟨tree, -, htree⟩ := Option.bind_eq_some_iff.mp h
  exact JsonText.le_of_valueWithin? htree hholds

/-! ## Terms -/

namespace TermJson

/-- The members that a term may have. -/
inductive Allows : String → Json → Prop
  | text {key : String} (hkey : key = "field" ∨ key = "operator") (s : String) :
      Allows key (.string s)
  | noText {key : String} (hkey : key = "field" ∨ key = "operator") :
      Allows key .null
  | value (json : Json) : Allows "value" json
  | omitEmpty (b : Bool) : Allows "omitempty" (.bool b)

/-- The members that a term is written with: in an object as they stand, and in
an array without their names, as many of them as there are. -/
inductive Lists : Json → List (String × Json) → Prop
  | object (members : List (String × Json)) : Lists (.object members) members
  | array {items : List Json} (hlength : items.length ≤ 4) :
      Lists (.array items)
        (["field", "operator", "value", "omitempty"].zip items)

/-- A term, its value apart. -/
def IsTerm (json : Json) : Prop :=
  ∃ members, Lists json members ∧ ∀ member ∈ members, Allows member.1 member.2

/-- A term with a value that can be stored, or none. -/
def Accepts (json : Json) : Prop :=
  ∃ members, Lists json members ∧
    (∀ member ∈ members, Allows member.1 member.2) ∧
    ∀ value, Fields.last? members "value" = some value → value.Convertible

variable {term read : TermJson} {key : String} {json : Json}
  {members : List (String × Json)}

theorem exists_withMember_iff (term : TermJson) :
    (∃ read, term.withMember key json = some read) ↔ Allows key json := by
  constructor
  · rintro ⟨read, hread⟩
    unfold withMember at hread
    split at hread
    · cases json with
      | null => exact .noText (.inl rfl)
      | string s => exact .text (.inl rfl) s
      | _ => cases hread
    · cases json with
      | null => exact .noText (.inr rfl)
      | string s => exact .text (.inr rfl) s
      | _ => cases hread
    · exact .value json
    · cases json with
      | bool b => exact .omitEmpty b
      | _ => cases hread
    · cases hread
  · rintro (⟨rfl | rfl, s⟩ | ⟨rfl | rfl⟩ | _ | b) <;> exact ⟨_, rfl⟩

theorem value_of_withMember (h : term.withMember key json = some read) :
    read.value = if key = "value" then json else term.value := by
  unfold withMember at h
  split at h
  · obtain ⟨text, -, rfl⟩ := Option.map_eq_some_iff.mp h
    rfl
  · obtain ⟨text, -, rfl⟩ := Option.map_eq_some_iff.mp h
    rfl
  · cases h
    rfl
  · obtain ⟨flag, -, rfl⟩ := Option.map_eq_some_iff.mp h
    rfl
  · cases h

theorem exists_foldlM_withMember_iff (term : TermJson) :
    (∃ read, members.foldlM
        (fun term (key, member) => term.withMember key member) term =
      some read) ↔
      ∀ member ∈ members, Allows member.1 member.2 := by
  induction members generalizing term with
  | nil => simp
  | cons member members ih =>
      rw [List.forall_mem_cons, ← exists_withMember_iff term]
      simp only [List.foldlM_cons, Option.bind_eq_bind, Option.bind_eq_some_iff]
      constructor
      · rintro ⟨read, middle, hmiddle, hread⟩
        exact ⟨⟨middle, hmiddle⟩, (ih middle).mp ⟨read, hread⟩⟩
      · rintro ⟨⟨middle, hmiddle⟩, hrest⟩
        obtain ⟨read, hread⟩ := (ih middle).mpr hrest
        exact ⟨read, middle, hmiddle, hread⟩

theorem value_of_foldlM_withMember
    (h : members.foldlM
      (fun term (key, member) => term.withMember key member) term =
        some read) :
    read.value = (Fields.last? members "value").getD term.value := by
  induction members using List.reverseRecOn generalizing read with
  | nil =>
      cases h
      rfl
  | append_singleton members member ih =>
      obtain ⟨key, json⟩ := member
      rw [List.foldlM_append, Option.bind_eq_bind, Option.bind_eq_some_iff] at h
      obtain ⟨middle, hmiddle, hread⟩ := h
      simp only [List.foldlM_cons, List.foldlM_nil, bind_pure] at hread
      rw [value_of_withMember hread, ih hmiddle, Fields.last?_concat]
      split <;> rfl

theorem read?_of_lists (h : Lists json members) :
    read? json =
      members.foldlM
        (fun term (key, member) => term.withMember key member) {} := by
  cases h with
  | object => rfl
  | array hlength => exact if_pos hlength

theorem exists_read?_iff : (∃ term, read? json = some term) ↔ IsTerm json := by
  constructor
  · rintro ⟨term, hterm⟩
    have hlists : ∃ members, Lists json members := by
      cases json with
      | object members => exact ⟨members, .object members⟩
      | array items =>
          rw [read?] at hterm
          split at hterm
          · next hlength => exact ⟨_, .array hlength⟩
          · cases hterm
      | _ => cases hterm
    obtain ⟨members, hmembers⟩ := hlists
    rw [read?_of_lists hmembers] at hterm
    exact ⟨members, hmembers,
      (exists_foldlM_withMember_iff {}).mp ⟨term, hterm⟩⟩
  · rintro ⟨members, hmembers, hallowed⟩
    rw [read?_of_lists hmembers]
    exact (exists_foldlM_withMember_iff {}).mpr hallowed

theorem value_of_read? (hmembers : Lists json members)
    (h : read? json = some term) :
    term.value = (Fields.last? members "value").getD .null := by
  rw [read?_of_lists hmembers] at h
  exact value_of_foldlM_withMember h

theorem exists_toTerm_iff : (∃ filterTerm, term.toTerm = .ok filterTerm) ↔
    term.value.Convertible := by
  rw [← Json.exists_toValue?_iff, toTerm]
  cases term.value.toValue? <;> simp

theorem toTerm_eq_error {error : ParamsError} (h : term.toTerm = .error error) :
    error = .unsupportedValue := by
  rw [toTerm] at h
  split at h
  · cases h
  · exact (Except.error.inj h).symm

end TermJson

namespace Filter

variable {items : List Json}

theorem exists_ofJson_of_accepts (h : ∀ item ∈ items, TermJson.Accepts item) :
    ∃ filter, ofJson (.array items) = .ok filter := by
  have hread : ∀ item ∈ items, ∃ term, TermJson.read? item = some term ∧
      ∃ filterTerm, term.toTerm = .ok filterTerm := by
    intro item hmem
    obtain ⟨members, hmembers, hallowed, hvalue⟩ := h item hmem
    obtain ⟨term, hterm⟩ :=
      TermJson.exists_read?_iff.mpr ⟨members, hmembers, hallowed⟩
    refine ⟨term, hterm, TermJson.exists_toTerm_iff.mpr ?_⟩
    rw [TermJson.value_of_read? hmembers hterm]
    cases hlast : Fields.last? members "value" with
    | none => exact nofun
    | some value => exact hvalue value hlast
  obtain ⟨terms, hterms⟩ := Result.exists_forall₂_iff.mpr hread
  have hall : items.mapM TermJson.read? = some terms :=
    Result.mapM_eq_some_iff.mpr (hterms.imp fun _ _ hterm => hterm.1)
  have hconverted :
      ∃ filterTerms, terms.mapM TermJson.toTerm = .ok filterTerms := by
    refine Result.exists_mapM_eq_ok_iff.mpr fun term hmem => ?_
    obtain ⟨item, -, hterm⟩ :=
      Result.exists_forall₂_iff.mp ⟨items, hterms.flip⟩ term hmem
    exact hterm
  obtain ⟨filterTerms, hfilterTerms⟩ := hconverted
  refine ⟨⟨filterTerms⟩, ?_⟩
  simp only [ofJson, hall, hfilterTerms, Except.map]

theorem ofJson_of_malformed {terms : Json}
    (h : ¬ ∃ items,
      terms = .array items ∧ ∀ item ∈ items, TermJson.IsTerm item) :
    ofJson terms = .error .malformedTerms := by
  cases terms with
  | array items =>
      have hnone : items.mapM TermJson.read? = none := by
        refine Option.eq_none_iff_forall_ne_some.mpr fun terms hterms =>
          h ⟨items, rfl, ?_⟩
        simp only [← TermJson.exists_read?_iff]
        exact Result.exists_mapM_eq_some_iff.mp ⟨terms, hterms⟩
      rw [ofJson, hnone]
  | _ => rfl

theorem ofJson_of_unsupported (hterms : ∀ item ∈ items, TermJson.IsTerm item)
    {item : Json} (hmem : item ∈ items) {members : List (String × Json)}
    (hmembers : TermJson.Lists item members) {value : Json}
    (hvalue : Fields.last? members "value" = some value)
    (h : ¬ value.Convertible) :
    ofJson (.array items) = .error .unsupportedValue := by
  simp only [← TermJson.exists_read?_iff] at hterms
  -- All terms are read, so whatever goes wrong is in a value, and the one of
  -- this item does.
  obtain ⟨terms, hread⟩ := Result.exists_mapM_eq_some_iff.mpr hterms
  cases hconverted : terms.mapM TermJson.toTerm with
  | error error =>
      obtain ⟨_, term, _, -, -, hterm⟩ := Result.mapM_eq_error_iff.mp hconverted
      obtain rfl := TermJson.toTerm_eq_error hterm
      simp only [ofJson, hread, hconverted, Except.map]
  | ok filterTerms =>
      have hall := Result.exists_mapM_eq_ok_iff.mp ⟨filterTerms, hconverted⟩
      have hboth := (List.forall₂_and_left terms items).mpr
        ⟨hall, (Result.mapM_eq_some_iff.mp hread).flip⟩
      obtain ⟨term, hconvertible, hterm⟩ :=
        Result.exists_forall₂_iff.mp ⟨terms, hboth.flip⟩ item hmem
      rw [TermJson.exists_toTerm_iff, TermJson.value_of_read? hmembers hterm,
        hvalue] at hconvertible
      exact absurd hconvertible h

end Filter

/-! ## Members -/

namespace Param

/-- What a member may be. -/
inductive Accepts : Json → Prop
  | filter {items : List Json}
      (hterms : ∀ item ∈ items, TermJson.Accepts item) :
      Accepts (.object [("$filter", .array items)])
  | mapping {members : List (String × Json)}
      (hkeys : Fields.keys members ≠ ["$filter"])
      (hmembers : ∀ member ∈ members, Accepts member.2) :
      Accepts (.object members)
  | plain {json : Json} (hplain : ∀ members, json ≠ .object members)
      (h : json.Convertible) :
      Accepts json

/-- What a member is refused for.  In a mapping that is the first member which
is refused, and in a filter the form of its terms comes before their values. -/
inductive Offends : Json → ParamsError → Prop
  | terms {terms : Json}
      (h : ¬ ∃ items,
        terms = .array items ∧ ∀ item ∈ items, TermJson.IsTerm item) :
      Offends (.object [("$filter", terms)]) .malformedTerms
  | termValue {items : List Json} {item : Json} {members : List (String × Json)}
      {value : Json}
      (hterms : ∀ item ∈ items, TermJson.IsTerm item) (hmem : item ∈ items)
      (hmembers : TermJson.Lists item members)
      (hvalue : Fields.last? members "value" = some value)
      (h : ¬ value.Convertible) :
      Offends (.object [("$filter", .array items)]) .unsupportedValue
  | member {before after : List (String × Json)} {member : String × Json}
      {error : ParamsError}
      (hkeys : Fields.keys (before ++ member :: after) ≠ ["$filter"])
      (hbefore : ∀ earlier ∈ before, Accepts earlier.2)
      (h : Offends member.2 error) :
      Offends (.object (before ++ member :: after)) error
  | plain {json : Json} (hplain : ∀ members, json ≠ .object members)
      (h : ¬ json.Convertible) : Offends json .unsupportedValue

theorem ofJson_plain {json : Json}
    (hplain : ∀ members, json ≠ .object members) :
    ofJson json =
      match json.toValue? with
      | some plain => .ok (.value plain)
      | none => .error .unsupportedValue := by
  cases json with
  | object members => exact absurd rfl (hplain members)
  | _ => rfl

theorem exists_entriesOfJson_iff {members : List (String × Json)} :
    (∃ entries, entriesOfJson members = .ok entries) ↔
      ∀ member ∈ members, ∃ param, ofJson member.2 = .ok param := by
  rw [entriesOfJson_eq_mapM, Result.exists_mapM_eq_ok_iff]
  refine forall₂_congr fun member _ => ?_
  simp [Result.map_eq_ok_iff]

theorem entriesOfJson_eq_error_iff {members : List (String × Json)}
    {error : ParamsError} :
    entriesOfJson members = .error error ↔
      ∃ before member after, members = before ++ member :: after ∧
        (∀ earlier ∈ before, ∃ param, ofJson earlier.2 = .ok param) ∧
        ofJson member.2 = .error error := by
  simp only [entriesOfJson_eq_mapM, Result.mapM_eq_error_iff,
    Result.map_eq_ok_iff, Result.map_eq_error_iff]
  simp

theorem Accepts.exists_ofJson {json : Json} (h : Accepts json) :
    ∃ param, ofJson json = .ok param := by
  induction h with
  | filter hterms =>
      obtain ⟨filter, hfilter⟩ := Filter.exists_ofJson_of_accepts hterms
      exact ⟨.filter (some filter), by rw [ofJson, hfilter, Except.map]⟩
  | mapping hkeys _ ih =>
      obtain ⟨entries, hentries⟩ := exists_entriesOfJson_iff.mpr ih
      exact ⟨.params (Params.ofList entries),
        by rw [ofJson_object hkeys, hentries, Except.map]⟩
  | plain hplain hconvertible =>
      obtain ⟨value, hvalue⟩ := (Json.exists_toValue?_iff _).mpr hconvertible
      exact ⟨.value value, by rw [ofJson_plain hplain, hvalue]⟩

theorem Offends.ofJson_eq {json : Json} {error : ParamsError}
    (h : Offends json error) :
    ofJson json = .error error := by
  induction h with
  | terms h => rw [ofJson, Filter.ofJson_of_malformed h, Except.map]
  | termValue hterms hmem hmembers hvalue h =>
      rw [ofJson, Filter.ofJson_of_unsupported hterms hmem hmembers hvalue h,
        Except.map]
  | @member before after member error hkeys hbefore _ ih =>
      have hentries :
          entriesOfJson (before ++ member :: after) = .error error :=
        entriesOfJson_eq_error_iff.mpr ⟨before, member, after, rfl,
          fun earlier hmem => (hbefore earlier hmem).exists_ofJson, ih⟩
      rw [ofJson_object hkeys, hentries, Except.map]
  | @plain json hplain h =>
      have hnone : json.toValue? = none := by
        refine Option.eq_none_iff_forall_ne_some.mpr fun value hvalue => h ?_
        exact (Json.exists_toValue?_iff json).mp ⟨value, hvalue⟩
      rw [ofJson_plain hplain, hnone]

/-- A filter is accepted, or its terms are refused. -/
theorem accepts_or_offends_filter (terms : Json) :
    Accepts (.object [("$filter", terms)]) ∨
      ∃ error, Offends (.object [("$filter", terms)]) error := by
  by_cases hterms : ∃ items, terms = .array items ∧ ∀ item ∈ items,
    TermJson.IsTerm item
  · obtain ⟨items, rfl, hterms⟩ := hterms
    rcases Result.forall_or_first TermJson.Accepts items with
      haccepts | ⟨before, item, after, rfl, -, hitem⟩
    · exact .inl (.filter haccepts)
    · have hmem : item ∈ before ++ item :: after := by simp
      obtain ⟨members, hmembers, hallowed⟩ := hterms item hmem
      have hrefused : ∃ value, Fields.last? members "value" = some value ∧
          ¬ value.Convertible := by
        by_contra hnone
        push Not at hnone
        exact hitem ⟨members, hmembers, hallowed, hnone⟩
      obtain ⟨value, hvalue, hrange⟩ := hrefused
      exact .inr ⟨_, .termValue hterms hmem hmembers hvalue hrange⟩
  · exact .inr ⟨_, .terms hterms⟩

theorem accepts_or_offends (json : Json) :
    Accepts json ∨ ∃ error, Offends json error := by
  have hscalar : ∀ json : Json, (∀ members, json ≠ .object members) →
      Accepts json ∨ ∃ error, Offends json error := by
    intro json hplain
    by_cases hrange : json.Convertible
    · exact .inl (.plain hplain hrange)
    · exact .inr ⟨_, .plain hplain hrange⟩
  induction json using Json.induct with
  | null | bool | int | double | string | array => exact hscalar _ nofun
  | object members ih =>
      by_cases hkeys : Fields.keys members = ["$filter"]
      · obtain ⟨⟨key, terms⟩, rfl, rfl⟩ := List.map_eq_singleton_iff.mp hkeys
        exact accepts_or_offends_filter terms
      · rcases Result.forall_or_first
            (fun member => Accepts member.2) members with
          haccepts | ⟨before, member, after, rfl, hbefore, hmember⟩
        · exact .inl (.mapping hkeys haccepts)
        · obtain ⟨error, herror⟩ := (ih member (by simp)).resolve_left hmember
          exact .inr ⟨error, .member hkeys hbefore herror⟩

theorem exists_ofJson_iff_accepts {json : Json} :
    (∃ param, ofJson json = .ok param) ↔ Accepts json := by
  refine ⟨?_, Accepts.exists_ofJson⟩
  rintro ⟨param, hparam⟩
  refine (accepts_or_offends json).resolve_right ?_
  rintro ⟨error, herror⟩
  rw [herror.ofJson_eq] at hparam
  cases hparam

theorem ofJson_eq_error_iff_offends {json : Json} {error : ParamsError} :
    ofJson json = .error error ↔ Offends json error := by
  refine ⟨fun h => ?_, Offends.ofJson_eq⟩
  rcases accepts_or_offends json with haccepts | ⟨other, hother⟩
  · obtain ⟨param, hparam⟩ := haccepts.exists_ofJson
    rw [h] at hparam
    cases hparam
  · rw [hother.ofJson_eq] at h
    exact Except.error.inj h ▸ hother

theorem Offends.not_accepts {json : Json} {error : ParamsError}
    (h : Offends json error) :
    ¬ Accepts json := by
  rw [← exists_ofJson_iff_accepts, h.ofJson_eq]
  nofun

end Param

namespace Params

/-- Bindings are read exactly from an object with members that are all accepted.
Otherwise the error is one of the parameters: that there is no object, or what
the first member that is not accepted is refused for.  In what is read from a
text no whole number is below the range, so that only those above it are
refused. -/
theorem ofJson_grammar (json : Json) :
    ((∃ params, ofJson json = .ok params) ↔
      ∃ members, json = .object members ∧ ∀ member ∈ members,
        Param.Accepts member.2) ∧
    (∀ error, ofJson json = .error error →
      (CommandError.params error).code = "AGGC_CLI_PARAMS_ERROR" ∧
      (((∀ members, json ≠ .object members) ∧ error = .notObject) ∨
        ∃ before member after, json = .object (before ++ member :: after) ∧
          (∀ earlier ∈ before, Param.Accepts earlier.2) ∧
            ¬ Param.Accepts member.2 ∧
          Param.Offends member.2 error)) ∧
    ∀ text, Json.parse? text = some json →
      ∀ n, json.Holds n → Int64.minValue.toInt ≤ n := by
  rw [← and_assoc]
  refine ⟨?_, fun text htext n hholds => Json.le_of_parse? htext hholds⟩
  by_cases hobject : ∃ members, json = .object members
  · obtain ⟨members, rfl⟩ := hobject
    rw [ofJson]
    constructor
    · have hentries :
          (∃ params, (Param.entriesOfJson members).map ofList = .ok params) ↔
          ∃ entries, Param.entriesOfJson members = .ok entries := by
        cases Param.entriesOfJson members <;> simp [Except.map]
      rw [hentries, Param.exists_entriesOfJson_iff]
      simp [Param.exists_ofJson_iff_accepts]
    · intro error herror
      refine ⟨rfl, .inr ?_⟩
      obtain ⟨before, member, after, rfl, hbefore, hmember⟩ :=
        Param.entriesOfJson_eq_error_iff.mp (Result.map_eq_error_iff.mp herror)
      have hoffends := Param.ofJson_eq_error_iff_offends.mp hmember
      simp only [Param.exists_ofJson_iff_accepts] at hbefore
      exact ⟨before, member, after, rfl, hbefore,
        hoffends.not_accepts, hoffends⟩
  · have hplain := not_exists.mp hobject
    have hrefused : ofJson json = .error .notObject := by
      cases json with
      | object members => exact absurd rfl (hplain members)
      | _ => rfl
    rw [hrefused]
    refine ⟨iff_of_false ?_ ?_, fun error herror => ⟨rfl, .inl ⟨hplain, ?_⟩⟩⟩
    · rintro ⟨params, ⟨⟩⟩
    · rintro ⟨members, hmembers, -⟩
      exact hplain members hmembers
    · exact (Except.error.inj herror).symm

/-- Three members, the second of which has a filter with a flag for a field.
The third is out of range. -/
def flagged : Json :=
  .object
    [("limit", .int 5),
      ("archive",
        .object
          [("where",
            .object [("$filter", .array [.object [("field", .bool true)]])])]),
      ("skip", .int 0x8000000000000000)]

theorem ofJson_grammar_flagged :
    ofJson flagged = .error .malformedTerms ∧
    (CommandError.params .malformedTerms).code = "AGGC_CLI_PARAMS_ERROR" ∧
    (∃ before member after, flagged = .object (before ++ member :: after) ∧
      (∀ earlier ∈ before, Param.Accepts earlier.2) ∧ ¬ Param.Accepts member.2 ∧
      Param.Offends member.2 .malformedTerms) ∧
    Json.parse? flagged.compact = some flagged ∧
    ∀ n, flagged.Holds n → Int64.minValue.toInt ≤ n := by
  have hread : ofJson flagged = .error .malformedTerms := by
    rfl
  have hexact : flagged.IsExact := by
    simp [flagged, Json.IsExact, Json.ItemsExact, Json.MembersExact,
      Fields.keys]
  have htext := Json.parse?_compact hexact (by decide)
  obtain ⟨-, hrefused, hrange⟩ := ofJson_grammar flagged
  obtain ⟨hcode, hplain | hfirst⟩ := hrefused _ hread
  · exact absurd rfl (hplain.1 _)
  · exact ⟨hread, hcode, hfirst, htext, hrange _ htext⟩

/-- A term without the names of its members. -/
def unnamedTerm : Json :=
  .array [.string "age", .string "$gte", .int 18]

theorem ofJson_unnamedTerm :
    (∃ params,
      ofJson
        (.object [("where", .object [("$filter", .array [unnamedTerm])])]) =
        .ok params) ∧
    ∀ members, unnamedTerm ≠ .object members :=
  ⟨⟨[("where", .filter (some ⟨[⟨some "age", some "$gte", .int64 18, false⟩]⟩))],
    rfl⟩, nofun⟩

end Params

end Aggregation
