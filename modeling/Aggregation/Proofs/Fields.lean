import Aggregation.Fields
import Mathlib.Data.List.Induction
import Mathlib.Data.List.Nodup

/-!
# Keys and their values

Fields with different keys are determined by their keys in order and by what
they hold under each.  Inserted one after another, keys stand in the order of
their first appearance; placed one after another, they stand in ascending order,
however they were given.  Either way the last value given for a key is held
under it.
-/

namespace Aggregation.Fields

variable {α : Type} {fields other : Fields α} {key : String} {value : α}

/-- A value is found under its key if keys differ. -/
theorem get?_eq_some_iff_mem (hnodup : (keys fields).Nodup) :
    get? fields key = some value ↔ (key, value) ∈ fields := by
  induction fields with
  | nil => simp
  | cons field rest ih =>
      obtain ⟨first, other⟩ := field
      obtain ⟨hfresh, hrest⟩ := List.nodup_cons.mp hnodup
      by_cases hkey : first = key
      · subst hkey
        have habsent : (first, value) ∉ rest :=
          fun hmem => hfresh (List.mem_map.mpr ⟨_, hmem, rfl⟩)
        simp [get?, habsent, eq_comm]
      · simp [get?, hkey, Ne.symm hkey, ih hrest]

theorem mem_of_get? (h : get? fields key = some value) :
    (key, value) ∈ fields := by
  induction fields with
  | nil => cases h
  | cons field rest ih =>
      obtain ⟨first, held⟩ := field
      rw [get?] at h
      split at h
      · next hsame =>
          cases h
          exact hsame ▸ List.mem_cons_self
      · exact List.mem_cons_of_mem _ (ih h)

theorem get?_eq_none_iff : get? fields key = none ↔ key ∉ keys fields := by
  induction fields with
  | nil => simp [keys]
  | cons field rest ih =>
      obtain ⟨first, other⟩ := field
      rw [keys] at ih
      by_cases hkey : first = key
      · simp [get?, keys, hkey]
      · simp [get?, keys, hkey, Ne.symm hkey, ih]

/-- Different keys in order, and what is held under each, make the fields. -/
theorem eq_of_get?_eq (hnodup : (keys fields).Nodup)
    (hkeys : keys fields = keys other)
    (hget : ∀ key ∈ keys fields, get? fields key = get? other key) :
    fields = other := by
  have hnodup' : (keys other).Nodup := hkeys ▸ hnodup
  apply List.ext_getElem?
  intro i
  have hkey : (fields[i]?).map Prod.fst = (other[i]?).map Prod.fst := by
    simpa [keys] using congrArg (·[i]?) hkeys
  cases hfield : fields[i]? with
  | none =>
      rw [hfield, Option.map_none, eq_comm, Option.map_eq_none_iff] at hkey
      rw [hkey]
  | some field =>
      rw [hfield, Option.map_some, eq_comm, Option.map_eq_some_iff] at hkey
      obtain ⟨match', hother, hsame⟩ := hkey
      have hmem := List.mem_of_getElem? hfield
      have hfound := (get?_eq_some_iff_mem hnodup).mpr hmem
      have hfound' :=
        (get?_eq_some_iff_mem hnodup').mpr (List.mem_of_getElem? hother)
      rw [hsame, ← hget _ (List.mem_map_of_mem hmem), hfound] at hfound'
      rw [hother, Prod.ext hsame (Option.some.inj hfound').symm]

theorem get?_map {β : Type} (f : α → β) (fields : Fields α) (key : String) :
    get? (fields.map fun field => (field.1, f field.2)) key =
      (get? fields key).map f := by
  induction fields with
  | nil => rfl
  | cons field fields ih =>
      obtain ⟨name, held⟩ := field
      rw [List.map_cons, get?, get?]
      split
      · rfl
      · exact ih

theorem get?_cons_self (key : String) (value : α) (fields : Fields α) :
    get? ((key, value) :: fields) key = some value :=
  if_pos rfl

theorem get?_cons_of_ne {other : String} (h : other ≠ key) (value : α)
    (fields : Fields α) :
    get? ((other, value) :: fields) key = get? fields key :=
  if_neg h

/-- Fields that stand in the same order are related one by one exactly if what
they hold under each key is. -/
theorem forall₂_iff_get? {β : Type} (R : α → β → Prop) {fields : Fields α}
    {other : Fields β} (hnodup : (keys fields).Nodup) :
    List.Forall₂
        (fun field field' => field.1 = field'.1 ∧ R field.2 field'.2)
        fields other ↔
      keys fields = keys other ∧ ∀ key value value',
        get? fields key = some value →
        get? other key = some value' → R value value' := by
  induction fields generalizing other with
  | nil => cases other <;> simp [keys]
  | cons field fields ih =>
      obtain ⟨hfresh, hrest⟩ := List.nodup_cons.mp hnodup
      cases other with
      | nil => simp [keys]
      | cons field' other =>
          obtain ⟨name, held⟩ := field
          obtain ⟨name', held'⟩ := field'
          rw [List.forall₂_cons, ih hrest]
          constructor
          · rintro ⟨⟨rfl, hheld⟩, hkeys, hvalues⟩
            refine ⟨congrArg (name :: ·) hkeys,
              fun key value value' hvalue hvalue' => ?_⟩
            by_cases hsame : name = key
            · subst hsame
              rw [get?_cons_self, Option.some.injEq] at hvalue hvalue'
              exact hvalue ▸ hvalue' ▸ hheld
            · rw [get?_cons_of_ne hsame] at hvalue hvalue'
              exact hvalues key value value' hvalue hvalue'
          · rintro ⟨hkeys, hvalues⟩
            obtain ⟨hname, hafter⟩ := List.cons.inj hkeys
            obtain rfl : name = name' := hname
            have hheld := hvalues name held held' (get?_cons_self _ _ _)
              (get?_cons_self _ _ _)
            refine ⟨⟨rfl, hheld⟩, hafter,
              fun key value value' hvalue hvalue' => ?_⟩
            have hdiffer : name ≠ key := by
              rintro rfl
              rw [get?_eq_none_iff.mpr hfresh] at hvalue
              cases hvalue
            apply hvalues key value value'
            · rw [get?_cons_of_ne hdiffer, hvalue]
            · rw [get?_cons_of_ne hdiffer, hvalue']

/-! ## Last values -/

/-- The last value given for a key. -/
def last? (fields : Fields α) (key : String) : Option α :=
  get? fields.reverse key

theorem last?_concat (fields : Fields α) (key : String) (value : α)
    (other : String) :
    last? (fields ++ [(key, value)]) other =
      if key = other then some value else last? fields other := by
  rw [last?, List.reverse_concat, get?]
  rfl

theorem last?_map {β : Type} (f : α → β) (fields : Fields α) (key : String) :
    last? (fields.map fun field => (field.1, f field.2)) key =
      (last? fields key).map f := by
  rw [last?, ← List.map_reverse, get?_map]
  rfl

theorem last?_eq_none_iff : last? fields key = none ↔ key ∉ keys fields := by
  simp [last?, get?_eq_none_iff, keys]

theorem mem_of_last? (h : last? fields key = some value) :
    (key, value) ∈ fields :=
  List.mem_reverse.mp (mem_of_get? h)

/-! ## First appearances -/

theorem eraseDups_concat (names : List String) (name : String) :
    (names ++ [name]).eraseDups =
      if name ∈ names then names.eraseDups else names.eraseDups ++ [name] := by
  rw [List.eraseDups_append]
  by_cases hmem : name ∈ names <;>
    simp [hmem, List.removeAll, List.eraseDups_cons]

theorem nodup_eraseDups (names : List String) : names.eraseDups.Nodup := by
  induction names using List.reverseRecOn with
  | nil => simp
  | append_singleton names name ih =>
      rw [eraseDups_concat]
      split
      · exact ih
      · next hfresh =>
          rw [← List.concat_eq_append]
          exact ih.concat (mt List.mem_eraseDups.mp hfresh)

theorem eraseDups_perm {names names' : List String} (h : names.Perm names') :
    names.eraseDups.Perm names'.eraseDups := by
  apply (List.perm_ext_iff_of_nodup (nodup_eraseDups _) (nodup_eraseDups _)).mpr
  intro name
  rw [List.mem_eraseDups, List.mem_eraseDups, h.mem_iff]

theorem keys_insert (fields : Fields α) (key : String) (value : α) :
    keys (insert fields key value) =
      if key ∈ keys fields then keys fields else keys fields ++ [key] := by
  induction fields with
  | nil => simp [keys, insert]
  | cons field rest ih =>
      obtain ⟨first, other⟩ := field
      rw [keys, keys] at ih
      by_cases hkey : first = key
      · simp [keys, insert, hkey]
      · by_cases hmem : key ∈ rest.map Prod.fst
        · simp [keys, insert, hkey, ih, hmem]
        · simp [keys, insert, hkey, Ne.symm hkey, ih, hmem]

/-- Keys in the order of their first appearance are kept so. -/
theorem keys_insert_eq_eraseDups {names : List String}
    (h : keys fields = names.eraseDups) (key : String) (value : α) :
    keys (insert fields key value) = (names ++ [key]).eraseDups := by
  rw [keys_insert, eraseDups_concat, h]
  simp only [List.mem_eraseDups]

theorem insert_of_not_mem (h : key ∉ keys fields) :
    insert fields key value = fields ++ [(key, value)] := by
  induction fields with
  | nil => rfl
  | cons field rest ih =>
      obtain ⟨first, other⟩ := field
      obtain ⟨hkey, hrest⟩ : key ≠ first ∧ key ∉ keys rest := by
        simpa [keys] using h
      simp [insert, Ne.symm hkey, ih hrest]

theorem insert_ne_nil : insert fields key value ≠ [] := by
  intro h
  have hget := get?_insert fields key key value
  simp [h] at hget

theorem mem_insert {field : String × α} (h : field ∈ insert fields key value) :
    field = (key, value) ∨ field ∈ fields := by
  induction fields with
  | nil => exact .inl (List.mem_singleton.mp h)
  | cons first rest ih =>
      obtain ⟨name, held⟩ := first
      rw [insert] at h
      split at h
      · next hsame =>
          subst hsame
          exact (List.mem_cons.mp h).imp_right (List.mem_cons_of_mem _)
      · rcases List.mem_cons.mp h with rfl | hrest
        · exact .inr List.mem_cons_self
        · exact (ih hrest).imp_right (List.mem_cons_of_mem _)

theorem ofPairs_concat (fields : Fields α) (key : String) (value : α) :
    ofPairs (fields ++ [(key, value)]) = insert (ofPairs fields) key value := by
  simp [ofPairs]

theorem mem_of_mem_ofPairs {field : String × α} (h : field ∈ ofPairs fields) :
    field ∈ fields := by
  induction fields using List.reverseRecOn with
  | nil => exact h
  | append_singleton fields last ih =>
      rw [ofPairs_concat] at h
      rw [List.mem_append, List.mem_singleton]
      exact (mem_insert h).symm.imp_left ih

/-- Keys that are inserted stand in the order of their first appearance. -/
theorem keys_ofPairs (fields : Fields α) :
    keys (ofPairs fields) = (keys fields).eraseDups := by
  induction fields using List.reverseRecOn with
  | nil => rfl
  | append_singleton fields field ih =>
      rw [ofPairs_concat, keys_insert_eq_eraseDups ih, keys, keys,
        List.map_append]
      rfl

/-- The last value given for a key is the one that is kept. -/
theorem get?_ofPairs (fields : Fields α) (key : String) :
    get? (ofPairs fields) key = last? fields key := by
  induction fields using List.reverseRecOn with
  | nil => rfl
  | append_singleton fields field ih =>
      rw [ofPairs_concat, get?_insert, last?_concat, ih]

/-- Different keys are kept as they are given. -/
theorem ofPairs_of_nodup (h : (keys fields).Nodup) :
    ofPairs fields = fields := by
  have hfold : ∀ (before after : Fields α), (keys (before ++ after)).Nodup →
      after.foldl (fun fields pair => insert fields pair.1 pair.2) before =
        before ++ after := by
    intro before after hnodup
    induction after generalizing before with
    | nil => simp
    | cons field after ih =>
        have hfresh : field.1 ∉ keys before := by
          rw [keys, List.map_append, List.map_cons] at hnodup
          have hdisjoint := List.disjoint_of_nodup_append hnodup
          exact fun hmem => hdisjoint hmem List.mem_cons_self
        rw [List.foldl_cons, insert_of_not_mem hfresh, ih] <;> simp_all
  exact hfold [] fields h

/-! ## Ascending keys -/

/-- The order in which placed keys stand. -/
def Ascending (fields : Fields α) : Prop :=
  (keys fields).Pairwise (· < ·)

theorem Ascending.nodup (h : Ascending fields) : (keys fields).Nodup :=
  h.imp String.ne_of_lt

theorem place_perm (hfresh : key ∉ keys fields) (value : α) :
    (place fields key value).Perm ((key, value) :: fields) := by
  induction fields with
  | nil => exact .refl _
  | cons field rest ih =>
      obtain ⟨first, held⟩ := field
      obtain ⟨hkey, hrest⟩ : key ≠ first ∧ key ∉ keys rest := by simpa [keys]
          using hfresh
      rw [place, if_neg (Ne.symm hkey)]
      split
      · exact .refl _
      · exact ((ih hrest).cons _).trans (.swap _ _ _)

theorem mem_keys_place {other : String} :
    other ∈ keys (place fields key value) ↔
      other = key ∨ other ∈ keys fields := by
  have hplaced : other ∉ keys (place fields key value) ↔
      other ≠ key ∧ other ∉ keys fields := by
    rw [← get?_eq_none_iff, get?_place, ← get?_eq_none_iff]
    by_cases hsame : key = other
    · simp [hsame]
    · simp [hsame, Ne.symm hsame]
  rw [← not_iff_not, hplaced, not_or]

/-- A new key goes before the first greater one, so the order is kept. -/
theorem Ascending.place (h : Ascending fields) (key : String) (value : α) :
    Ascending (place fields key value) := by
  induction fields with
  | nil => simp [Fields.place, Ascending, keys]
  | cons field rest ih =>
      obtain ⟨first, held⟩ := field
      obtain ⟨hfirst, hrest⟩ := List.pairwise_cons.mp h
      rw [Fields.place]
      split_ifs with hsame hbefore
      · exact h
      · refine List.pairwise_cons.mpr ⟨?_, h⟩
        exact List.forall_mem_cons.mpr
          ⟨hbefore, fun other hmem =>
            String.lt_trans hbefore (hfirst other hmem)⟩
      · have hafter : first < key := by
          by_contra hlt
          exact hsame
            (String.le_antisymm (String.not_lt.mp hbefore)
              (String.not_lt.mp hlt))
        refine List.pairwise_cons.mpr ⟨fun other hmem => ?_, ih hrest⟩
        rcases mem_keys_place.mp hmem with rfl | hmem
        · exact hafter
        · exact hfirst other hmem

theorem placeAll_concat (fields : Fields α) (key : String) (value : α) :
    placeAll (fields ++ [(key, value)]) =
      place (placeAll fields) key value := by
  simp [placeAll]

/-- Keys that are placed stand in ascending order, however they were given. -/
theorem ascending_placeAll (fields : Fields α) :
    Ascending (placeAll fields) := by
  induction fields using List.reverseRecOn with
  | nil => exact List.Pairwise.nil
  | append_singleton fields field ih =>
      rw [placeAll_concat]
      exact ih.place _ _

theorem get?_placeAll (fields : Fields α) (key : String) :
    get? (placeAll fields) key = last? fields key := by
  induction fields using List.reverseRecOn with
  | nil => rfl
  | append_singleton fields field ih =>
      rw [placeAll_concat, get?_place, last?_concat, ih]

theorem mem_keys_placeAll : key ∈ keys (placeAll fields) ↔
    key ∈ keys fields := by
  rw [← not_iff_not, ← get?_eq_none_iff, get?_placeAll, last?_eq_none_iff]

theorem placeAll_perm (h : (keys fields).Nodup) :
    (placeAll fields).Perm fields := by
  induction fields using List.reverseRecOn with
  | nil => exact .refl _
  | append_singleton fields field ih =>
      have hperm : (keys (fields ++ [field])).Perm (field.1 :: keys fields) :=
        (List.perm_append_singleton _ _).map Prod.fst
      obtain ⟨hfresh, hnodup⟩ := List.nodup_cons.mp (hperm.nodup_iff.mp h)
      have hplaced : field.1 ∉ keys (placeAll fields) :=
        mt ((ih hnodup).map Prod.fst).mem_iff.mp hfresh
      rw [placeAll_concat]
      exact (place_perm hplaced _).trans
        (((ih hnodup).cons _).trans (List.perm_append_singleton _ _).symm)

/-- Whatever order entries are given in, they are kept in ascending order of
keys. -/
theorem placeAll_of_perm (h : Ascending fields) (hperm : other.Perm fields) :
    placeAll other = fields := by
  have hnodup : (keys other).Nodup := (hperm.map Prod.fst).nodup_iff.mpr h.nodup
  have hsorted : (placeAll other).Pairwise fun entry next => entry.1 < next.1 :=
    List.pairwise_map.mp (ascending_placeAll other)
  exact List.Perm.eq_of_pairwise (fun _ _ _ _ hlt hgt =>
    absurd hgt (String.lt_asymm hlt))
    hsorted (List.pairwise_map.mp h) ((placeAll_perm hnodup).trans hperm)

end Aggregation.Fields
