import Aggregation.Catalog.Load
import Mathlib.Init

/-!
# Loading

A load takes definition files one after another.  After a file that can be read
it goes on, and a lenient one goes on after any.  Where it goes on after each
its catalog is made of the definitions of those that can be read, and where it
does not it is strict and ends at the first file that cannot be read.
-/

namespace Aggregation

/-! ## Logged steps -/

namespace LoggedExcept

variable {ε α β : Type}

theorem run_bind (body : LoggedExcept ε α) (next : α → LoggedExcept ε β)
    (log : List Event) :
    (body >>= next).run log =
      match body.run log with
      | (.ok value, after) => (next value).run after
      | (.error error, after) => (.error error, after) := by
  change (ExceptT.bind body next).run log = _
  simp only [ExceptT.bind, ExceptT.run, ExceptT.mk, bind, StateT.bind]
  rcases h : body log with ⟨result | value, after⟩ <;> rfl

theorem run_emit_bind (event : Event) (next : Unit → LoggedExcept ε β)
    (log : List Event) :
    ((emit event : LoggedExcept ε Unit) >>= next).run log =
      (next ()).run (log ++ [event]) :=
  rfl

theorem run_mk_pure (result : Except ε α) (log : List Event) :
    (ExceptT.mk (pure result) : LoggedExcept ε α).run log = (result, log) :=
  rfl

/-- Events that are left behind one after another. -/
theorem run_forM_emit_bind (items : List α) (event : α → Event)
    (next : Unit → LoggedExcept ε β) (log : List Event) :
    ((items.forM fun item => (emit (event item) : LoggedExcept ε Unit)) >>=
      next).run log = (next ()).run (log ++ items.map event) := by
  induction items generalizing log with
  | nil => simp [List.forM]
  | cons item items ih =>
      rw [List.forM, bind_assoc, run_emit_bind, ih]
      simp

end LoggedExcept

/-! ## Single files -/

namespace Definition

variable {files files' : Files} {path : String} {definition : Definition}
  {error : CatalogError}

/-- A file is read as a definition if its format is known, it is a text, the
text is a definition in that format, and there is nothing wrong with the
definition. -/
theorem loadFile_eq_ok_iff :
    loadFile files path = .ok definition ↔
      ∃ format text, DefinitionFormat.ofPath? path = some format ∧
        files.readText path = .ok text ∧ parse? format text = some definition ∧
        definition.check = .ok () := by
  constructor
  · intro h
    unfold loadFile at h
    split at h
    · cases h
    · next format hformat =>
        split at h
        · cases h
        · next text htext =>
            split at h
            · cases h
            · next parsed hparsed =>
                split at h
                · cases h
                · next hcheck =>
                    obtain rfl := Except.ok.inj h
                    exact ⟨format, text, hformat, htext, hparsed, hcheck⟩
  · rintro ⟨format, text, hformat, htext, hparsed, hcheck⟩
    simp [loadFile, hformat, htext, hparsed, hcheck]

/-- A file is refused for its format, for want of a text, for a text that is no
definition, or for what is wrong with the definition. -/
theorem loadFile_eq_error (h : loadFile files path = .error error) :
    (DefinitionFormat.ofPath? path = none ∧ error = .unsupportedFormat path) ∨
      (∃ fault, files.readText path = .error fault ∧
        error = .unreadable path fault.text) ∨
      error = .malformed path ∨
      ∃ parsed inner, check parsed = .error inner ∧
        error = .invalid path inner := by
  unfold loadFile at h
  split at h
  · next hformat => exact .inl ⟨hformat, (Except.error.inj h).symm⟩
  · split at h
    · next fault htext =>
        exact .inr (.inl ⟨fault, htext, (Except.error.inj h).symm⟩)
    · split at h
      · exact .inr (.inr (.inl (Except.error.inj h).symm))
      · next parsed _ =>
          split at h
          · next inner hcheck =>
              exact .inr (.inr (.inr
                ⟨parsed, inner, hcheck, (Except.error.inj h).symm⟩))
          · cases h

/-- An error about one file does not keep a lenient load from the others. -/
theorem loadFile_not_fatal (h : loadFile files path = .error error) :
    error.isFatal = false := by
  rcases loadFile_eq_error h with ⟨-, rfl⟩ | ⟨_, -, rfl⟩ | rfl
    | ⟨_, _, -, rfl⟩ <;> rfl

theorem loadFile_ne_unsupportedFormat
    (hknown : (DefinitionFormat.ofPath? path).isSome) (other : String) :
    loadFile files path ≠ .error (.unsupportedFormat other) := by
  intro h
  rcases loadFile_eq_error h with ⟨hunknown, -⟩ | ⟨_, -, hother⟩ | hother
    | ⟨_, _, -, hother⟩
  · rw [hunknown] at hknown
    cases hknown
  · cases hother
  · cases hother
  · cases hother

/-- Whatever is read from a file depends on the file alone. -/
theorem loadFile_congr (h : files.find path = files'.find path) :
    loadFile files path = loadFile files' path := by
  have htext : files.readText path = files'.readText path := by
    rw [Files.readText, Files.readText, Files.read, Files.read, h]
  rw [loadFile, loadFile, htext]

/-- The definitions of those files that can be read. -/
def loadable (files : Files) (paths : List String) : List Definition :=
  paths.filterMap fun path => (loadFile files path).toOption

end Definition

/-! ## Adding files -/

namespace Catalog

variable {files files' : Files} {dir : String} {strict : Bool}
  {progress : Progress} {path : String} {paths before rest : List String}
  {error : CatalogError}

/-- The progress after one more file, where the load does not end at it. -/
def Progress.after (files : Files) (progress : Progress)
    (path : String) : Progress :=
  match Definition.loadFile files path with
  | .ok definition =>
    { progress with catalog := progress.catalog.add definition }
  | .error _ => { progress with skipped := progress.skipped + 1 }

/-- What is logged about one more file, where the load does not end at it. -/
def Progress.events (files : Files) (progress : Progress) (path : String) :
    List Event :=
  match Definition.loadFile files path with
  | .ok definition =>
    (if progress.catalog.contains definition.name then
      [.aggregationReplaced definition.name path] else []) ++
      [.aggregationLoaded definition.name path]
  | .error error => [.aggregationSkipped error.path error.message]

/-- What is logged about files one after another. -/
def Progress.trace (files : Files) (progress : Progress) :
    List String → List Event
  | [] => []
  | path :: paths =>
    progress.events files path ++ (progress.after files path).trace files paths

/-- A load goes on after a file that can be read, and a lenient one after
any. -/
def GoesOn (files : Files) (strict : Bool) (path : String) : Prop :=
  strict = false ∨ ∃ definition, Definition.loadFile files path = .ok definition

theorem run_addFile_of_goesOn (h : GoesOn files strict path)
    (log : List Event) :
    (addFile files strict progress path).run log =
      (.ok (progress.after files path), log ++ progress.events files path) := by
  unfold addFile Progress.after Progress.events
  cases hload : Definition.loadFile files path with
  | ok definition =>
      change (if progress.catalog.contains definition.name then
        (_ : LoggedExcept _ _) else _).run log = _
      by_cases hreplaced : progress.catalog.contains definition.name
      · simp only [if_pos hreplaced, LoggedExcept.run_emit_bind,
          List.append_assoc]
        rfl
      · simp only [if_neg hreplaced, LoggedExcept.run_emit_bind]
        rfl
  | error error =>
      rcases h with rfl | ⟨definition, hdefinition⟩
      · simp only [Definition.loadFile_not_fatal hload]
        rfl
      · rw [hload] at hdefinition
        cases hdefinition

theorem run_addFile_of_refused
    (h : Definition.loadFile files path = .error error) (log : List Event) :
    (addFile files true progress path).run log = (.error error, log) := by
  unfold addFile
  rw [h]
  rfl

/-- A load that goes on after each file gets to the end of them. -/
theorem run_addFiles_of_goesOn (h : ∀ path ∈ paths, GoesOn files strict path)
    (log : List Event) :
    (paths.foldlM (addFile files strict) progress).run log =
      (.ok (paths.foldl (Progress.after files) progress),
        log ++ progress.trace files paths) := by
  induction paths generalizing progress log with
  | nil =>
      rw [Progress.trace, List.append_nil]
      rfl
  | cons path paths ih =>
      obtain ⟨hfirst, hrest⟩ := List.forall_mem_cons.mp h
      rw [List.foldlM_cons, LoggedExcept.run_bind, run_addFile_of_goesOn hfirst]
      simp only [ih hrest, List.foldl_cons, Progress.trace, List.append_assoc]

/-- A strict load ends at the first file that cannot be read. -/
theorem run_addFiles_of_refused
    (hbefore : ∀ path ∈ before, GoesOn files true path)
    (h : Definition.loadFile files path = .error error) (log : List Event) :
    ((before ++ path :: rest).foldlM (addFile files true) progress).run log =
      (.error error, log ++ progress.trace files before) := by
  rw [List.foldlM_append, LoggedExcept.run_bind, run_addFiles_of_goesOn hbefore]
  simp only [List.foldlM_cons, LoggedExcept.run_bind, run_addFile_of_refused h]

/-- Either a load goes on after each file, or it is strict and there is a first
file that cannot be read. -/
theorem goesOn_or_refused (files : Files) (strict : Bool)
    (paths : List String) :
    (∀ path ∈ paths, GoesOn files strict path) ∨
      strict = true ∧ ∃ before path rest error, paths = before ++ path :: rest ∧
        (∀ earlier ∈ before, GoesOn files true earlier) ∧
        Definition.loadFile files path = .error error := by
  cases strict with
  | false => exact .inl fun _ _ => .inl rfl
  | true =>
      induction paths with
      | nil => exact .inl nofun
      | cons path paths ih =>
          cases hload : Definition.loadFile files path with
          | error error =>
              exact .inr ⟨rfl, [], path, paths, error, rfl, nofun, hload⟩
          | ok definition =>
              have hgoesOn : GoesOn files true path := .inr ⟨definition, hload⟩
              rcases ih with
                hall | ⟨-, before, refused, rest, error, rfl, hbefore, hrefused⟩
              · exact .inl (List.forall_mem_cons.mpr ⟨hgoesOn, hall⟩)
              · exact .inr ⟨rfl, path :: before, refused, rest, error, rfl,
                  List.forall_mem_cons.mpr ⟨hgoesOn, hbefore⟩, hrefused⟩

/-- Files that can be read are added to the catalog in order. -/
theorem catalog_foldl_after (files : Files) (paths : List String)
    (progress : Progress) :
    (paths.foldl (Progress.after files) progress).catalog =
      (Definition.loadable files paths).foldl add progress.catalog := by
  induction paths generalizing progress with
  | nil => rfl
  | cons path paths ih =>
      rw [List.foldl_cons, ih, Progress.after, Definition.loadable,
        Definition.loadable, List.filterMap_cons]
      cases Definition.loadFile files path <;> rfl

/-! ## Whole loads -/

/-- What is logged after the last file. -/
def Progress.conclusion (progress : Progress) : List Event :=
  progress.catalog.issues.map .catalogIssue ++
    [.catalogLoaded progress.catalog.size progress.skipped]

/-- A load that goes on after each file has the definitions of those that can be
read. -/
theorem collect_load_of_goesOn (hpaths : definitionFiles files dir = .ok paths)
    (h : ∀ path ∈ paths, GoesOn files strict path) :
    (load files dir strict).collect =
      (.ok (ofList (Definition.loadable files paths)),
        .catalogLoadStart dir strict :: (Progress.trace files {} paths ++
          (paths.foldl (Progress.after files) {}).conclusion)) := by
  rw [ofList, ← catalog_foldl_after files paths {}, Progress.conclusion]
  rw [LoggedExcept.collect, load, LoggedExcept.run_emit_bind, hpaths,
    LoggedExcept.run_bind, LoggedExcept.run_mk_pure]
  dsimp only
  rw [LoggedExcept.run_bind, run_addFiles_of_goesOn h]
  dsimp only
  rw [LoggedExcept.run_forM_emit_bind, LoggedExcept.run_emit_bind,
    List.append_assoc, List.append_assoc]
  rfl

/-- A strict load ends with the error of the first file that cannot be read. -/
theorem collect_load_of_refused
    (hpaths : definitionFiles files dir = .ok (before ++ path :: rest))
    (hbefore : ∀ path ∈ before, GoesOn files true path)
    (h : Definition.loadFile files path = .error error) :
    (load files dir true).collect =
      (.error error, .catalogLoadStart dir true ::
        Progress.trace files {} before) := by
  rw [LoggedExcept.collect, load, LoggedExcept.run_emit_bind, hpaths,
    LoggedExcept.run_bind, LoggedExcept.run_mk_pure]
  dsimp only
  rw [LoggedExcept.run_bind, run_addFiles_of_refused hbefore h]
  rfl

theorem collect_load_of_unreadable
    (h : definitionFiles files dir = .error error) (strict : Bool) :
    (load files dir strict).collect =
      (.error error, [.catalogLoadStart dir strict]) := by
  rw [LoggedExcept.collect, load, LoggedExcept.run_emit_bind, h]
  rfl

theorem addFiles_congr
    (h : ∀ path ∈ paths,
      Definition.loadFile files path = Definition.loadFile files' path)
    (strict : Bool) (progress : Progress) :
    paths.foldlM (addFile files strict) progress =
      paths.foldlM (addFile files' strict) progress := by
  induction paths generalizing progress with
  | nil => rfl
  | cons path paths ih =>
      obtain ⟨hfirst, hrest⟩ := List.forall_mem_cons.mp h
      simp only [List.foldlM_cons, ih hrest]
      rw [addFile, addFile, hfirst]

/-- A load depends on its files only by their paths and by what is read from
each. -/
theorem load_congr (hpaths : definitionFiles files dir = .ok paths)
    (hpaths' : definitionFiles files' dir = .ok paths)
    (h : ∀ path ∈ paths,
      Definition.loadFile files path = Definition.loadFile files' path)
    (strict : Bool) : load files dir strict = load files' dir strict := by
  have hpure : (ExceptT.mk (pure (.ok paths)) : LoggedExcept CatalogError _) =
      pure paths :=
    rfl
  simp only [load, hpaths, hpaths', hpure, pure_bind, addFiles_congr h]

/-! ## What loads come to -/

section Ends

variable (hpaths : definitionFiles files dir = .ok paths)

include hpaths

theorem load_lenient :
    (load files dir false).collect.1 =
      .ok (ofList (Definition.loadable files paths)) := by
  rw [collect_load_of_goesOn hpaths fun _ _ => .inl rfl]

/-- A load that succeeds has the definitions of the files that can be read, and
a strict one does only where that is all of them. -/
theorem load_eq_ok_iff {strict : Bool} {catalog : Catalog} :
    (load files dir strict).collect.1 = .ok catalog ↔
      (∀ path ∈ paths, GoesOn files strict path) ∧
        catalog = ofList (Definition.loadable files paths) := by
  rcases goesOn_or_refused files strict paths with
    hall | ⟨rfl, before, refused, rest, error, rfl, hbefore, hrefused⟩
  · rw [collect_load_of_goesOn hpaths hall, Except.ok.injEq, eq_comm]
    exact (and_iff_right hall).symm
  · rw [collect_load_of_refused hpaths hbefore hrefused]
    refine ⟨nofun, fun ⟨hall, _⟩ => ?_⟩
    rcases hall refused (by simp) with hlenient | ⟨definition, hdefinition⟩
    · cases hlenient
    · rw [hrefused] at hdefinition
      cases hdefinition

/-- A strict load that fails does so with the first file that cannot be read. -/
theorem load_strict_eq_error_iff {error : CatalogError} :
    (load files dir true).collect.1 = .error error ↔
      ∃ before path rest, paths = before ++ path :: rest ∧
        (∀ earlier ∈ before, ∃ definition,
          Definition.loadFile files earlier = .ok definition) ∧
        Definition.loadFile files path = .error error := by
  constructor
  · intro h
    rcases goesOn_or_refused files true paths with
      hall | ⟨-, before, refused, rest, other, rfl, hbefore, hrefused⟩
    · rw [collect_load_of_goesOn hpaths hall] at h
      cases h
    · rw [collect_load_of_refused hpaths hbefore hrefused] at h
      obtain rfl := Except.error.inj h
      exact ⟨before, refused, rest, rfl,
        fun earlier hmem => (hbefore earlier hmem).resolve_left nofun, hrefused⟩
  · rintro ⟨before, path, rest, rfl, hbefore, hrefused⟩
    rw [collect_load_of_refused hpaths
      (fun earlier hmem => .inr (hbefore earlier hmem)) hrefused]

end Ends

end Catalog

end Aggregation
