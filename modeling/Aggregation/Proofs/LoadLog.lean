import Aggregation.Proofs.DirectoryLoading
import Aggregation.Proofs.Lookup

/-!
# The log of a load

A load logs its start, then what becomes of each definition file, in order, and
if it succeeds what is found about the catalog and how much was loaded.  What it
says of a file follows from that file and from the ones before it, and its
closing counts are those of the events before.
-/

namespace Aggregation

/-- How many events of this name a log has. -/
def Event.count (name : String) (log : List Event) : ℕ :=
  log.countP fun event => event.name = name

namespace Event

theorem count_append (name : String) (first second : List Event) :
    count name (first ++ second) = count name first + count name second :=
  List.countP_append

theorem count_cons (name : String) (event : Event) (log : List Event) :
    count name (event :: log) = count name log + if event.name =
      name then 1 else 0 := by
  simp [count, List.countP_cons]

theorem count_findings {name : String} (hname : name ≠ "CATALOG_ISSUE")
    (issues : List Issue) : count name (issues.map .catalogIssue) = 0 := by
  apply List.countP_eq_zero.mpr
  intro event hmem
  obtain ⟨issue, -, rfl⟩ := List.mem_map.mp hmem
  exact fun hsame => hname (of_decide_eq_true hsame).symm

end Event

namespace Catalog

variable {files : Files} {dir : String} {strict : Bool} {progress : Progress}
  {paths : List String}

/-! ## Single files -/

/-- What the log has about a file that comes after others: that it was skipped,
or that a definition was loaded from it, which may have replaced one that an
earlier file supplied. -/
def fileEvents (files : Files) (earlier : List String) (path : String) :
    List Event :=
  match Definition.loadFile files path with
  | .error error => [.aggregationSkipped path error.message]
  | .ok definition =>
    if definition.name ∈
        (Definition.loadable files earlier).map Definition.name then
      [.aggregationReplaced definition.name path,
        .aggregationLoaded definition.name path]
    else [.aggregationLoaded definition.name path]

/-- What the log has about files one after another, and after the earlier
ones. -/
def filesEvents (files : Files) (earlier : List String) :
    List String → List Event
  | [] => []
  | path :: paths =>
    fileEvents files earlier path ++ filesEvents files (earlier ++ [path]) paths

/-- An error about a file names it. -/
theorem path_of_loadFile {path : String} {error : CatalogError}
    (h : Definition.loadFile files path = .error error) :
    error.path = path := by
  rcases Definition.loadFile_eq_error h with ⟨-, rfl⟩ | ⟨_, -, rfl⟩ | rfl
    | ⟨_, _, -, rfl⟩ <;>
    rfl

theorem loadable_concat (files : Files) (earlier : List String)
    (path : String) :
    Definition.loadable files (earlier ++ [path]) =
      Definition.loadable files earlier ++
        (Definition.loadFile files path).toOption.toList := by
  simp only [Definition.loadable, List.filterMap_append, List.filterMap_cons]
  cases Definition.loadFile files path <;> rfl

/-- A catalog made of what can be read of earlier files, after one more of
them. -/
theorem catalog_after {earlier : List String}
    (hcatalog : progress.catalog = ofList (Definition.loadable files earlier))
    (path : String) :
    (progress.after files path).catalog =
      ofList (Definition.loadable files (earlier ++ [path])) := by
  rw [loadable_concat, Progress.after]
  cases Definition.loadFile files path with
  | error error => simpa [Except.toOption] using hcatalog
  | ok definition => simp [Except.toOption, hcatalog, ofList]

theorem events_eq_fileEvents {earlier : List String}
    (hcatalog : progress.catalog = ofList (Definition.loadable files earlier))
    (path : String) :
    progress.events files path = fileEvents files earlier path := by
  unfold Progress.events fileEvents
  cases hload : Definition.loadFile files path with
  | error error =>
      dsimp only
      rw [path_of_loadFile hload]
  | ok definition =>
      dsimp only
      rw [hcatalog]
      simp only [contains_ofList]
      split <;> rfl

/-- The log of the files tells of each what follows from the ones before. -/
theorem trace_eq_filesEvents {earlier : List String}
    (hcatalog : progress.catalog = ofList (Definition.loadable files earlier))
    (paths : List String) :
    progress.trace files paths = filesEvents files earlier paths := by
  induction paths generalizing earlier progress with
  | nil => rfl
  | cons path paths ih =>
      rw [Progress.trace, filesEvents, events_eq_fileEvents hcatalog,
        ih (catalog_after hcatalog path)]

theorem trace_from_empty (files : Files) (paths : List String) :
    Progress.trace files {} paths = filesEvents files [] paths :=
  trace_eq_filesEvents rfl paths

/-! ## Counts -/

/-- What a progress has over an earlier one is what was logged in between, about
so many files. -/
structure Tallies (before after : Progress) (log : List Event)
    (files : ℕ) : Prop where
  skipped : after.skipped =
    before.skipped + Event.count "AGGREGATION_SKIPPED" log
  size : after.catalog.size + Event.count "AGGREGATION_REPLACED" log =
    before.catalog.size + Event.count "AGGREGATION_LOADED" log
  files : Event.count "AGGREGATION_LOADED" log +
    Event.count "AGGREGATION_SKIPPED" log = files
  unfinished : Event.count "CATALOG_LOADED" log = 0

theorem Tallies.refl (progress : Progress) :
    Tallies progress progress [] 0 where
  skipped := rfl
  size := rfl
  files := rfl
  unfinished := rfl

theorem Tallies.append {before between after : Progress}
    {first second : List Event} {here later : ℕ}
    (hfirst : Tallies before between first here)
    (hsecond : Tallies between after second later) :
    Tallies before after (first ++ second) (here + later) := by
  have hskipped := hfirst.skipped
  have hskipped' := hsecond.skipped
  have hsize := hfirst.size
  have hsize' := hsecond.size
  have hfiles := hfirst.files
  have hfiles' := hsecond.files
  have hunfinished := hfirst.unfinished
  have hunfinished' := hsecond.unfinished
  constructor <;> simp only [Event.count_append] <;> omega

/-- Each file is skipped, or adds a definition or replaces one. -/
theorem tallies_after (files : Files) (progress : Progress) (path : String) :
    Tallies progress (progress.after files path)
      (progress.events files path) 1 := by
  unfold Progress.after Progress.events
  cases Definition.loadFile files path with
  | error error => constructor <;> simp [Event.count, Event.name]
  | ok definition =>
      have hsize := progress.catalog.size_add definition
      by_cases hreplaced : progress.catalog.contains definition.name <;>
        constructor <;> simp [Event.count, Event.name, hsize, hreplaced]

theorem tallies_foldl (files : Files) (paths : List String)
    (progress : Progress) :
    Tallies progress (paths.foldl (Progress.after files) progress)
      (progress.trace files paths) paths.length := by
  induction paths generalizing progress with
  | nil => exact .refl progress
  | cons path paths ih =>
      rw [List.foldl_cons, Progress.trace, List.length_cons, Nat.add_comm]
      exact (tallies_after files progress path).append (ih _)

/-! ## Whole loads -/

/-- The names of the definition files of a directory, in order. -/
structure AreDefinitionNames (files : Files) (dir : String)
    (names : List String) : Prop where
  ascending : names.Pairwise (· ≤ ·)
  all : ∃ entries, files.list dir = .ok entries ∧
    names.Perm ((Fields.keys entries).filter fun name =>
      files.isFile (Path.join dir name) &&
        (DefinitionFormat.ofPath? (Path.join dir name)).isSome)

theorem exists_names_of_definitionFiles
    (h : definitionFiles files dir = .ok paths) :
    ∃ names, AreDefinitionNames files dir names ∧
      paths = names.map (Path.join dir) := by
  unfold definitionFiles at h
  split at h
  · cases h
  · next entries hlist =>
      refine ⟨_, ⟨?_, entries, hlist, List.mergeSort_perm _ _⟩,
        (Except.ok.inj h).symm⟩
      exact List.pairwise_mergeSort' (fun first second : String =>
        first ≤ second) _

theorem definitionFiles_eq_error {error : CatalogError}
    (h : definitionFiles files dir = .error error) :
    ∃ fault, files.list dir = .error fault ∧
      error = .directoryUnreadable dir fault.text := by
  unfold definitionFiles at h
  split at h
  · next fault hlist => exact ⟨fault, hlist, (Except.error.inj h).symm⟩
  · cases h

/-- A load that succeeds has told of each file, and closes with what it has come
to. -/
theorem log_of_load_eq_ok {catalog : Catalog} {log : List Event}
    (h : (load files dir strict).collect = (.ok catalog, log)) :
    ∃ names progress, AreDefinitionNames files dir names ∧
      progress.catalog = catalog ∧
      Tallies {} progress (filesEvents files [] (names.map (Path.join dir)))
        names.length ∧
      log = .catalogLoadStart dir strict ::
        (filesEvents files [] (names.map (Path.join dir)) ++
          progress.conclusion) := by
  cases hpaths : definitionFiles files dir with
  | error error =>
      rw [collect_load_of_unreadable hpaths] at h
      cases h
  | ok paths =>
      obtain ⟨names, hnames, rfl⟩ := exists_names_of_definitionFiles hpaths
      rcases goesOn_or_refused files strict (names.map (Path.join dir)) with
        hall | ⟨rfl, before, refused, rest, error, hsplit, hbefore, hrefused⟩
      · have htallies := tallies_foldl files (names.map (Path.join dir)) {}
        rw [trace_from_empty, List.length_map] at htallies
        rw [collect_load_of_goesOn hpaths hall, trace_from_empty] at h
        obtain ⟨hcatalog, rfl⟩ := Prod.mk.inj h
        rw [Except.ok.injEq, ofList, ← catalog_foldl_after files _ {}]
          at hcatalog
        exact ⟨names, _, hnames, hcatalog, htallies, rfl⟩
      · rw [hsplit] at hpaths
        rw [collect_load_of_refused hpaths hbefore hrefused] at h
        cases h

/-- A load that fails has told of the files before the one that is refused, if
it got to any. -/
theorem log_of_load_eq_error {error : CatalogError} {log : List Event}
    (h : (load files dir strict).collect = (.error error, log)) :
    (∃ fault, files.list dir = .error fault ∧
        error = .directoryUnreadable dir fault.text ∧
          log = [.catalogLoadStart dir strict]) ∨
      strict = true ∧ ∃ before name after,
        AreDefinitionNames files dir (before ++ name :: after) ∧
        (∀ earlier ∈ before, ∃ definition,
          Definition.loadFile files (Path.join dir earlier) = .ok definition) ∧
        Definition.loadFile files (Path.join dir name) = .error error ∧
        log = .catalogLoadStart dir strict ::
          filesEvents files [] (before.map (Path.join dir)) := by
  cases hpaths : definitionFiles files dir with
  | error unreadable =>
      obtain ⟨fault, hlist, rfl⟩ := definitionFiles_eq_error hpaths
      rw [collect_load_of_unreadable hpaths] at h
      cases h
      exact .inl ⟨fault, hlist, rfl, rfl⟩
  | ok paths =>
      obtain ⟨names, hnames, rfl⟩ := exists_names_of_definitionFiles hpaths
      rcases goesOn_or_refused files strict (names.map (Path.join dir)) with
        hall | ⟨rfl, before, refused, rest, other, hsplit, hbefore, hrefused⟩
      · rw [collect_load_of_goesOn hpaths hall] at h
        cases h
      · rw [hsplit] at hpaths
        rw [collect_load_of_refused hpaths hbefore hrefused, trace_from_empty]
          at h
        cases h
        obtain ⟨earlier, later, rfl, rfl, hlater⟩ :=
          List.map_eq_append_iff.mp hsplit
        obtain ⟨name, after, rfl, rfl, rfl⟩ := List.map_eq_cons_iff.mp hlater
        refine .inr ⟨rfl, earlier, name, after, hnames, fun path hmem => ?_,
          hrefused, rfl⟩
        exact (hbefore _ (List.mem_map_of_mem hmem)).resolve_left nofun

theorem count_filesEvents_eq_zero (files : Files) (paths : List String) :
    Event.count "CATALOG_LOADED" (filesEvents files [] paths) = 0 := by
  rw [← trace_from_empty]
  exact (tallies_foldl files paths {}).unfinished

/-- Events that are neither about the start nor about the end of a load are
those in between. -/
theorem count_load {name : String}
    (hname : name ∉ ["CATALOG_LOAD_START", "CATALOG_ISSUE", "CATALOG_LOADED"])
    (dir : String) (strict : Bool) (between : List Event)
    (progress : Progress) :
    Event.count name (.catalogLoadStart dir strict ::
      (between ++ progress.conclusion)) = Event.count name between := by
  simp only [List.mem_cons, List.not_mem_nil, or_false, not_or] at hname
  obtain ⟨hstart, hissue, hloaded⟩ := hname
  rw [Event.count_cons, Event.count_append, Progress.conclusion,
    Event.count_append, Event.count_findings hissue, Event.count_cons]
  simp [Event.name, Ne.symm hstart, Ne.symm hloaded, Event.count]

end Catalog

/-- The log of a load accounts for every file.  If the load succeeds it tells of
its start, of each definition file in order, of each finding about the catalog
in order, and of its end, with the number of events about skipped files and with
as many aggregations as events about loaded ones less events about replaced
ones.  If it fails it ends with what it has to tell of the files before the one
that is refused. -/
theorem load_log_accounts (files : Files) (dir : String) (strict : Bool) :
    (∀ catalog log, (Catalog.load files dir strict).collect =
      (.ok catalog, log) →
      ∃ names skipped, Catalog.AreDefinitionNames files dir names ∧
        log = .catalogLoadStart dir strict ::
          (Catalog.filesEvents files [] (names.map (Path.join dir)) ++
            catalog.issues.map .catalogIssue ++
              [.catalogLoaded catalog.size skipped]) ∧
        skipped = Event.count "AGGREGATION_SKIPPED" log ∧
        Event.count "AGGREGATION_LOADED" log +
          Event.count "AGGREGATION_SKIPPED" log = names.length ∧
        catalog.size + Event.count "AGGREGATION_REPLACED" log =
          Event.count "AGGREGATION_LOADED" log) ∧
    ∀ error log, (Catalog.load files dir strict).collect = (.error error, log) →
      Event.count "CATALOG_LOADED" log = 0 ∧
      ((∃ fault, files.list dir = .error fault ∧
          error = .directoryUnreadable dir fault.text ∧
          log = [.catalogLoadStart dir strict]) ∨
        strict = true ∧ ∃ before name after,
          Catalog.AreDefinitionNames files dir (before ++ name :: after) ∧
          (∀ earlier ∈ before, ∃ definition,
            Definition.loadFile files (Path.join dir earlier) =
              .ok definition) ∧
          Definition.loadFile files (Path.join dir name) = .error error ∧
          log = .catalogLoadStart dir strict ::
            Catalog.filesEvents files [] (before.map (Path.join dir))) := by
  refine ⟨fun catalog log h => ?_, fun error log h => ?_⟩
  · obtain ⟨names, progress, hnames, rfl, htallies, rfl⟩ :=
      Catalog.log_of_load_eq_ok h
    refine ⟨names, progress.skipped, hnames, ?_, ?_, ?_, ?_⟩
    · rw [Catalog.Progress.conclusion, List.append_assoc]
    · rw [Catalog.count_load (by decide), htallies.skipped]
      exact Nat.zero_add _
    · rw [Catalog.count_load (by decide), Catalog.count_load (by decide),
        htallies.files]
    · rw [Catalog.count_load (by decide), Catalog.count_load (by decide),
        htallies.size]
      exact Nat.zero_add _
  · have hlog := Catalog.log_of_load_eq_error h
    refine ⟨?_, hlog⟩
    rcases hlog with ⟨fault, -, -, rfl⟩
      | ⟨rfl, before, name, after, -, -, -, rfl⟩
    · rfl
    · rw [Event.count_cons, Catalog.count_filesEvents_eq_zero]
      rfl

/-! A directory with one definition in two files, and a text between them that
is none. -/

def FileTree.doubled : List (String × FileTree) :=
  [("c.json", .file Definition.ordersText.toUTF8.data.toList),
    ("b.json", .file []),
    ("a.json", .file Definition.ordersText.toUTF8.data.toList)]

def Files.doubled : Files :=
  .within (.directory [("aggs", .directory FileTree.doubled)])

theorem Definition.loadFile_doubled {path : String}
    (hpath : path ∈ ["aggs/a.json", "aggs/c.json"]) :
    loadFile .doubled path = .ok orders := by
  have hformat : DefinitionFormat.ofPath? path = some .json := by
    revert path
    decide
  have hfind :
      Files.doubled.find path = .ok (.file ordersText.toUTF8.data.toList) := by
    simp only [List.mem_cons, List.not_mem_nil, or_false] at hpath
    rcases hpath with rfl | rfl <;> rfl
  exact loadFile_eq_ok_iff.mpr
    ⟨.json, ordersText, hformat, Files.readText_of_find hfind, by cbv, rfl⟩

theorem Definition.loadFile_doubled_empty :
    loadFile .doubled "aggs/b.json" = .error (.malformed "aggs/b.json") := by
  have hformat : DefinitionFormat.ofPath? "aggs/b.json" = some .json := rfl
  have htext : Files.doubled.readText "aggs/b.json" = .ok "" :=
    Files.readText_of_find rfl
  have hparsed : parse? .json "" = none := by cbv
  rw [loadFile, hformat]
  simp only [htext, hparsed]

theorem Catalog.names_doubled {names : List String}
    (h : AreDefinitionNames .doubled "aggs" names) :
    names = ["a.json", "b.json", "c.json"] := by
  obtain ⟨entries, hlist, hperm⟩ := h.all
  cases hlist
  have hnames : names.Perm ["c.json", "b.json", "a.json"] := hperm
  apply (hnames.trans (by decide)).eq_of_pairwise _ h.ascending (by decide)
  exact fun first second _ _ hle hge => String.le_antisymm hle hge

theorem Catalog.definitionFiles_doubled :
    definitionFiles .doubled "aggs" =
      .ok ["aggs/a.json", "aggs/b.json", "aggs/c.json"] := by
  cases h : definitionFiles .doubled "aggs" with
  | error error =>
      obtain ⟨fault, hlist, -⟩ := definitionFiles_eq_error h
      cases hlist
  | ok paths =>
      obtain ⟨names, hnames, rfl⟩ := exists_names_of_definitionFiles h
      rw [names_doubled hnames]
      rfl

theorem Catalog.load_doubled :
    (load .doubled "aggs" false).collect.1 = .ok (.ofList [.orders]) := by
  rw [load_lenient definitionFiles_doubled]
  simp [Definition.loadable, Definition.loadFile_doubled,
    Definition.loadFile_doubled_empty, Except.toOption]
  rfl

theorem Catalog.load_doubled_strict :
    (load .doubled "aggs" true).collect.1 =
      .error (.malformed "aggs/b.json") := by
  apply (load_strict_eq_error_iff definitionFiles_doubled).mpr
  refine ⟨["aggs/a.json"], "aggs/b.json", ["aggs/c.json"], rfl,
    fun earlier hmem => ?_, Definition.loadFile_doubled_empty⟩
  obtain rfl := List.mem_singleton.mp hmem
  exact ⟨_, Definition.loadFile_doubled (by decide)⟩

theorem Catalog.filesEvents_doubled :
    filesEvents .doubled [] ["aggs/a.json", "aggs/b.json", "aggs/c.json"] =
      [.aggregationLoaded "orders" "aggs/a.json",
        .aggregationSkipped "aggs/b.json"
          (CatalogError.malformed "aggs/b.json").message,
        .aggregationReplaced "orders" "aggs/c.json",
        .aggregationLoaded "orders" "aggs/c.json"] := by
  simp [filesEvents, fileEvents, Definition.loadable,
    Definition.loadFile_doubled, Definition.loadFile_doubled_empty,
    Except.toOption, Definition.orders]

/-- The lenient load skips the text that is no definition, and loads the
definition twice.  The strict load ends at that text, with the log so far. -/
theorem load_doubled_log_accounts :
    (Catalog.load .doubled "aggs" false).collect =
        (.ok (.ofList [.orders]),
          [.catalogLoadStart "aggs" false,
            .aggregationLoaded "orders" "aggs/a.json",
            .aggregationSkipped "aggs/b.json"
              (CatalogError.malformed "aggs/b.json").message,
            .aggregationReplaced "orders" "aggs/c.json",
            .aggregationLoaded "orders" "aggs/c.json",
            .catalogLoaded 1 1]) ∧
      (Catalog.load .doubled "aggs" true).collect =
        (.error (.malformed "aggs/b.json"),
          [.catalogLoadStart "aggs" true,
            .aggregationLoaded "orders" "aggs/a.json"]) := by
  constructor
  · have hload : (Catalog.load .doubled "aggs" false).collect =
        (.ok (.ofList [.orders]), _) :=
      Prod.ext Catalog.load_doubled rfl
    obtain ⟨names, skipped, hnames, hlog, hskipped, -⟩ :=
      (load_log_accounts .doubled "aggs" false).1 _ _ hload
    obtain rfl := Catalog.names_doubled hnames
    change _ = _ :: (Catalog.filesEvents .doubled []
      ["aggs/a.json", "aggs/b.json", "aggs/c.json"] ++ _ ++ _) at hlog
    rw [Catalog.filesEvents_doubled] at hlog
    rw [hlog] at hskipped
    obtain rfl : skipped = 1 := hskipped
    exact hload.trans (Prod.ext rfl hlog)
  · have hload : (Catalog.load .doubled "aggs" true).collect =
        (.error (.malformed "aggs/b.json"), _) :=
      Prod.ext Catalog.load_doubled_strict rfl
    obtain ⟨-, ⟨fault, hlist, -⟩ | ⟨-, before, name, after, hnames, hbefore,
        hrefused, hlog⟩⟩ :=
      (load_log_accounts .doubled "aggs" true).2 _ _ hload
    · cases hlist
    · have hsplit := Catalog.names_doubled hnames
      rcases before with _ | ⟨first, _ | ⟨second, others⟩⟩
      · obtain ⟨rfl, -⟩ := List.cons.inj hsplit
        cases hrefused.symm.trans (Definition.loadFile_doubled (by decide))
      · obtain ⟨rfl, -⟩ := List.cons.inj hsplit
        refine hload.trans (Prod.ext rfl (hlog.trans ?_))
        change _ :: Catalog.filesEvents .doubled [] ["aggs/a.json"] = _
        simp [Catalog.filesEvents, Catalog.fileEvents, Definition.loadable,
          Definition.loadFile_doubled, Definition.orders]
      · obtain ⟨-, hrest⟩ := List.cons.inj hsplit
        obtain ⟨rfl, -⟩ := List.cons.inj hrest
        obtain ⟨definition, hloaded⟩ := hbefore "b.json" (by simp)
        cases hloaded.symm.trans Definition.loadFile_doubled_empty

end Aggregation
