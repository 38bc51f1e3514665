import Aggregation.Proofs.Directory
import Aggregation.Proofs.Loading
import Mathlib

/-!
# Loads of a directory

Of a directory that can be read a load takes the definition files, in ascending
order of their names.  A lenient load succeeds with the definitions of those
that can be loaded.  A strict load succeeds with the same if that is all of
them, and fails with the first of them that cannot be loaded otherwise.  Nothing
else in the directory counts, and neither does the order in which it lists its
entries.
-/

namespace Aggregation

/-! ## The definition files of a directory -/

/-- A file of a directory with a name for definition files.  A path of more
bytes than the longest is refused wherever it leads, so that a file with such a
path is none. -/
structure IsDefinitionFile (dir : String) (entries : List (String × FileTree))
    (name : String) (bytes : List UInt8) : Prop where
  mem : (name, .file bytes) ∈ entries
  known : ∃ extension ∈ ["yaml", "yml", "json"],
    Path.extension? name = some extension
  short : (Path.join dir name).utf8ByteSize ≤ Files.maxPathSize

theorem DefinitionFormat.ofPath?_isSome_iff {path : String} :
    (ofPath? path).isSome ↔
      ∃ extension ∈ ["yaml", "yml", "json"],
        Path.extension? path = some extension := by
  unfold ofPath?
  split <;> simp_all

/-- Different names ascend once they are sorted. -/
theorem ascending_mergeSort {names : List String} (hnodup : names.Nodup) :
    (names.mergeSort (· ≤ ·)).Pairwise (· < ·) := by
  have hsorted :=
    List.pairwise_mergeSort' (fun first second : String => first ≤ second) names
  have hdifferent := (List.mergeSort_perm names (· ≤ ·)).nodup_iff.mpr hnodup
  exact (hsorted.and hdifferent).imp fun ⟨hle, hne⟩ =>
    Std.lt_of_le_of_ne hle hne

section Listing

variable {files : Files} {dir name : String}
  {entries : List (String × FileTree)} (h : files.list dir = .ok entries)
  (hlisting : IsListing entries)

include h hlisting

/-- The definition files, as they are looked for. -/
theorem isDefinitionFile_iff (hname : name ∈ Fields.keys entries) :
    (files.isFile (Path.join dir name) &&
        (DefinitionFormat.ofPath? (Path.join dir name)).isSome) = true ↔
      ∃ bytes, IsDefinitionFile dir entries name bytes := by
  have hproper := hlisting.proper name hname
  obtain ⟨hdir, -⟩ := Files.walk_of_list h
  rw [Bool.and_eq_true, Files.isFile_join_iff h hlisting hproper,
    DefinitionFormat.ofPath?_join hdir hproper,
    DefinitionFormat.ofPath?_isSome_iff]
  constructor
  · rintro ⟨⟨⟨bytes, hmem⟩, hshort⟩, hknown⟩
    exact ⟨bytes, hmem, hknown, hshort⟩
  · rintro ⟨bytes, hfile⟩
    exact ⟨⟨⟨bytes, hfile.mem⟩, hfile.short⟩, hfile.known⟩

/-- The definition files of a directory come in ascending order of their
names. -/
theorem Catalog.definitionFiles_of_list :
    ∃ names : List String, definitionFiles files dir =
      .ok (names.map (Path.join dir)) ∧
      names.Pairwise (· < ·) ∧
      ∀ name, name ∈ names ↔ ∃ bytes,
        IsDefinitionFile dir entries name bytes := by
  refine ⟨_, by rw [definitionFiles, h], ?_, fun name => ?_⟩
  · exact ascending_mergeSort (hlisting.nodup.filter _)
  · rw [List.mem_mergeSort, List.mem_filter]
    constructor
    · rintro ⟨hname, htaken⟩
      exact (isDefinitionFile_iff h hlisting hname).mp htaken
    · rintro ⟨bytes, hfile⟩
      have hname : name ∈ Fields.keys entries :=
        List.mem_map.mpr ⟨_, hfile.mem, rfl⟩
      exact ⟨hname, (isDefinitionFile_iff h hlisting hname).mpr ⟨bytes, hfile⟩⟩

/-- What is read from a definition file depends on its name and bytes alone. -/
theorem Definition.loadFile_join_congr {files' : Files}
    {entries' : List (String × FileTree)} {bytes : List UInt8}
    (h' : files'.list dir = .ok entries') (hlisting' : IsListing entries')
    (hfile : IsDefinitionFile dir entries name bytes)
    (hfile' : IsDefinitionFile dir entries' name bytes) :
    loadFile files (Path.join dir name) =
      loadFile files' (Path.join dir name) := by
  apply loadFile_congr
  rw [Files.find_join_of_mem h hlisting hfile.mem hfile.short,
    Files.find_join_of_mem h' hlisting' hfile'.mem hfile'.short]

end Listing

/-! ## Formats that are not supported -/

namespace CatalogError

/-- The letter that a message starts with. -/
def initial : CatalogError → Char
  | directoryUnreadable .. => 'a'
  | unreadable .. => 'f'
  | malformed .. => 'f'
  | invalid .. => 'i'
  | unsupportedFormat .. => 'u'

theorem head?_message (error : CatalogError) :
    error.message.toList.head? = some error.initial := by
  cases error <;>
    unfold message initial <;>
    simp only [toString, String.toList_append, List.head?_append] <;>
    rfl

/-- No other error reads as one about the format. -/
theorem eq_unsupportedFormat_of_message {error : CatalogError} {path : String}
    (h : error.message = (unsupportedFormat path).message) :
    ∃ other, error = .unsupportedFormat other := by
  have hinitial : error.initial = 'u' := by
    rw [← Option.some_inj, ← head?_message, h, head?_message]
    rfl
  cases error with
  | unsupportedFormat other => exact ⟨other, rfl⟩
  | directoryUnreadable | unreadable | malformed | invalid =>
      simp [initial] at hinitial

end CatalogError

namespace Catalog

variable {files : Files} {dir : String} {paths : List String}

theorem ofPath?_isSome_of_mem (h : definitionFiles files dir = .ok paths)
    {path : String} (hmem : path ∈ paths) :
    (DefinitionFormat.ofPath? path).isSome := by
  unfold definitionFiles at h
  split at h
  · cases h
  · obtain rfl := Except.ok.inj h
    obtain ⟨name, hname, rfl⟩ := List.mem_map.mp hmem
    simp only [List.mem_mergeSort, List.mem_filter, Bool.and_eq_true] at hname
    exact hname.2.2

theorem exists_events_of_mem_trace {event : Event} {progress : Progress}
    (h : event ∈ progress.trace files paths) :
    ∃ path ∈ paths, ∃ reached : Progress,
      event ∈ reached.events files path := by
  induction paths generalizing progress with
  | nil => cases h
  | cons path paths ih =>
      rcases List.mem_append.mp h with hhere | hlater
      · exact ⟨path, List.mem_cons_self, progress, hhere⟩
      · obtain ⟨later, hmem, reached, hevent⟩ := ih hlater
        exact ⟨later, List.mem_cons_of_mem _ hmem, reached, hevent⟩

theorem error_of_mem_events {path file text : String} {progress : Progress}
    (h : .aggregationSkipped file text ∈ progress.events files path) :
    ∃ error, Definition.loadFile files path = .error error ∧
      text = error.message := by
  unfold Progress.events at h
  split at h
  · split at h <;> simp at h
  · next error hload =>
      simp only [List.mem_singleton, Event.aggregationSkipped.injEq] at h
      exact ⟨error, hload, h.2⟩

theorem aggregationSkipped_not_mem_trace {progress : Progress} {path : String}
    (h : ∀ taken ∈ paths, ∀ other,
      Definition.loadFile files taken ≠ .error (.unsupportedFormat other))
      (file : String) :
    .aggregationSkipped file (CatalogError.unsupportedFormat path).message ∉
      progress.trace files paths := by
  intro hmem
  obtain ⟨taken, htaken, reached, hevent⟩ := exists_events_of_mem_trace hmem
  obtain ⟨error, hload, hmessage⟩ := error_of_mem_events hevent
  obtain ⟨other, rfl⟩ :=
    CatalogError.eq_unsupportedFormat_of_message hmessage.symm
  exact h taken htaken other hload

/-- A load never comes upon a format that is not supported. -/
theorem collect_load_without_unsupportedFormat (files : Files) (dir : String)
    (strict : Bool) (path : String) :
    (load files dir strict).collect.1 ≠ .error (.unsupportedFormat path) ∧
      ∀ file, .aggregationSkipped file
        (CatalogError.unsupportedFormat path).message ∉
        (load files dir strict).collect.2 := by
  cases hpaths : definitionFiles files dir with
  | error error =>
      rw [collect_load_of_unreadable hpaths]
      refine ⟨?_, fun file => by simp⟩
      unfold definitionFiles at hpaths
      split at hpaths <;> cases hpaths
      nofun
  | ok paths =>
      have hknown : ∀ taken ∈ paths, ∀ other,
          Definition.loadFile files taken ≠ .error (.unsupportedFormat other) :=
        fun taken hmem => Definition.loadFile_ne_unsupportedFormat
          (ofPath?_isSome_of_mem hpaths hmem)
      rcases goesOn_or_refused files strict paths with
        hall | ⟨rfl, before, refused, rest, error, rfl, hbefore, hrefused⟩
      · rw [collect_load_of_goesOn hpaths hall]
        refine ⟨nofun, fun file => ?_⟩
        simp [aggregationSkipped_not_mem_trace hknown file, Progress.conclusion]
      · obtain ⟨hearlier, hlater⟩ := List.forall_mem_append.mp hknown
        rw [collect_load_of_refused hpaths hbefore hrefused]
        refine ⟨fun herror => ?_, fun file => ?_⟩
        · cases herror
          exact hlater refused List.mem_cons_self path hrefused
        · simp [aggregationSkipped_not_mem_trace hearlier file]

end Catalog

/-- Strict and lenient loads of a directory agree.  They take its definition
files in ascending order of their names, whatever else there is and in whatever
order it is listed.  The lenient load has what can be loaded of them.  The
strict load has the same, if that is all of them, and fails with the first that
cannot be loaded otherwise. -/
theorem load_of_listing {files : Files} {dir : String}
    {entries : List (String × FileTree)} (hlist : files.list dir = .ok entries)
    (hlisting : IsListing entries) :
    ∃ names : List String, names.Pairwise (· < ·) ∧
      (∀ name, name ∈ names ↔ ∃ bytes,
        IsDefinitionFile dir entries name bytes) ∧
      (Catalog.load files dir false).collect.1 =
        .ok (.ofList (Definition.loadable files (names.map (Path.join dir)))) ∧
      (∀ catalog, (Catalog.load files dir true).collect.1 = .ok catalog ↔
        (∀ name ∈ names, ∃ definition,
          Definition.loadFile files (Path.join dir name) = .ok definition) ∧
        (Catalog.load files dir false).collect.1 = .ok catalog) ∧
      (∀ error, (Catalog.load files dir true).collect.1 = .error error ↔
        ∃ before name rest, names = before ++ name :: rest ∧
          (∀ earlier ∈ before, ∃ definition,
            Definition.loadFile files (Path.join dir earlier) =
              .ok definition) ∧
          Definition.loadFile files (Path.join dir name) = .error error) ∧
      (∀ files' entries', files'.list dir = .ok entries' → IsListing entries' →
        (∀ name bytes, IsDefinitionFile dir entries' name bytes ↔
          IsDefinitionFile dir entries name bytes) →
        ∀ strict, Catalog.load files' dir strict =
          Catalog.load files dir strict) ∧
      ∀ strict path,
        (Catalog.load files dir strict).collect.1 ≠
          .error (.unsupportedFormat path) ∧
        ∀ file, .aggregationSkipped file
          (CatalogError.unsupportedFormat path).message ∉
          (Catalog.load files dir strict).collect.2 := by
  obtain ⟨names, hpaths, hascending, hnames⟩ :=
    Catalog.definitionFiles_of_list hlist hlisting
  refine ⟨names, hascending, hnames, Catalog.load_lenient hpaths,
    fun catalog => ?_, fun error => ?_,
    fun files' entries' hlist' hlisting' hsame strict => ?_,
    Catalog.collect_load_without_unsupportedFormat files dir⟩
  · rw [Catalog.load_eq_ok_iff hpaths, Catalog.load_lenient hpaths,
      Except.ok.injEq, eq_comm]
    simp [Catalog.GoesOn]
  · rw [Catalog.load_strict_eq_error_iff hpaths]
    constructor
    · rintro ⟨before, path, rest, hsplit, hbefore, hrefused⟩
      obtain ⟨earlier, later, rfl, rfl, hlater⟩ :=
        List.map_eq_append_iff.mp hsplit
      obtain ⟨name, others, rfl, rfl, rfl⟩ := List.map_eq_cons_iff.mp hlater
      exact ⟨earlier, name, others, rfl,
        fun other hmem => hbefore _ (List.mem_map_of_mem hmem), hrefused⟩
    · rintro ⟨before, name, rest, rfl, hbefore, hrefused⟩
      refine ⟨before.map (Path.join dir), Path.join dir name,
        rest.map (Path.join dir), ?_, List.forall_mem_map.mpr hbefore, hrefused⟩
      rw [List.map_append, List.map_cons]
  · obtain ⟨names', hpaths', hascending', hnames'⟩ :=
      Catalog.definitionFiles_of_list hlist' hlisting'
    obtain rfl : names' = names := by
      apply hascending'.eq_of_mem_iff hascending
      intro name
      rw [hnames, hnames']
      exact exists_congr (hsame name)
    refine Catalog.load_congr hpaths' hpaths
      (List.forall_mem_map.mpr fun name hmem => ?_) strict
    obtain ⟨bytes, hfile⟩ := (hnames name).mp hmem
    exact Definition.loadFile_join_congr hlist' hlisting' hlist hlisting
      ((hsame name bytes).mpr hfile) hfile

/-! A directory with one definition, one text that is none, and one file of
another kind. -/

def Definition.orders : Definition :=
  ⟨"orders", "sales", [⟨some "where", "$match", []⟩]⟩

def Definition.ordersText : String :=
  "\x7b\"name\":\"orders\",\"collection\":\"sales\",\"stages\":[" ++
    "\x7b\"key\":\"where\",\"operator\":\"$match\"\x7d]\x7d"

def FileTree.mixed : List (String × FileTree) :=
  [("b.json", .file []), ("notes.txt", .file []),
    ("a.json", .file Definition.ordersText.toUTF8.data.toList)]

def Files.mixed : Files :=
  .within (.directory [("aggs", .directory FileTree.mixed)])

theorem Files.list_mixed : Files.mixed.list "aggs" = .ok FileTree.mixed :=
  rfl

theorem FileTree.isListing_mixed : IsListing FileTree.mixed := by
  refine ⟨by decide, fun name hname => ?_⟩
  simp only [mixed, Fields.keys, List.map_cons, List.map_nil, List.mem_cons,
    List.not_mem_nil, or_false] at hname
  rcases hname with rfl | rfl | rfl <;> constructor <;> decide

theorem Definition.loadFile_mixed_orders :
    loadFile Files.mixed "aggs/a.json" = .ok orders := by
  refine loadFile_eq_ok_iff.mpr ⟨.json, ordersText, rfl, ?_, by cbv, rfl⟩
  exact Files.readText_of_find rfl

theorem Definition.loadFile_mixed_empty :
    loadFile Files.mixed "aggs/b.json" = .error (.malformed "aggs/b.json") := by
  have hformat : DefinitionFormat.ofPath? "aggs/b.json" = some .json := rfl
  have htext : Files.mixed.readText "aggs/b.json" = .ok "" :=
    Files.readText_of_find rfl
  have hparsed : parse? .json "" = none := by cbv
  rw [loadFile, hformat]
  simp only [htext, hparsed]

theorem FileTree.isDefinitionFile_mixed_iff {name : String} :
    (∃ bytes, IsDefinitionFile "aggs" mixed name bytes) ↔
      name ∈ ["a.json", "b.json"] := by
  constructor
  · rintro ⟨bytes, hmem, hknown, -⟩
    simp only [mixed, List.mem_cons, Prod.mk.injEq, List.not_mem_nil, or_false]
      at hmem
    rcases hmem with ⟨rfl, -⟩ | ⟨rfl, -⟩ | ⟨rfl, -⟩
    · decide
    · revert hknown
      decide
    · decide
  · intro hname
    simp only [List.mem_cons, List.not_mem_nil, or_false] at hname
    rcases hname with rfl | rfl
    · exact ⟨_, .tail _ (.tail _ (.head _)), by decide, by decide⟩
    · exact ⟨_, .head _, by decide, by decide⟩

theorem FileTree.names_mixed {names : List String}
    (hascending : names.Pairwise (· < ·))
    (hnames : ∀ name,
      name ∈ names ↔ ∃ bytes, IsDefinitionFile "aggs" mixed name bytes) :
    names = ["a.json", "b.json"] := by
  apply hascending.eq_of_mem_iff (by decide)
  intro name
  rw [hnames, isDefinitionFile_mixed_iff]

theorem Definition.loadable_mixed :
    loadable .mixed ["aggs/a.json", "aggs/b.json"] = [orders] := by
  simp [loadable, loadFile_mixed_orders, loadFile_mixed_empty, Except.toOption]

/-- The lenient load has the one definition, and the strict load ends at the
text that is none. -/
theorem load_mixed_of_listing :
    Files.mixed.list "aggs" = .ok FileTree.mixed ∧ IsListing FileTree.mixed ∧
      (Catalog.load .mixed "aggs" false).collect.1 = .ok (.ofList [.orders]) ∧
      (Catalog.load .mixed "aggs" true).collect.1 =
        .error (.malformed "aggs/b.json") := by
  obtain ⟨names, hascending, hnames, hlenient, -, herror, -⟩ :=
    load_of_listing Files.list_mixed FileTree.isListing_mixed
  obtain rfl := FileTree.names_mixed hascending hnames
  refine ⟨Files.list_mixed, FileTree.isListing_mixed, ?_, ?_⟩
  · rw [hlenient, ← Definition.loadable_mixed]
    rfl
  · refine (herror _).mpr ⟨["a.json"], "b.json", [], rfl,
      fun earlier hmem => ?_, Definition.loadFile_mixed_empty⟩
    obtain rfl := List.mem_singleton.mp hmem
    exact ⟨_, Definition.loadFile_mixed_orders⟩

/-! ## Files out of reach -/

/-- The working directory, by a path that goes on with so many slashes. -/
def Path.dotted : ℕ → String
  | 0 => "."
  | n + 1 => dotted n ++ "/"

namespace Path

theorem utf8ByteSize_dotted (n : ℕ) : (dotted n).utf8ByteSize = n + 1 := by
  induction n with
  | zero => rfl
  | succ n ih =>
      rw [dotted, String.utf8ByteSize_append, ih]
      rfl

theorem head?_dotted (n : ℕ) : (dotted n).toList.head? = some '.' := by
  induction n with
  | zero => rfl
  | succ n ih => simp [dotted, List.head?_append, ih]

theorem dotted_ne_empty (n : ℕ) : dotted n ≠ "" := by
  intro hempty
  have hhead := head?_dotted n
  rw [hempty] at hhead
  cases hhead

theorem isAbsolute_dotted (n : ℕ) : isAbsolute (dotted n) = false := by
  rw [isAbsolute, head?_dotted]
  rfl

theorem not_mem_dotted {c : Char} (hdot : c ≠ '.') (hslash : c ≠ '/') (n : ℕ) :
    c ∉ (dotted n).toList := by
  induction n with
  | zero => simp [dotted, hdot]
  | succ n ih => simp [dotted, ih, hslash]

theorem join_dotted {name : String} (hname : isAbsolute name = false) (n : ℕ) :
    join (dotted (n + 1)) name = dotted (n + 1) ++ name := by
  have hlast : (dotted (n + 1)).toList.getLast? = some '/' := by simp [dotted]
  rw [join, if_neg (by simp [hname, dotted_ne_empty]), if_pos hlast]

end Path

theorem FileTree.walk_dotted (entries : List (String × FileTree))
    (above : List FileTree) (n : ℕ) :
    walk (.directory entries) above (Path.pieces (Path.dotted n)) =
      .ok (.directory entries) := by
  induction n with
  | zero => rfl
  | succ n ih => rw [Path.dotted, Path.pieces_slash, walk_empty_iff, ih]

theorem Files.list_dotted {files : Files} {entries : List (String × FileTree)}
    (h : files.here = .directory entries) {n : ℕ} (hn : n < maxPathSize) :
    files.list (Path.dotted n) = .ok entries := by
  have hfind : files.find (Path.dotted n) = .ok (.directory entries) := by
    rw [find_eq_walk (Path.not_mem_dotted (by decide) (by decide) n)
      (Path.dotted_ne_empty n), Path.utf8ByteSize_dotted, if_neg (by omega),
      start, Path.isAbsolute_dotted]
    simp only [h]
    exact FileTree.walk_dotted entries files.above n
  rw [list, hfind]

/-- A file whose path is too long cannot be loaded by it. -/
theorem Definition.loadFile_of_long {files : Files} {dir name : String}
    {entries : List (String × FileTree)} (h : files.list dir = .ok entries)
    (hname : IsEntryName name) (hknown : (DefinitionFormat.ofPath? name).isSome)
    (hlong : Files.maxPathSize < (Path.join dir name).utf8ByteSize) :
    loadFile files (Path.join dir name) =
      .error (.unreadable (Path.join dir name) FileFault.tooLong.text) := by
  obtain ⟨format, hformat⟩ := Option.isSome_iff_exists.mp hknown
  rw [← DefinitionFormat.ofPath?_join (Files.walk_of_list h).1 hname] at hformat
  have hfind := Files.find_join h hname
  rw [if_pos hlong] at hfind
  simp only [loadFile, hformat, Files.readText, Files.read, hfind]

/-- Without definition files nothing is loaded, and nothing can be wrong. -/
theorem Catalog.load_without_files {files : Files} {dir : String}
    {entries : List (String × FileTree)} (h : files.list dir = .ok entries)
    (hlisting : IsListing entries)
    (hnone : ∀ name bytes, ¬ IsDefinitionFile dir entries name bytes)
    (strict : Bool) :
    (load files dir strict).collect.1 = .ok .empty := by
  obtain ⟨names, hpaths, -, hnames⟩ := definitionFiles_of_list h hlisting
  obtain rfl : names = [] := by
    refine List.eq_nil_iff_forall_not_mem.mpr fun name hmem => ?_
    obtain ⟨bytes, hfile⟩ := (hnames name).mp hmem
    exact hnone name bytes hfile
  exact (load_eq_ok_iff hpaths).mpr ⟨nofun, rfl⟩

/-- A directory with one text, which is no definition. -/
def FileTree.pages : List (String × FileTree) := [("pages.json", .file [])]

theorem FileTree.isListing_pages : IsListing FileTree.pages := by
  refine ⟨List.nodup_singleton _, fun name hname => ?_⟩
  obtain rfl := List.mem_singleton.mp hname
  constructor <;> decide

theorem Path.pages_out_of_reach :
    Files.maxPathSize < (join (dotted 4090) "pages.json").utf8ByteSize := by
  rw [join_dotted rfl, String.utf8ByteSize_append, utf8ByteSize_dotted]
  decide

/-- By a path of 4091 bytes the working directory can be listed, and what it
lists is a file with a name for definition files, which cannot be loaded by the
path that is made for it.  The strict load succeeds for all that. -/
theorem load_pages_out_of_reach :
    let files : Files := .within (.directory FileTree.pages)
    let dir := Path.dotted 4090
    files.list dir = .ok FileTree.pages ∧ IsListing FileTree.pages ∧
      (Catalog.load files dir true).collect.1 = .ok .empty ∧
      Definition.loadFile files (Path.join dir "pages.json") =
        .error
          (.unreadable (Path.join dir "pages.json") FileFault.tooLong.text) ∧
      ¬ ((∃ catalog, (Catalog.load files dir true).collect.1 = .ok catalog) ↔
        ∀ name bytes, (name, .file bytes) ∈ FileTree.pages →
          (∃ extension ∈ ["yaml", "yml", "json"],
            Path.extension? name = some extension) →
          ∃ definition, Definition.loadFile files (Path.join dir name) =
            .ok definition) := by
  intro files dir
  have hlist : files.list dir = .ok FileTree.pages :=
    Files.list_dotted rfl (by decide)
  have hload : (Catalog.load files dir true).collect.1 = .ok .empty := by
    refine Catalog.load_without_files hlist FileTree.isListing_pages
      (fun name bytes hfile => ?_) _
    obtain ⟨rfl, -⟩ := Prod.mk.inj (List.mem_singleton.mp hfile.mem)
    exact absurd hfile.short (Nat.not_le.mpr Path.pages_out_of_reach)
  have hfails := Definition.loadFile_of_long hlist
    (FileTree.isListing_pages.proper "pages.json" List.mem_cons_self)
    (by decide) Path.pages_out_of_reach
  refine ⟨hlist, FileTree.isListing_pages, hload, hfails, fun hloads_iff => ?_⟩
  obtain ⟨definition, hdefinition⟩ :=
    hloads_iff.mp ⟨_, hload⟩ "pages.json" [] List.mem_cons_self
      ⟨"json", by decide, by decide⟩
  rw [hfails] at hdefinition
  cases hdefinition

end Aggregation
