import Aggregation.Catalog.Load
import Aggregation.Proofs.Fields

/-!
# Files of a directory

A directory lists its entries by name, and a file is asked for by path.  A name
joined to the path of a directory is a path to the entry of that name, unless
the whole has become too long.
-/

namespace Aggregation

/-- A name that a directory can have for an entry. -/
structure IsEntryName (name : String) : Prop where
  nonempty : name ≠ ""
  ne_here : name ≠ "."
  ne_above : name ≠ ".."
  no_slash : '/' ∉ name.toList
  no_zero : '\x00' ∉ name.toList
  short : name.utf8ByteSize ≤ FileTree.maxNameSize

/-- Entries as a directory has them, with different names. -/
structure IsListing (entries : List (String × FileTree)) : Prop where
  nodup : (Fields.keys entries).Nodup
  proper : ∀ name ∈ Fields.keys entries, IsEntryName name

/-! ## Joined paths -/

namespace Path

variable {base name path : String} {front : List String}

/-- A text that ends in a slash has another before it. -/
theorem eq_append_slash (h : base.toList.getLast? = some '/') :
    ∃ front, base = front ++ "/" := by
  obtain ⟨front, hfront⟩ := List.getLast?_eq_some_iff.mp h
  refine ⟨String.ofList front, String.toList_inj.mp ?_⟩
  rw [hfront, String.toList_append, String.toList_ofList]
  rfl

/-- A name is joined by a slash, for which a slash at the end of the base will
do. -/
theorem join_eq (hbase : base ≠ "") (hname : '/' ∉ name.toList) :
    ∃ front, join base name = front ++ "/" ++ name ∧
      (base = front ∨ base = front ++ "/") := by
  have hrelative : isAbsolute name = false := by
    rw [isAbsolute, decide_eq_false_iff_not]
    intro habsolute
    exact hname (List.mem_of_mem_head? habsolute)
  unfold join
  rw [if_neg (by simp [hrelative, hbase])]
  split
  · next hlast =>
      obtain ⟨front, rfl⟩ := eq_append_slash hlast
      exact ⟨front, rfl, .inr rfl⟩
  · exact ⟨base, rfl, .inl rfl⟩

theorem join_ne_empty (hbase : base ≠ "") (hname : '/' ∉ name.toList) :
    join base name ≠ "" := by
  obtain ⟨front, hjoin, -⟩ := join_eq hbase hname
  simp [hjoin]

theorem pieces_of_no_slash (h : '/' ∉ name.toList) : pieces name = [name] := by
  simp [pieces, List.splitOn_eq_singleton h]

theorem pieces_append_slash (base : String) (h : '/' ∉ name.toList) :
    pieces (base ++ "/" ++ name) = pieces base ++ [name] := by
  have hslash : "/".toList = ['/'] := rfl
  simp [pieces, String.toList_append, hslash, List.splitOn_append_cons_self,
    List.splitOn_eq_singleton h]

/-- A slash at the end makes an empty piece. -/
theorem pieces_slash (base : String) :
    pieces (base ++ "/") = pieces base ++ [""] := by
  have hempty : '/' ∉ "".toList := by simp
  simpa using pieces_append_slash base hempty

/-- The pieces of a joined path are those of the base and the name, but for an
empty piece at the end of the base. -/
theorem pieces_join (hbase : base ≠ "") (hname : '/' ∉ name.toList) :
    ∃ front, pieces (join base name) = front ++ [name] ∧
      (pieces base = front ∨ pieces base = front ++ [""]) := by
  obtain ⟨front, hjoin, hfront⟩ := join_eq hbase hname
  refine ⟨pieces front, ?_, ?_⟩
  · rw [hjoin, pieces_append_slash front hname]
  · rcases hfront with rfl | rfl
    · exact .inl rfl
    · exact .inr (pieces_slash front)

theorem isAbsolute_join (hbase : base ≠ "") (hname : '/' ∉ name.toList) :
    isAbsolute (join base name) = isAbsolute base := by
  obtain ⟨front, hjoin, hfront⟩ := join_eq hbase hname
  have hslash : "/".toList = ['/'] := rfl
  rw [hjoin]
  rcases hfront with rfl | rfl
  · obtain ⟨first, hfirst⟩ : ∃ first, base.toList.head? = some first := by
      rw [← Option.isSome_iff_exists, List.isSome_head?]
      simpa using hbase
    simp [isAbsolute, String.toList_append, List.head?_append, hfirst]
  · simp [isAbsolute, String.toList_append, List.head?_append, hslash]

/-- Joining brings in no character but the slash. -/
theorem not_mem_toList_join {c : Char} (hc : c ≠ '/') (hbase : base ≠ "")
    (hname : '/' ∉ name.toList) (hinBase : c ∉ base.toList)
    (hinName : c ∉ name.toList) :
    c ∉ (join base name).toList := by
  obtain ⟨front, hjoin, hfront⟩ := join_eq hbase hname
  have hslash : "/".toList = ['/'] := rfl
  have hinFront : c ∉ front.toList := by
    rcases hfront with rfl | rfl
    · exact hinBase
    · intro hmem
      exact hinBase (by simp [String.toList_append, hmem])
  rw [hjoin]
  simp [String.toList_append, hslash, hinFront, hinName, hc]

/-- The file name of a path is its last piece, if that is a name. -/
theorem fileName?_of_pieces (hname : IsEntryName name)
    (hpieces : pieces path = front ++ [name]) : fileName? path = some name := by
  have hkept : dropIgnored (name :: front.reverse) = name :: front.reverse := by
    cases front.reverse with
    | nil => rfl
    | cons before rest => simp [dropIgnored, hname.nonempty, hname.ne_here]
  rw [fileName?, hpieces, List.reverse_append, List.reverse_singleton,
    List.singleton_append, hkept]
  simp [hname.nonempty, hname.ne_here, hname.ne_above]

theorem extension?_join (hbase : base ≠ "") (hname : IsEntryName name) :
    extension? (join base name) = extension? name := by
  obtain ⟨front, hpieces, -⟩ := pieces_join hbase hname.no_slash
  have halone : pieces name = [] ++ [name] := pieces_of_no_slash hname.no_slash
  rw [extension?, extension?, fileName?_of_pieces hname hpieces,
    fileName?_of_pieces hname halone]

end Path

/-- The format of a definition file depends on its name alone. -/
theorem DefinitionFormat.ofPath?_join {dir name : String} (hdir : dir ≠ "")
    (hname : IsEntryName name) :
    ofPath? (Path.join dir name) = ofPath? name := by
  rw [ofPath?, ofPath?, Path.extension?_join hdir hname]

/-! ## Looking entries up -/

namespace FileTree

variable {here : FileTree} {above : List FileTree} {front : List String}
  {name : String} {entries : List (String × FileTree)}

/-- One piece of a way leads somewhere, or nowhere, whatever follows. -/
theorem walk_cons (here : FileTree) (above : List FileTree) (piece : String) :
    (∃ next higher, ∀ rest, walk here above (piece :: rest) =
      walk next higher rest) ∨
      ∃ fault, ∀ rest, walk here above (piece :: rest) = .error fault := by
  cases here with
  | file bytes => exact .inr ⟨_, fun _ => rfl⟩
  | directory inside =>
      by_cases hstays : piece = "" ∨ piece = "."
      · exact .inl ⟨directory inside, above, fun rest => by simp [walk, hstays]⟩
      by_cases hup : piece = ".."
      · exact .inl ⟨above.headD (directory inside), above.tail,
          fun rest => by simp [walk, hup]⟩
      by_cases hlong : maxNameSize < piece.utf8ByteSize
      · exact .inr ⟨.tooLong, fun rest => by simp [walk, hstays, hup, hlong]⟩
      cases hinside : Fields.get? inside piece with
      | none =>
          exact .inr ⟨.notFound, fun rest =>
            by simp [walk, hstays, hup, hlong, hinside]⟩
      | some tree =>
          exact .inl ⟨tree, directory inside :: above,
            fun rest => by simp [walk, hstays, hup, hlong, hinside]⟩

/-- An empty piece at the end leads nowhere else. -/
theorem walk_empty_iff :
    walk here above (front ++ [""]) = .ok (directory entries) ↔
      walk here above front = .ok (directory entries) := by
  induction front generalizing here above with
  | nil => cases here <;> simp [walk]
  | cons piece front ih =>
      rcases walk_cons here above piece with
        ⟨next, higher, hnext⟩ | ⟨fault, hfault⟩
      · rw [List.cons_append, hnext, hnext]
        exact ih
      · rw [List.cons_append, hfault, hfault]

/-- A way that goes on by a name leads to the entry of that name. -/
theorem walk_name (hname : IsEntryName name)
    (h : walk here above front = .ok (directory entries)) :
    walk here above (front ++ [name]) =
      match Fields.get? entries name with
      | some tree => .ok tree
      | none => .error .notFound := by
  induction front generalizing here above with
  | nil =>
      obtain rfl := Except.ok.inj h
      have hshort := Nat.not_lt.mpr hname.short
      cases hentry : Fields.get? entries name <;>
        simp [walk, hname.nonempty, hname.ne_here, hname.ne_above, hshort,
          hentry]
  | cons piece front ih =>
      rcases walk_cons here above piece with
        ⟨next, higher, hnext⟩ | ⟨fault, hfault⟩
      · rw [hnext] at h
        rw [List.cons_append, hnext]
        exact ih h
      · rw [hfault] at h
        cases h

end FileTree

namespace Files

variable {files : Files} {dir name : String}
  {entries : List (String × FileTree)}

theorem find_of_list (h : files.list dir = .ok entries) :
    files.find dir = .ok (.directory entries) := by
  unfold list at h
  split at h
  · next hfind => rw [hfind, Except.ok.inj h]
  · cases h
  · cases h

/-- A text is read from the bytes that UTF-8 takes for it. -/
theorem readText_of_find {path text : String}
    (h : files.find path = .ok (.file text.toUTF8.data.toList)) :
    files.readText path = .ok text := by
  rw [readText, read, h]
  simp [String.fromUTF8?, String.fromUTF8, text.isValidUTF8]

/-- Where the walk of a path begins, and what is above there. -/
def start (files : Files) (path : String) : FileTree × List FileTree :=
  if Path.isAbsolute path then (files.root, []) else (files.here, files.above)

theorem start_join (hdir : dir ≠ "") (hname : '/' ∉ name.toList) :
    files.start (Path.join dir name) = files.start dir := by
  rw [start, start, Path.isAbsolute_join hdir hname]

theorem find_eq_walk {path : String} (hzero : '\x00' ∉ path.toList)
    (hpath : path ≠ "") :
    files.find path =
      if maxPathSize < path.utf8ByteSize then .error .tooLong
      else (files.start path).1.walk (files.start path).2
        (Path.pieces path) := by
  rw [find, if_neg hzero, if_neg hpath, start]
  by_cases habsolute : Path.isAbsolute path <;> simp [habsolute]

/-- A path that names a directory is proper, and the walk of it gets there. -/
theorem walk_of_list (h : files.list dir = .ok entries) :
    dir ≠ "" ∧ '\x00' ∉ dir.toList ∧
      (files.start dir).1.walk (files.start dir).2 (Path.pieces dir) =
        .ok (.directory entries) := by
  have hfind := find_of_list h
  by_cases hzero : '\x00' ∈ dir.toList
  · rw [find, if_pos hzero] at hfind
    cases hfind
  by_cases hdir : dir = ""
  · rw [find, if_neg hzero, if_pos hdir] at hfind
    cases hfind
  rw [find_eq_walk hzero hdir] at hfind
  split at hfind
  · cases hfind
  · exact ⟨hdir, hzero, hfind⟩

/-- The path of a name in a directory leads to the entry of that name, unless it
is too long. -/
theorem find_join (h : files.list dir = .ok entries)
    (hname : IsEntryName name) :
    files.find (Path.join dir name) =
      if maxPathSize < (Path.join dir name).utf8ByteSize then .error .tooLong
      else
        match Fields.get? entries name with
        | some tree => .ok tree
        | none => .error .notFound := by
  obtain ⟨hdir, hzero, hwalk⟩ := walk_of_list h
  have hjoined : '\x00' ∉ (Path.join dir name).toList :=
    Path.not_mem_toList_join (by decide) hdir hname.no_slash hzero hname.no_zero
  obtain ⟨front, hpieces, hfront⟩ := Path.pieces_join hdir hname.no_slash
  have hwalkFront : (files.start dir).1.walk (files.start dir).2 front =
      .ok (.directory entries) := by
    rcases hfront with hsame | hslash
    · rw [← hsame]
      exact hwalk
    · rw [hslash] at hwalk
      exact FileTree.walk_empty_iff.mp hwalk
  rw [find_eq_walk hjoined (Path.join_ne_empty hdir hname.no_slash), hpieces,
    start_join hdir hname.no_slash, FileTree.walk_name hname hwalkFront]

section Listing

variable (h : files.list dir = .ok entries) (hlisting : IsListing entries)

include h hlisting

theorem find_join_of_mem {tree : FileTree} (hmem : (name, tree) ∈ entries)
    (hshort : (Path.join dir name).utf8ByteSize ≤ maxPathSize) :
    files.find (Path.join dir name) = .ok tree := by
  have hname := hlisting.proper name (List.mem_map.mpr ⟨_, hmem, rfl⟩)
  rw [find_join h hname, if_neg (Nat.not_lt.mpr hshort),
    (Fields.get?_eq_some_iff_mem hlisting.nodup).mpr hmem]

theorem isFile_join_iff (hname : IsEntryName name) :
    files.isFile (Path.join dir name) = true ↔
      (∃ bytes, (name, .file bytes) ∈ entries) ∧
        (Path.join dir name).utf8ByteSize ≤ maxPathSize := by
  rw [isFile, find_join h hname, ← Nat.not_lt]
  by_cases hlong : maxPathSize < (Path.join dir name).utf8ByteSize
  · simp [hlong, Except.toOption]
  · rw [if_neg hlong]
    simp only [← Fields.get?_eq_some_iff_mem hlisting.nodup]
    cases hentry : Fields.get? entries name with
    | none => simp [Except.toOption]
    | some tree => cases tree <;> simp [Except.toOption, FileTree.isFile, hlong]

end Listing

end Files

end Aggregation
