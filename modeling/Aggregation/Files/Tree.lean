import Aggregation.Fields
import Aggregation.Files.Path

/-!
# File trees

The files that a run can see: a tree of directories, walked from the working
directory or, where a path is absolute, from the root.  Paths, and the names in
them, have a greatest size, counted in the bytes that UTF-8 takes for them.
-/

namespace Aggregation

inductive FileTree where
  | file (bytes : List UInt8)
  | directory (entries : List (String × FileTree))

inductive FileFault where
  | zeroByte
  | tooLong
  | notFound
  | notDirectory
  | isDirectory
  | notText
  deriving DecidableEq

namespace FileFault

def text : FileFault → String
  | zeroByte => "file name contained an unexpected NUL byte"
  | tooLong => "File name too long (os error 36)"
  | notFound => "No such file or directory (os error 2)"
  | notDirectory => "Not a directory (os error 20)"
  | isDirectory => "Is a directory (os error 21)"
  | notText => "stream did not contain valid UTF-8"

end FileFault

namespace FileTree

def empty : FileTree := directory []

/-- The most bytes of one name in a path. -/
def maxNameSize : Nat := 255

/-- Walks from a directory; above it are the one that holds it, and so on up to
the root.  A name that is too long is refused once a directory is asked for
it. -/
def walk (here : FileTree) (above : List FileTree) :
    List String → Except FileFault FileTree
  | [] => .ok here
  | piece :: pieces =>
    match here with
    | file _ => .error .notDirectory
    | directory entries =>
      if piece = "" ∨ piece = "." then walk here above pieces
      else if piece = ".." then walk (above.headD here) above.tail pieces
      else if maxNameSize < piece.utf8ByteSize then .error .tooLong
      else
        match Fields.get? entries piece with
        | some tree => walk tree (here :: above) pieces
        | none => .error .notFound

def isFile : FileTree → Bool
  | file _ => true
  | directory _ => false

/-- Puts a part at a place, with the directories above it. -/
def put (part : FileTree) : List String → FileTree → FileTree
  | [], _ => part
  | name :: names, tree =>
    let entries :=
      match tree with
      | directory entries => entries
      | file _ => []
    directory (Fields.insert entries name
      (put part names ((Fields.get? entries name).getD empty)))

end FileTree

/-- The working directory, and above it the one that holds it, and so on up to
the root. -/
structure Files where
  here : FileTree
  above : List FileTree

namespace Files

/-- Sees one directory as the working directory, and nothing outside of it. -/
def within (tree : FileTree) : Files := ⟨tree, [.empty]⟩

/-- Goes on into a directory. -/
def enter (files : Files) (name : String) : Files :=
  match files.here with
  | .directory entries =>
    ⟨(Fields.get? entries name).getD .empty, files.here :: files.above⟩
  | .file _ => files

def root (files : Files) : FileTree :=
  (files.here :: files.above).getLast (by simp)

/-- The most bytes of a path. -/
def maxPathSize : Nat := 4095

/-- What a path names.  The path itself is looked at before any directory. -/
def find (files : Files) (path : String) : Except FileFault FileTree :=
  if '\x00' ∈ path.toList then .error .zeroByte
  else if path = "" then .error .notFound
  else if maxPathSize < path.utf8ByteSize then .error .tooLong
  else if Path.isAbsolute path then
    FileTree.walk files.root [] (Path.pieces path)
  else FileTree.walk files.here files.above (Path.pieces path)

/-- Whether a path names a file; a path that is refused names none. -/
def isFile (files : Files) (path : String) : Bool :=
  (files.find path).toOption.any FileTree.isFile

def read (files : Files) (path : String) : Except FileFault (List UInt8) :=
  match files.find path with
  | .ok (.file bytes) => .ok bytes
  | .ok (.directory _) => .error .isDirectory
  | .error fault => .error fault

def readText (files : Files) (path : String) : Except FileFault String :=
  match files.read path with
  | .ok bytes =>
    match String.fromUTF8? ⟨bytes.toArray⟩ with
    | some text => .ok text
    | none => .error .notText
  | .error fault => .error fault

/-- The entries of a directory, in no particular order. -/
def list (files : Files) (path : String) :
    Except FileFault (List (String × FileTree)) :=
  match files.find path with
  | .ok (.directory entries) => .ok entries
  | .ok (.file _) => .error .notDirectory
  | .error fault => .error fault

end Files

end Aggregation
