import Aggregation.Definition.Format
import Aggregation.Event
import Aggregation.Files.Tree
import Aggregation.Params.Json

/-!
# Loading catalogs

A catalog is loaded from the definition files of a directory, one definition a
file, in order of their names.  A strict load ends at the first file that is
refused; a lenient one skips it.
-/

namespace Aggregation

inductive CatalogError where
  | directoryUnreadable (path reason : String)
  | unreadable (path reason : String)
  | malformed (path : String)
  | invalid (path : String) (error : DefinitionError)
  | unsupportedFormat (path : String)
  deriving DecidableEq

namespace CatalogError

def message : CatalogError → String
  | directoryUnreadable path reason =>
    s!"aggregation directory '{path}' is unreadable: {reason}"
  | unreadable path reason => s!"failed to read '{path}': {reason}"
  | malformed path => s!"failed to parse '{path}': {readerAccount}"
  | invalid path error => s!"invalid aggregation in '{path}': {error.message}"
  | unsupportedFormat path => s!"unsupported definition file '{path}'"

def path : CatalogError → String
  | directoryUnreadable path _ => path
  | unreadable path _ => path
  | malformed path => path
  | invalid path _ => path
  | unsupportedFormat path => path

/-- Whether a lenient load has to stop as well (`is_fatal`). -/
def isFatal : CatalogError → Bool
  | directoryUnreadable .. => true
  | _ => false

end CatalogError

namespace Definition

/-- Reads and checks one definition file (`load_file`). -/
def loadFile (files : Files) (path : String) : Except CatalogError Definition :=
  match DefinitionFormat.ofPath? path with
  | none => .error (.unsupportedFormat path)
  | some format =>
    match files.readText path with
    | .error fault => .error (.unreadable path fault.text)
    | .ok text =>
      match parse? format text with
      | none => .error (.malformed path)
      | some definition =>
        match definition.check with
        | .error error => .error (.invalid path error)
        | .ok () => .ok definition

end Definition

namespace Catalog

/-- The paths of the definition files in a directory, in order
(`definition_files`). -/
def definitionFiles (files : Files) (dir : String) :
    Except CatalogError (List String) :=
  match files.list dir with
  | .error fault => .error (.directoryUnreadable dir fault.text)
  | .ok entries =>
    let known := (entries.map Prod.fst).filter fun name =>
      let path := Path.join dir name
      files.isFile path && (DefinitionFormat.ofPath? path).isSome
    .ok ((known.mergeSort (· ≤ ·)).map (Path.join dir))

/-- A catalog under construction, and how many files were skipped. -/
structure Progress where
  catalog : Catalog := empty
  skipped : Nat := 0

/-- Adds the definition of one file, as one turn of the loop of `load` does. -/
def addFile (files : Files) (strict : Bool) (progress : Progress)
    (path : String) :
    LoggedExcept CatalogError Progress := do
  match Definition.loadFile files path with
  | .ok definition =>
    let (replaced, catalog) := progress.catalog.insert definition
    if replaced.isSome then
      emit (.aggregationReplaced definition.name path)
    emit (.aggregationLoaded definition.name path)
    pure { progress with catalog }
  | .error error =>
    if strict || error.isFatal then throw error
    else
      emit (.aggregationSkipped error.path error.message)
      pure { progress with skipped := progress.skipped + 1 }

/-- Loads the definition files of a directory, with the events on the way. -/
def load (files : Files) (dir : String) (strict : Bool) :
    LoggedExcept CatalogError Catalog := do
  emit (.catalogLoadStart dir strict)
  let paths ← ExceptT.mk (pure (definitionFiles files dir))
  let progress ← paths.foldlM (addFile files strict) {}
  let catalog := progress.catalog
  catalog.issues.forM fun issue => emit (.catalogIssue issue)
  emit (.catalogLoaded catalog.size progress.skipped)
  pure catalog

end Catalog

end Aggregation
