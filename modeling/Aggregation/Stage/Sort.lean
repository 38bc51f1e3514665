import Aggregation.CompileError
import Aggregation.Value

/-!
# Sort documents

A sort stage lists its fields in order, each with an optional verse.  Without
such a list, arguments that are a ready sort document are taken as they are.
-/

namespace Aggregation.Sort

/-- A ready sort document (`is_native_sort`): some fields, each with `1` or
`-1`. -/
def isNative (args : Document) : Bool :=
  !args.isEmpty && args.all (·.2.isUnit)

/-- The field and direction of one entry.  Only the verse `desc` descends. -/
def readEntry (index : Nat) : Value → Except Malformation (String × Int32)
  | .document entry =>
    match Fields.get? entry "field" with
    | some (.string field) =>
      if field.isEmpty then .error (.entryWithoutField index)
      else
        match Fields.get? entry "verse" with
        | none => .ok (field, 1)
        | some (.string verse) => .ok (field, if verse = "desc" then -1 else 1)
        | some _ => .error (.entryVerse index field)
    | _ => .error (.entryWithoutField index)
  | _ => .error (.entryNotStructure index)

def addEntries (document : Document) (index : Nat) :
    List Value → Except Malformation Document
  | [] => .ok document
  | entry :: entries => do
    let (field, direction) ← readEntry index entry
    addEntries (Fields.insert document field (.int32 direction))
      (index + 1) entries

/-- The sort document that arguments come to (`sort_value`). -/
def ofArgs (args : Document) : Except Malformation Document :=
  match Fields.get? args "order" with
  | some (.array []) => .error .orderEmpty
  | some (.array entries) => addEntries [] 0 entries
  | some _ => .error .orderNotList
  | none => if isNative args then .ok args else .error .orderMissing

end Aggregation.Sort
