import TodoWatch.Entity
import TodoWatch.Lib.Fields

/-! # Items as lines of fields

`TodoSerializer`, which writes the fields of an item with semicolons between them. `split` is
`String.split(";")`, which drops the empty fields at the end. -/

namespace TodoWatch
namespace TodoSerializer

def split (s : String) : List String := (Fields.split ';' s.toList).map String.ofList

/-- `fields[index]`. -/
def field (fields : List String) (index : Nat) : Except JavaException String :=
  match fields[index]? with
  | some s => .ok s
  | none => .error (.arrayIndexOutOfBounds index fields.length)

/-- `StringBuilder.append` of a `Boolean`. -/
def boolText (b : Bool) : String := if b then "true" else "false"

/-- `Boolean.parseBoolean`: the text `true` in upper or lower case, and any other text is false. -/
def parseBoolean (s : String) : Bool := s.toList.map Char.toLower == "true".toList

def serializeTodoItem (todoItem : TodoItem) : String :=
  todoItem.title ++ ";" ++ todoItem.priority.name ++ ";" ++ todoItem.place.name ++ ";" ++ todoItem.time.name ++ ";" ++
    boolText todoItem.isDone ++ ";" ++ todoItem.assignee

def deserializeTodoItem (todoJson : String) : Except JavaException TodoItem := do
  let fields := split todoJson
  let todoItem := TodoItem.ofTitle (← field fields 0)
  let priority ← Priority.valueOf (← field fields 1)
  let place ← Place.valueOf (← field fields 2)
  let time ← Time.valueOf (← field fields 3)
  let isDone := parseBoolean (← field fields 4)
  let assignee ← field fields 5
  return { todoItem with priority, place, time, isDone, assignee }

end TodoSerializer
end TodoWatch
