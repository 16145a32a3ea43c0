import Mathlib.Logic.Basic

/-! # JavaScript values

The values that the API handles: what `JSON.parse` can give, and `undefined` for what is missing. -/

namespace TodoWatch

/-- A number is held as the text that it converts to. The fields of an object have distinct names. -/
inductive Js where
  | undefined
  | null
  | bool (b : Bool)
  | num (text : String)
  | str (s : String)
  | arr (items : List Js)
  | obj (fields : List (String × Js))

namespace Js

def field (fields : List (String × Js)) (name : String) : Js :=
  match fields.find? (·.1 == name) with
  | some f => f.2
  | none => undefined

/-- `value.name`. Reading a property of `undefined` or `null` throws. -/
def prop : Js → String → Option Js
  | undefined, _ => none
  | null, _ => none
  | obj fields, name => some (field fields name)
  | _, _ => some undefined

mutual

/-- The text of a value in a template literal. An object converts by its inherited `toString`, unless a
    field of that name, which is never a function here, hides it: then the conversion throws. -/
def toText : Js → Option String
  | undefined => some "undefined"
  | null => some "null"
  | bool b => some (if b then "true" else "false")
  | num text => some text
  | str s => some s
  | arr items => (toTexts items).map (String.intercalate ",")
  | obj fields => if fields.any (·.1 == "toString") then none else some "[object Object]"

/-- The texts of the items of an array; those of `undefined` and `null` are empty. -/
def toTexts : List Js → Option (List String)
  | [] => some []
  | undefined :: rest => (toTexts rest).map ("" :: ·)
  | null :: rest => (toTexts rest).map ("" :: ·)
  | item :: rest => (toText item).bind fun text => (toTexts rest).map (text :: ·)

end

/-- What a `for … of` loop visits. Only arrays and strings are iterable here. -/
def iterate : Js → Option (List Js)
  | arr items => some items
  | str s => some (s.toList.map fun c => str c.toString)
  | _ => none

def sameString : Js → Js → Bool
  | str s, str t => s == t
  | _, _ => false

theorem sameString_str {v : Js} {t : String} : v.sameString (str t) = true ↔ v = str t := by
  cases v <;> simp [sameString]

@[simp] theorem toText_str (s : String) : (str s).toText = some s := by simp [toText]

end Js

end TodoWatch
