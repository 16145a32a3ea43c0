import TodoWatch.Entity
import TodoWatch.Lib.Codec
import TodoWatch.Lib.Keyed
import Mathlib.Logic.Function.Basic

/-! # The store of items

`TodoDatabase` keeps a list of items as one text in a preferences file. Gson, which writes and reads the
text, is not part of the repository. -/

namespace TodoWatch

/-- Gson on lists of items. `fromJson` throws on a text that is not JSON, and the code throws at once on
    what else is not a list of items. -/
structure Gson where
  toJson : List TodoItem → String
  fromJson : String → Except JavaException (List TodoItem)
  fromJson_toJson : ∀ items, fromJson (toJson items) = .ok items
  fromJson_empty : fromJson "[]" = .ok []

/-- The preferences files, each by the text that it holds under `todo_list`. -/
abbrev Preferences := String → Option String

structure TodoDatabase where
  key : String
  deriving DecidableEq, Repr

namespace TodoDatabase

/-- `TodoDatabase.getInstance`, with the static field `instance` before and after it. -/
def getInstance (inst : Option TodoDatabase) (key : String) : TodoDatabase × Option TodoDatabase :=
  match inst with
  | none => (⟨key⟩, some ⟨key⟩)
  | some db => (db, some db)

section Store
variable (gson : Gson) (db : TodoDatabase) (prefs : Preferences)

def getAllTodos : Except JavaException (List TodoItem) := gson.fromJson ((prefs db.key).getD "[]")

def saveTodos (todos : List TodoItem) : Preferences := Function.update prefs db.key (some (gson.toJson todos))

def insertTodo (todoItem : TodoItem) : Except JavaException Preferences := do
  let todoList ← getAllTodos gson db prefs
  return saveTodos gson db prefs (todoList ++ [todoItem])

/-- The first item with the title of the new one is replaced. -/
def updateTodo (updatedTodo : TodoItem) : Except JavaException Preferences := do
  let todos ← getAllTodos gson db prefs
  match todos.findIdx? (·.title == updatedTodo.title) with
  | some i => return saveTodos gson db prefs (todos.set i updatedTodo)
  | none => return saveTodos gson db prefs todos

def deleteTodo (title : String) : Except JavaException Preferences := do
  let todos ← getAllTodos gson db prefs
  match todos.findIdx? (·.title == title) with
  | some i => return saveTodos gson db prefs (todos.eraseIdx i)
  | none => return saveTodos gson db prefs todos

def removeTodoList : Preferences := Function.update prefs db.key none

end Store

section Lemmas
variable {gson : Gson} {db db' : TodoDatabase} {prefs : Preferences} {todos : List TodoItem}

@[simp] theorem getAllTodos_saveTodos : getAllTodos gson db (saveTodos gson db prefs todos) = .ok todos := by
  rw [getAllTodos, saveTodos, Function.update_self]
  exact gson.fromJson_toJson todos

theorem getAllTodos_saveTodos_of_ne (h : db'.key ≠ db.key) :
    getAllTodos gson db' (saveTodos gson db prefs todos) = getAllTodos gson db' prefs := by
  rw [getAllTodos, saveTodos, Function.update_of_ne h, getAllTodos]

theorem insertTodo_of_ok (h : getAllTodos gson db prefs = .ok todos) (todoItem : TodoItem) :
    insertTodo gson db prefs todoItem = .ok (saveTodos gson db prefs (todos ++ [todoItem])) := by
  rw [insertTodo, h]
  rfl

/-- The item at a position, changed under its title, is replaced where it stands. -/
theorem updateTodo_of_nodup {item updated : TodoItem} {i : Nat} (h : getAllTodos gson db prefs = .ok todos)
    (hnodup : (todos.map TodoItem.title).Nodup) (hi : todos[i]? = some item) (htitle : updated.title = item.title) :
    updateTodo gson db prefs updated = .ok (saveTodos gson db prefs (todos.set i updated)) := by
  have hfind : todos.findIdx? (·.title == updated.title) = some i := by
    rw [htitle]
    exact Keyed.findIdx?_of_nodup hnodup hi
  rw [updateTodo, h]
  show (match todos.findIdx? (·.title == updated.title) with
    | some i => _
    | none => _) = _
  rw [hfind]
  rfl

end Lemmas

/-! ### Calls -/

inductive Operation where
  | insertTodo (todoItem : TodoItem)
  | updateTodo (updatedTodo : TodoItem)
  | deleteTodo (title : String)
  | removeTodoList
  deriving DecidableEq, Repr

def Operation.apply (gson : Gson) (db : TodoDatabase) (prefs : Preferences) : Operation → Except JavaException Preferences
  | insertTodo todoItem => TodoDatabase.insertTodo gson db prefs todoItem
  | updateTodo updatedTodo => TodoDatabase.updateTodo gson db prefs updatedTodo
  | deleteTodo title => TodoDatabase.deleteTodo gson db prefs title
  | removeTodoList => .ok (TodoDatabase.removeTodoList db prefs)

/-- The preferences after a call that does not throw. -/
def step (gson : Gson) (db : TodoDatabase) (prefs : Preferences) (operation : Operation) : Option Preferences :=
  (operation.apply gson db prefs).toOption

end TodoDatabase

/-! ### JSON -/

namespace Json
open Codec

def text : Codec String := quoted.via String.toList (fun l => some (String.ofList l)) fun s => by simp

def enum {α : Type} (name : α → String) (values : List α) (h : ∀ a, values.find? (name · == name a) = some a) :
    Codec α :=
  text.via name (fun s => values.find? (name · == s)) h

def after {α : Type} (before : List Char) (c : Codec α) : Codec α :=
  ((lit before).seq c).via (fun a => ((), a)) (fun x => some x.2) fun _ => rfl

def todoItem : Codec TodoItem :=
  ((after ['{'] (after "\"title\":".toList text)).seq
    ((after ",\"priority\":".toList (enum Priority.name Priority.values fun a => by cases a <;> rfl)).seq
    ((after ",\"place\":".toList (enum Place.name Place.values fun a => by cases a <;> rfl)).seq
    ((after ",\"time\":".toList (enum Time.name Time.values fun a => by cases a <;> rfl)).seq
    ((after ",\"isDone\":".toList bool).seq
    ((after ",\"assignee\":".toList text).seq (lit ['}']))))))).via
  (fun i => (i.title, i.priority, i.place, i.time, i.isDone, i.assignee, ()))
  (fun x => some ⟨x.1, x.2.1, x.2.2.1, x.2.2.2.1, x.2.2.2.2.1, x.2.2.2.2.2.1⟩) fun _ => rfl

def todoItems : Codec (List TodoItem) := todoItem.list fun a rest h => by cases h

end Json

/-- Gson on texts without control characters and without the characters that it escapes for HTML. -/
def gson : Gson where
  toJson items := String.ofList (Json.todoItems.write items)
  fromJson s := match Json.todoItems.read s.toList with
    | some (items, []) => .ok items
    | _ => .error .jsonSyntax
  fromJson_toJson items := by
    have h := Json.todoItems.read_write items []
    rw [List.append_nil] at h
    simp [h]
  fromJson_empty := by rfl

end TodoWatch
