import Mathlib.Algebra.Group.Nat.Defs
import Mathlib.Data.Rat.Defs
import Mathlib.Data.List.Perm.Basic

/-! # Entities

The classes of the `entity` package of the watch app, and the parts of the Java library that they use:
exceptions, enum constants looked up by name, and maps seen through their iteration order. -/

namespace TodoWatch

inductive JavaException where
  | illegalArgument (message : String)
  | illegalState (message : String)
  | nullPointer
  | jsonSyntax
  | arrayIndexOutOfBounds (index length : Nat)
  deriving DecidableEq, Repr

/-- A computation that goes through has gone through each of its parts. -/
theorem bind_eq_ok {α β : Type} {x : Except JavaException α} {f : α → Except JavaException β} {b : β} :
    x >>= f = .ok b ↔ ∃ a, x = .ok a ∧ f a = .ok b := by
  cases x with
  | error e => exact ⟨fun h => (by cases h), fun ⟨_, h, _⟩ => (by cases h)⟩
  | ok a => exact ⟨fun h => ⟨a, rfl, h⟩, fun ⟨_, h, hf⟩ => (by cases h; exact hf)⟩

/-! ### Enums -/

inductive Priority where
  | low
  | medium
  | high
  deriving DecidableEq, Repr

inductive Place where
  | home
  | school
  | work
  | store
  | general
  deriving DecidableEq, Repr

inductive Time where
  | beforeWork
  | working
  | rest
  /-- No notification. -/
  | sleep
  | general
  deriving DecidableEq, Repr

namespace Priority

def name : Priority → String
  | low => "LOW"
  | medium => "MEDIUM"
  | high => "HIGH"

def values : List Priority := [low, medium, high]

/-- `TodoItem.Priority.valueOf`: a name that no constant has is an `IllegalArgumentException`. -/
def valueOf (s : String) : Except JavaException Priority :=
  match values.find? (·.name == s) with
  | some priority => .ok priority
  | none => .error (.illegalArgument s!"No enum constant com.example.wearos_gui.entity.TodoItem.Priority.{s}")

@[simp] theorem valueOf_name (priority : Priority) : valueOf priority.name = .ok priority := by
  cases priority <;> rfl

theorem name_of_valueOf {priority : Priority} {s : String} (h : valueOf s = .ok priority) : priority.name = s := by
  unfold valueOf at h
  split at h
  · rename_i hfind
    obtain rfl := Except.ok.inj h
    simpa using List.find?_some hfind
  · cases h

end Priority

namespace Place

def name : Place → String
  | home => "HOME"
  | school => "SCHOOL"
  | work => "WORK"
  | store => "STORE"
  | general => "GENERAL"

def values : List Place := [home, school, work, store, general]

/-- `Place.valueOf`: a name that no constant has is an `IllegalArgumentException`. -/
def valueOf (s : String) : Except JavaException Place :=
  match values.find? (·.name == s) with
  | some place => .ok place
  | none => .error (.illegalArgument s!"No enum constant com.example.wearos_gui.entity.Place.{s}")

@[simp] theorem valueOf_name (place : Place) : valueOf place.name = .ok place := by cases place <;> rfl

theorem name_of_valueOf {place : Place} {s : String} (h : valueOf s = .ok place) : place.name = s := by
  unfold valueOf at h
  split at h
  · rename_i hfind
    obtain rfl := Except.ok.inj h
    simpa using List.find?_some hfind
  · cases h

end Place

namespace Time

def name : Time → String
  | beforeWork => "BEFORE_WORK"
  | working => "WORKING"
  | rest => "REST"
  | sleep => "SLEEP"
  | general => "GENERAL"

def values : List Time := [beforeWork, working, rest, sleep, general]

/-- `Time.valueOf`: a name that no constant has is an `IllegalArgumentException`. -/
def valueOf (s : String) : Except JavaException Time :=
  match values.find? (·.name == s) with
  | some time => .ok time
  | none => .error (.illegalArgument s!"No enum constant com.example.wearos_gui.entity.Time.{s}")

@[simp] theorem valueOf_name (time : Time) : valueOf time.name = .ok time := by cases time <;> rfl

theorem name_of_valueOf {time : Time} {s : String} (h : valueOf s = .ok time) : time.name = s := by
  unfold valueOf at h
  split at h
  · rename_i hfind
    obtain rfl := Except.ok.inj h
    simpa using List.find?_some hfind
  · cases h

end Time

/-- The capitals of a character. Beyond ASCII, a character keeps its case here unless its capitals are letters of
    ASCII, as in the names of the constants. -/
def capitals : Char → List Char
  | 'ı' => ['I']
  | 'ſ' => ['S']
  | 'ß' => ['S', 'S']
  | 'ﬀ' => ['F', 'F']
  | 'ﬁ' => ['F', 'I']
  | 'ﬂ' => ['F', 'L']
  | 'ﬃ' => ['F', 'F', 'I']
  | 'ﬄ' => ['F', 'F', 'L']
  | 'ﬅ' => ['S', 'T']
  | 'ﬆ' => ['S', 'T']
  | c => [c.toUpper]

/-- `String.toUpperCase`. The default locale is taken not to be Turkish, Azeri or Lithuanian, which have rules of their
    own for some letters. -/
def toUpperCase (s : String) : String := String.ofList (s.toList.flatMap capitals)

/-! ### Items -/

structure TodoItem where
  title : String
  priority : Priority
  place : Place
  time : Time
  isDone : Bool
  assignee : String
  deriving DecidableEq, Repr

namespace TodoItem

def ofTitle (title : String) : TodoItem :=
  { title, priority := .medium, place := .general, time := .general, isDone := false, assignee := "" }

def setDone (item : TodoItem) (done : Bool) : TodoItem := { item with isDone := done }

@[simp] theorem setDone_title (item : TodoItem) (done : Bool) : (item.setDone done).title = item.title := rfl

end TodoItem

/-! ### Ranges -/

/-- A rectangle of coordinates. A finite `double` is a rational number, and its comparisons are exact. -/
structure LocationRange where
  minLatitude : ℚ
  maxLatitude : ℚ
  minLongitude : ℚ
  maxLongitude : ℚ
  deriving DecidableEq, Repr

def LocationRange.isWithinRange (r : LocationRange) (latitude longitude : ℚ) : Bool :=
  decide (latitude ≥ r.minLatitude) && decide (latitude ≤ r.maxLatitude) &&
    decide (longitude ≥ r.minLongitude) && decide (longitude ≤ r.maxLongitude)

/-- The value of an `int` expression: 32 bits in two's complement. -/
def toInt (n : Int) : Int := Int.bmod n (2 ^ 32)

/-- `Calendar.HOUR_OF_DAY` of an instant, in milliseconds since the epoch, at an offset of the zone. -/
def hourOfDay (timeMillis zone : Int) : Int := (timeMillis + zone) % 86400000 / 3600000

def minuteOfHour (timeMillis zone : Int) : Int := (timeMillis + zone) % 3600000 / 60000

def minuteOfDay (timeMillis zone : Int) : Int := hourOfDay timeMillis zone * 60 + minuteOfHour timeMillis zone

structure TimeRange where
  startHour : Int
  startMinute : Int
  endHour : Int
  endMinute : Int
  deriving DecidableEq, Repr

/-- `zone` is the offset of the default time zone at the instant, which `Calendar.getInstance` reads. -/
def TimeRange.isWithinRange (r : TimeRange) (currentTimeMillis zone : Int) : Bool :=
  let currentHour := hourOfDay currentTimeMillis zone
  let currentMinute := minuteOfHour currentTimeMillis zone
  let startTimeInMinutes := toInt (r.startHour * 60 + r.startMinute)
  let endTimeInMinutes := toInt (r.endHour * 60 + r.endMinute)
  let currentTimeInMinutes := currentHour * 60 + currentMinute
  -- A range that starts after its end crosses midnight.
  if startTimeInMinutes > endTimeInMinutes then
    decide (currentTimeInMinutes ≥ startTimeInMinutes) || decide (currentTimeInMinutes ≤ endTimeInMinutes)
  else
    decide (currentTimeInMinutes ≥ startTimeInMinutes) && decide (currentTimeInMinutes ≤ endTimeInMinutes)

theorem TimeRange.isWithinRange_iff {r : TimeRange} {timeMillis zone : Int} :
    r.isWithinRange timeMillis zone = true ↔
      if toInt (r.startHour * 60 + r.startMinute) > toInt (r.endHour * 60 + r.endMinute) then
        minuteOfDay timeMillis zone ≥ toInt (r.startHour * 60 + r.startMinute) ∨
          minuteOfDay timeMillis zone ≤ toInt (r.endHour * 60 + r.endMinute)
      else
        minuteOfDay timeMillis zone ≥ toInt (r.startHour * 60 + r.startMinute) ∧
          minuteOfDay timeMillis zone ≤ toInt (r.endHour * 60 + r.endMinute) := by
  unfold isWithinRange minuteOfDay
  dsimp only
  split <;> simp only [Bool.or_eq_true, Bool.and_eq_true, decide_eq_true_eq]

/-! ### Users -/

/-- A `Map` with string keys, as its entries in the order in which an iteration meets them. -/
abbrev Entries (α : Type) := List (String × α)

/-- `Map.put`: a key that is there keeps its entry, with the new value. -/
def Entries.put {α : Type} (map : Entries α) (key : String) (value : α) : Entries α :=
  if map.any (·.1 == key) then map.map fun e => if e.1 == key then (key, value) else e
  else map ++ [(key, value)]

structure User where
  id : String
  name : String
  locationMap : Entries LocationRange
  timeMap : Entries TimeRange
  deriving DecidableEq, Repr

/-- `v` is `u`, with maps that are iterated in any order. -/
structure User.Iterates (u v : User) : Prop where
  id : v.id = u.id
  name : v.name = u.name
  locationMap : v.locationMap.Perm u.locationMap
  timeMap : v.timeMap.Perm u.timeMap

end TodoWatch
