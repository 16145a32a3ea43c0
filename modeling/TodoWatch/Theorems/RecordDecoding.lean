import TodoWatch.Api
import TodoWatch.Lib.Labels

/-! # Can a stored todo be read back?

`postUsersTodos` writes the texts of a todo between labels, as they are. Texts that hold no label next to them are
found again; any other todo shares its entry with a different one. -/

namespace TodoWatch
namespace RecordDecoding
open Labels

def placeLabel : List Char := ", Place: ".toList
def timeLabel : List Char := ", Time: ".toList
def assigneeLabel : List Char := ", Assignee: ".toList
def will : List Char := "Will".toList

theorem isLabel_place : IsLabel ',' placeLabel := ⟨" Place: ".toList, by decide +kernel, by decide +kernel⟩

theorem isLabel_time : IsLabel ',' timeLabel := ⟨" Time: ".toList, by decide +kernel, by decide +kernel⟩

theorem isLabel_assignee : IsLabel ',' assigneeLabel := ⟨" Assignee: ".toList, by decide +kernel, by decide +kernel⟩

/-- The text of a todo that is not in the field: from the priority on, and up to the assignee if that is written. -/
def tail (todo : Todo) : List Char :=
  if todo.assignee = "Will" then todo.time.toList
  else todo.time.toList ++ assigneeLabel ++ todo.assignee.toList

def record (todo : Todo) : List Char :=
  todo.priority.toList ++ placeLabel ++ (todo.place.toList ++ timeLabel ++ tail todo)

variable {todo other : Todo}

theorem toList_value (todo : Todo) : todo.entry.value.toList =
    "Title: ".toList ++ todo.task.toList ++ ", Priority: ".toList ++ record todo ++
      (if todo.assignee = "Will" then ", Assignee: , isDone: false" else ", isDone: false").toList := by
  unfold Todo.entry todoItem record tail placeLabel timeLabel assigneeLabel
  split
  · simp [willItem, toString]
  · simp [teamItem, toString]

theorem key_entry (todo : Todo) : todo.entry.key = if todo.assignee = "Will" then "123" else "team4" := by
  unfold Todo.entry todoItem
  split <;> rfl

theorem field_entry (todo : Todo) : todo.entry.field = todo.task := by
  unfold Todo.entry todoItem
  split <;> rfl

theorem entry_ext {x y : HashEntry} (hkey : x.key = y.key) (hfield : x.field = y.field) (hvalue : x.value = y.value) :
    x = y := by
  cases x
  cases y
  cases hkey
  cases hfield
  cases hvalue
  rfl

theorem todo_ext (hassignee : other.assignee.toList = todo.assignee.toList) (htask : other.task = todo.task)
    (hplace : other.place.toList = todo.place.toList) (htime : other.time.toList = todo.time.toList)
    (hpriority : other.priority.toList = todo.priority.toList) : other = todo := by
  cases other
  cases todo
  cases htask
  cases String.toList_injective hassignee
  cases String.toList_injective hplace
  cases String.toList_injective htime
  cases String.toList_injective hpriority
  rfl

theorem entry_eq_iff : other.entry = todo.entry ↔
    (other.assignee = "Will" ↔ todo.assignee = "Will") ∧ other.task = todo.task ∧ record other = record todo := by
  constructor
  · intro h
    have hkey := congrArg HashEntry.key h
    have htask := congrArg HashEntry.field h
    have hvalue := congrArg (fun entry => entry.value.toList) h
    rw [key_entry, key_entry] at hkey
    rw [field_entry, field_entry] at htask
    have hwill : other.assignee = "Will" ↔ todo.assignee = "Will" := by
      by_cases h₁ : other.assignee = "Will" <;> by_cases h₂ : todo.assignee = "Will" <;> simp_all
    rw [toList_value, toList_value, htask, if_congr hwill rfl rfl] at hvalue
    exact ⟨hwill, htask, List.append_cancel_left (List.append_cancel_right hvalue)⟩
  · rintro ⟨hwill, htask, hrecord⟩
    refine entry_ext ?_ ?_ (String.toList_injective ?_)
    · rw [key_entry, key_entry, if_congr hwill rfl rfl]
    · rw [field_entry, field_entry, htask]
    · rw [toList_value, toList_value, htask, hrecord, if_congr hwill rfl rfl]

/-! ### Whose entry is whose -/

def Unique (todo : Todo) : Prop := ∀ other : Todo, other.entry = todo.entry → other = todo

theorem unique_will_iff (hwill : todo.assignee = "Will") : Unique todo ↔
    ∀ p q r, True → p ++ placeLabel ++ (q ++ timeLabel ++ r) =
        todo.priority.toList ++ placeLabel ++ (todo.place.toList ++ timeLabel ++ todo.time.toList) →
      p = todo.priority.toList ∧ q = todo.place.toList ∧ r = todo.time.toList := by
  constructor
  · intro hunique p q r _ h
    have heq := hunique ⟨"Will", todo.task, String.ofList q, String.ofList r, String.ofList p⟩
      (entry_eq_iff.mpr ⟨by simp [hwill], rfl, by simpa [record, tail, hwill] using h⟩)
    rw [← heq]
    exact ⟨String.toList_ofList.symm, String.toList_ofList.symm, String.toList_ofList.symm⟩
  · intro hcut other heq
    obtain ⟨hassignee, htask, hrecord⟩ := entry_eq_iff.mp heq
    have hother := hassignee.mpr hwill
    simp only [record, tail, if_pos hwill, if_pos hother] at hrecord
    obtain ⟨hpriority, hplace, htime⟩ := hcut _ _ _ trivial hrecord
    exact todo_ext (by rw [hother, hwill]) htask hplace htime hpriority

theorem unique_other_iff (hwill : todo.assignee ≠ "Will") : Unique todo ↔
    (∀ p q r, EndsOther assigneeLabel will r → p ++ placeLabel ++ (q ++ timeLabel ++ r) =
        todo.priority.toList ++ placeLabel ++ (todo.place.toList ++ timeLabel ++
          (todo.time.toList ++ assigneeLabel ++ todo.assignee.toList)) →
      p = todo.priority.toList ∧ q = todo.place.toList ∧
        r = todo.time.toList ++ assigneeLabel ++ todo.assignee.toList) ∧
    ∀ t a, a ≠ will → t ++ assigneeLabel ++ a = todo.time.toList ++ assigneeLabel ++ todo.assignee.toList →
      t = todo.time.toList ∧ a = todo.assignee.toList := by
  have hofList : ∀ {a : List Char}, a ≠ will → String.ofList a ≠ "Will" := by
    rintro a ha h
    exact ha (by rw [will, ← h, String.toList_ofList])
  constructor
  · intro hunique
    constructor
    · rintro p q r ⟨t, a, rfl, ha⟩ h
      have heq := hunique ⟨String.ofList a, todo.task, String.ofList q, String.ofList t, String.ofList p⟩
        (entry_eq_iff.mpr ⟨by simp [hwill, hofList ha], rfl, by simpa [record, tail, hwill, hofList ha] using h⟩)
      rw [← heq]
      exact ⟨String.toList_ofList.symm, String.toList_ofList.symm, by simp⟩
    · intro t a ha h
      have heq := hunique { todo with assignee := String.ofList a, time := String.ofList t }
        (entry_eq_iff.mpr ⟨by simp [hwill, hofList ha], rfl, by simpa [record, tail, hwill, hofList ha] using h⟩)
      rw [← heq]
      exact ⟨String.toList_ofList.symm, String.toList_ofList.symm⟩
  · rintro ⟨hcut, hlast⟩ other heq
    obtain ⟨hassignee, htask, hrecord⟩ := entry_eq_iff.mp heq
    have hother : other.assignee ≠ "Will" := fun h => hwill (hassignee.mp h)
    have hne : other.assignee.toList ≠ will := fun h => hother (String.toList_injective h)
    simp only [record, tail, if_neg hwill, if_neg hother] at hrecord
    obtain ⟨hpriority, hplace, htail⟩ := hcut _ _ _ ⟨_, _, rfl, hne⟩ hrecord
    obtain ⟨htime, hname⟩ := hlast _ _ hne htail
    exact todo_ext hname htask hplace htime hpriority

/-- No text holds a label of the kind that stands beside it, where the reader would cut it. The assignee may hold its
    label before the name of Will, whose todos have a key of their own. -/
structure Decodable (todo : Todo) : Prop where
  priority : ¬placeLabel <:+: todo.priority.toList
  place : ¬placeLabel <:+: todo.place.toList
  placeTime : ¬timeLabel <:+: todo.place.toList
  time : ¬timeLabel <:+: todo.time.toList
  timeAssignee : todo.assignee ≠ "Will" → ¬assigneeLabel <:+: todo.time.toList
  assignee : ∀ before after, todo.assignee.toList = before ++ assigneeLabel ++ after → after = will

theorem not_infix_will : ¬assigneeLabel <:+: will := by
  intro h
  have hlabel : assigneeLabel.length = 12 := by decide +kernel
  have hwill : will.length = 4 := by decide +kernel
  have hle := h.length_le
  omega

theorem not_prefix_place_time : ¬placeLabel <+: timeLabel := by decide +kernel

theorem not_prefix_time_place : ¬timeLabel <+: placeLabel := by decide +kernel

theorem decodable_iff_will (hwill : todo.assignee = "Will") : Unique todo ↔ Decodable todo := by
  rw [unique_will_iff hwill, @fields_unique_iff Char ',' placeLabel timeLabel (fun _ => True) _ _ _ isLabel_place
    isLabel_time not_prefix_place_time not_prefix_time_place (fun _ _ _ => trivial) trivial]
  constructor
  · rintro ⟨hpriority, hplace, hplaceTime, htime⟩
    refine ⟨hpriority, hplace, hplaceTime, ?_, fun hne => absurd hwill hne, fun before after h => ?_⟩
    · rintro ⟨before, after, h⟩
      exact htime before after trivial h.symm
    · rw [hwill] at h
      exact absurd (infix_of_eq h) not_infix_will
  · intro h
    exact ⟨h.priority, h.place, h.placeTime, fun before after _ heq => h.time (infix_of_eq heq)⟩

theorem decodable_iff_other (hwill : todo.assignee ≠ "Will") : Unique todo ↔ Decodable todo := by
  have hne : todo.assignee.toList ≠ will := fun h => hwill (String.toList_injective h)
  rw [unique_other_iff hwill, last_unique_iff isLabel_assignee not_infix_will, fields_unique_iff isLabel_place isLabel_time
    not_prefix_place_time not_prefix_time_place (fun _ _ => EndsOther.append _) ⟨_, _, rfl, hne⟩]
  have hbefore := fun hlast => @not_before_endsOther_iff Char ',' timeLabel assigneeLabel todo.time.toList
    todo.assignee.toList will isLabel_time isLabel_assignee (by decide +kernel) (by decide +kernel) hne hlast
  constructor
  · rintro ⟨⟨hpriority, hplace, hplaceTime, htail⟩, htimeAssignee, hlast⟩
    exact ⟨hpriority, hplace, hplaceTime, (hbefore hlast).mp htail, fun _ => htimeAssignee, hlast⟩
  · intro h
    exact ⟨⟨h.priority, h.place, h.placeTime, (hbefore h.assignee).mpr h.time⟩, h.timeAssignee hwill, h.assignee⟩

end RecordDecoding

open RecordDecoding

/-- No other body stores the triple of a body exactly when none of its texts holds a label where it would be cut. -/
theorem postUsersTodos_unique_iff (todo : Todo) :
    (∀ other : Todo, todoItemOf other.body = todoItemOf todo.body → other = todo) ↔ Decodable todo := by
  have hunique : (∀ other : Todo, todoItemOf other.body = todoItemOf todo.body → other = todo) ↔ Unique todo := by
    refine forall_congr' fun other => ?_
    rw [todoItemOf_body, todoItemOf_body, Option.some.injEq]
  rw [hunique]
  by_cases hwill : todo.assignee = "Will"
  · exact decodable_iff_will hwill
  · exact decodable_iff_other hwill

/-- The label in the priority of the one is the label of the place of the other. -/
theorem postUsersTodos_same_entry :
    todoItemOf (Todo.body ⟨"Ann", "Buy milk", "STORE", "REST", "HIGH, Place: HOME"⟩) =
        todoItemOf (Todo.body ⟨"Ann", "Buy milk", "HOME, Place: STORE", "REST", "HIGH"⟩) ∧
      Todo.mk "Ann" "Buy milk" "STORE" "REST" "HIGH, Place: HOME" ≠ ⟨"Ann", "Buy milk", "HOME, Place: STORE", "REST", "HIGH"⟩ := by
  decide +kernel

end TodoWatch
