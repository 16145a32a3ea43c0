import TodoWatch.TodoSerializer

/-! # Are items read back from their lines?

A title or an assignee with a semicolon is cut in two, and an empty assignee is an empty field at the end,
which `split` drops. Every other item is read back as it was. -/

namespace TodoWatch
namespace TodoSerializer

variable {item read : TodoItem} {line s : String} {fields : List String} {index : Nat}

/-! ### Reading -/

theorem getElem?_of_field (h : field fields index = .ok s) : fields[index]? = some s := by
  unfold field at h
  split at h
  · rename_i hget
    rw [hget, Except.ok.inj h]
  · cases h

/-- The fields that an item was read from, with the text of its flag. -/
structure ReadFrom (fields : List String) (item : TodoItem) (flag : String) : Prop where
  title : fields[0]? = some item.title
  priority : fields[1]? = some item.priority.name
  place : fields[2]? = some item.place.name
  time : fields[3]? = some item.time.name
  done : fields[4]? = some flag
  assignee : fields[5]? = some item.assignee
  isDone : item.isDone = parseBoolean flag

theorem readFrom_of_deserialize (h : deserializeTodoItem s = .ok item) : ∃ flag, ReadFrom (split s) item flag := by
  unfold deserializeTodoItem at h
  obtain ⟨title, htitle, h⟩ := bind_eq_ok.mp h
  obtain ⟨p, hp, h⟩ := bind_eq_ok.mp h
  obtain ⟨priority, hpriority, h⟩ := bind_eq_ok.mp h
  obtain ⟨pl, hpl, h⟩ := bind_eq_ok.mp h
  obtain ⟨place, hplace, h⟩ := bind_eq_ok.mp h
  obtain ⟨t, ht, h⟩ := bind_eq_ok.mp h
  obtain ⟨time, htime, h⟩ := bind_eq_ok.mp h
  obtain ⟨done, hdone, h⟩ := bind_eq_ok.mp h
  obtain ⟨assignee, hassignee, h⟩ := bind_eq_ok.mp h
  obtain rfl := Except.ok.inj h
  refine ⟨done, getElem?_of_field htitle, ?_, ?_, ?_, getElem?_of_field hdone, getElem?_of_field hassignee, rfl⟩
  · rw [getElem?_of_field hp, Priority.name_of_valueOf hpriority]
  · rw [getElem?_of_field hpl, Place.name_of_valueOf hplace]
  · rw [getElem?_of_field ht, Time.name_of_valueOf htime]

theorem not_mem_of_mem_split {s : String} (h : s ∈ split line) : ';' ∉ s.toList := by
  obtain ⟨field, hfield, rfl⟩ := List.mem_map.mp h
  rw [String.toList_ofList]
  exact Fields.not_mem_of_mem_split hfield

/-- The texts of an item that was read are fields, so they hold no semicolon. -/
theorem deserialize_eq_ok (h : deserializeTodoItem line = .ok read) :
    ';' ∉ read.title.toList ∧ ';' ∉ read.assignee.toList := by
  obtain ⟨flag, hread⟩ := readFrom_of_deserialize h
  exact ⟨not_mem_of_mem_split (List.mem_of_getElem? hread.title), not_mem_of_mem_split (List.mem_of_getElem? hread.assignee)⟩

/-! ### Writing -/

def texts (item : TodoItem) : List String :=
  [item.title, item.priority.name, item.place.name, item.time.name, boolText item.isDone]

theorem toList_serialize : (serializeTodoItem item).toList =
    [';'].intercalate ((texts item).map String.toList ++ [item.assignee.toList]) := by
  simp [serializeTodoItem, texts, List.intercalate]

theorem boolText_ne_nil (b : Bool) : (boolText b).toList ≠ [] := by cases b <;> decide +kernel

theorem not_mem_texts (htitle : ';' ∉ item.title.toList) : ∀ s ∈ texts item, ';' ∉ s.toList := by
  intro s hs
  simp only [texts, List.mem_cons, List.not_mem_nil, or_false] at hs
  rcases hs with rfl | rfl | rfl | rfl | rfl
  · exact htitle
  · cases item.priority <;> decide +kernel
  · cases item.place <;> decide +kernel
  · cases item.time <;> decide +kernel
  · cases item.isDone <;> decide +kernel

theorem not_mem_fields (htitle : ';' ∉ item.title.toList) (hassignee : ';' ∉ item.assignee.toList) :
    ∀ f ∈ (texts item).map String.toList ++ [item.assignee.toList], ';' ∉ f := by
  intro f hf
  rcases List.mem_append.mp hf with hf | hf
  · obtain ⟨s, hs, rfl⟩ := List.mem_map.mp hf
    exact not_mem_texts htitle s hs
  · rw [List.mem_singleton.mp hf]
    exact hassignee

/-- The fields of a line, when no text of the item is cut. -/
theorem split_serialize (htitle : ';' ∉ item.title.toList) (hassignee : ';' ∉ item.assignee.toList) :
    split (serializeTodoItem item) = if item.assignee = "" then texts item else texts item ++ [item.assignee] := by
  rw [split, toList_serialize, Fields.split_intercalate (not_mem_fields htitle hassignee) (by simp [texts])]
  have hback : (texts item).map (String.ofList ∘ String.toList) = texts item := by simp [texts]
  split
  · rename_i hempty
    have hlast : (texts item).map String.toList =
        ((texts item).map String.toList).dropLast ++ [(boolText item.isDone).toList] := by simp [texts]
    rw [List.rdropWhile_concat_pos _ _ _ (by simp [hempty]), hlast,
      List.rdropWhile_concat_neg _ _ _ (by simpa using boolText_ne_nil item.isDone), ← hlast, List.map_map, hback]
  · rename_i hne
    rw [List.rdropWhile_concat_neg _ _ _ (by simpa using hne), List.map_append, List.map_map, hback]
    simp

end TodoSerializer

open TodoSerializer

/-- An item is read back from its line, with all its fields, exactly when its texts hold no semicolon and it
    has an assignee. -/
theorem deserialize_serialize_iff (item : TodoItem) :
    deserializeTodoItem (serializeTodoItem item) = .ok item ↔
      ';' ∉ item.title.toList ∧ ';' ∉ item.assignee.toList ∧ item.assignee ≠ "" := by
  constructor
  · intro h
    obtain ⟨htitle, hassignee⟩ := deserialize_eq_ok h
    refine ⟨htitle, hassignee, fun hempty => ?_⟩
    -- Without the empty field at the end there is no sixth field.
    have hsplit := split_serialize htitle hassignee
    rw [if_pos hempty] at hsplit
    unfold deserializeTodoItem at h
    rw [hsplit] at h
    simp [texts, field, bind, Except.bind] at h
  · rintro ⟨htitle, hassignee, hne⟩
    have hsplit := split_serialize htitle hassignee
    rw [if_neg hne] at hsplit
    unfold deserializeTodoItem
    rw [hsplit]
    have hdone : parseBoolean (boolText item.isDone) = item.isDone := by cases item.isDone <;> decide +kernel
    simp only [texts, List.cons_append, List.nil_append, field, List.getElem?_cons_zero, List.getElem?_cons_succ, bind,
      Except.bind, Priority.valueOf_name, Place.valueOf_name, Time.valueOf_name, hdone]
    rfl

/-- The item that the constructor makes of a title alone: reading it back fails at its sixth field. -/
theorem deserialize_serialize_ofTitle :
    deserializeTodoItem (serializeTodoItem (.ofTitle "Buy milk")) = .error (.arrayIndexOutOfBounds 5 5) := by
  decide +kernel

end TodoWatch
