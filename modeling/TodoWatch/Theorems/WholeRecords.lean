import TodoWatch.Theorems.SerializerRoundTrip

/-! # Are only whole records read?

The decoder takes the first six fields of a line and ignores what follows, and any text but `true` in the fifth
is read as false. So a line that is accepted is written back as it was exactly when it has six fields and the
fifth is what the encoder writes. -/

namespace TodoWatch
namespace TodoSerializer

variable {item : TodoItem} {s : String} {fields : List String}

theorem fields_of_length {flag : String} (h : ReadFrom fields item flag) (hlen : fields.length = 6) :
    fields = [item.title, item.priority.name, item.place.name, item.time.name, flag, item.assignee] := by
  refine List.ext_getElem? fun i => ?_
  rcases i with _ | _ | _ | _ | _ | _ | i
  · exact h.title
  · exact h.priority
  · exact h.place
  · exact h.time
  · exact h.done
  · exact h.assignee
  · rw [List.getElem?_eq_none (by omega), List.getElem?_eq_none (by simp)]

theorem boolText_parseBoolean_iff {flag : String} :
    boolText (parseBoolean flag) = flag ↔ flag = "true" ∨ flag = "false" := by
  constructor
  · intro h
    cases hb : parseBoolean flag with
    | true => exact Or.inl (by rw [← h, hb]; rfl)
    | false => exact Or.inr (by rw [← h, hb]; rfl)
  · rintro (rfl | rfl) <;> decide +kernel

/-- A line of six fields is joined from them. -/
theorem toList_of_split {s : String} (hlen : s.toList.count ';' < (split s).length) :
    [';'].intercalate ((split s).map String.toList) = s.toList := by
  have hmap : (split s).map String.toList = Fields.split ';' s.toList := by simp [split, Function.comp_def]
  rw [hmap]
  rw [split, List.length_map] at hlen
  exact Fields.intercalate_split hlen

theorem count_serialize (htitle : ';' ∉ item.title.toList) (hassignee : ';' ∉ item.assignee.toList) :
    (serializeTodoItem item).toList.count ';' = 5 := by
  have hcount := Fields.count_intercalate (not_mem_fields htitle hassignee) (by simp)
  rw [← toList_serialize] at hcount
  simpa [texts] using hcount

end TodoSerializer

open TodoSerializer

/-- An accepted line is written back as it was exactly when it has five semicolons and its fifth field is `true` or
    `false`. -/
theorem serialize_deserialize_iff {s : String} {item : TodoItem} (h : deserializeTodoItem s = .ok item) :
    serializeTodoItem item = s ↔
      s.toList.count ';' = 5 ∧ ((split s)[4]? = some "true" ∨ (split s)[4]? = some "false") := by
  obtain ⟨htitle, hassignee⟩ := deserialize_eq_ok h
  obtain ⟨flag, hread⟩ := readFrom_of_deserialize h
  have hfifth : (split s)[4]? = some "true" ∨ (split s)[4]? = some "false" ↔ boolText item.isDone = flag := by
    rw [hread.done, Option.some.injEq, Option.some.injEq, hread.isDone, boolText_parseBoolean_iff]
  rw [hfifth]
  constructor
  · intro hs
    have hcount := count_serialize htitle hassignee
    rw [hs] at hcount
    refine ⟨hcount, ?_⟩
    -- The fifth field of what is written is the text of the flag.
    have hsplit := split_serialize htitle hassignee
    rw [hs] at hsplit
    have hfour : (split s)[4]? = some (boolText item.isDone) := by
      rw [hsplit]
      split <;> rfl
    exact Option.some.inj (hfour.symm.trans hread.done)
  · rintro ⟨hcount, hdone⟩
    have hlt := (List.getElem?_eq_some_iff.mp hread.assignee).1
    have hle : (split s).length ≤ s.toList.count ';' + 1 := by
      rw [split, List.length_map]
      exact Fields.length_split_le s.toList
    have hfields := fields_of_length hread (by omega)
    have hjoin := toList_of_split (s := s) (by omega)
    rw [hfields, ← hdone] at hjoin
    exact String.toList_injective (toList_serialize.trans hjoin)

/-- A whole record. -/
theorem serialize_deserialize_milk : serializeTodoItem ⟨"Buy milk", .high, .store, .rest, true, "Ann"⟩ =
    "Buy milk;HIGH;STORE;REST;true;Ann" :=
  (serialize_deserialize_iff (s := "Buy milk;HIGH;STORE;REST;true;Ann") (by decide +kernel)).mpr (by decide +kernel)

/-- A seventh field is dropped, and the flag is read without its case. -/
theorem serialize_deserialize_changes :
    deserializeTodoItem "Buy milk;HIGH;STORE;REST;TRUE;Ann;extra" = .ok ⟨"Buy milk", .high, .store, .rest, true, "Ann"⟩ ∧
      serializeTodoItem ⟨"Buy milk", .high, .store, .rest, true, "Ann"⟩ ≠ "Buy milk;HIGH;STORE;REST;TRUE;Ann;extra" := by
  decide +kernel

end TodoWatch
