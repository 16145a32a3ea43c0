import Mathlib.Data.List.DropRight

/-! # Fields between separators

A text is cut at each separator, and the empty fields at its end are dropped, unless there is only one
field. So of the texts that join fields without separator, those are cut back into their fields whose last
field is not empty. -/

namespace Fields

variable {α : Type} [DecidableEq α] (sep : α)

def split (text : List α) : List (List α) :=
  match text.splitOn sep with
  | [field] => [field]
  | fields => fields.rdropWhile List.isEmpty

variable {sep} {text field : List α} {fields : List (List α)}

theorem not_mem_of_mem_splitOn (h : field ∈ text.splitOn sep) : sep ∉ field := by
  induction text generalizing field with
  | nil =>
    obtain rfl := List.mem_singleton.mp h
    exact List.not_mem_nil
  | cons c text ih =>
    obtain ⟨first, rest, hsplit⟩ := List.exists_cons_of_ne_nil (List.splitOn_ne_nil sep text)
    rw [hsplit] at ih
    rw [List.splitOn_cons_eq_if_modifyHead, hsplit] at h
    split at h
    · rcases List.mem_cons.mp h with rfl | h
      · exact List.not_mem_nil
      · exact ih h
    · rename_i hc
      rcases List.mem_cons.mp h with rfl | h
      · intro hmem
        rcases List.mem_cons.mp hmem with rfl | hmem
        · exact hc (beq_self_eq_true _)
        · exact ih List.mem_cons_self hmem
      · exact ih (List.mem_cons_of_mem first h)

theorem not_mem_of_mem_split (h : field ∈ split sep text) : sep ∉ field := by
  unfold split at h
  split at h
  · rename_i heq
    rw [← heq] at h
    exact not_mem_of_mem_splitOn h
  · exact not_mem_of_mem_splitOn ((List.rdropWhile_prefix List.isEmpty _).subset h)

/-- Of several fields without separator, joined, the empty ones at the end are lost. -/
theorem split_intercalate (hsep : ∀ f ∈ fields, sep ∉ f) (hlen : 2 ≤ fields.length) :
    split sep ([sep].intercalate fields) = fields.rdropWhile List.isEmpty := by
  have hne : fields ≠ [] := fun h => by simp [h] at hlen
  unfold split
  rw [List.splitOn_intercalate sep hsep hne]
  split
  · simp at hlen
  · rfl

theorem length_splitOn (text : List α) : (text.splitOn sep).length = text.count sep + 1 := by
  induction text with
  | nil => rfl
  | cons c text ih =>
    obtain ⟨first, rest, hsplit⟩ := List.exists_cons_of_ne_nil (List.splitOn_ne_nil sep text)
    rw [List.splitOn_cons_eq_if_modifyHead, List.count_cons]
    split
    · rw [List.length_cons, ih]
    · rw [List.length_modifyHead, ih, Nat.add_zero]

theorem length_split_le (text : List α) : (split sep text).length ≤ text.count sep + 1 := by
  rw [← length_splitOn]
  unfold split
  split
  · rename_i heq
    rw [heq]
  · exact (List.rdropWhile_prefix List.isEmpty _).length_le

/-- A text with one field more than separators has lost none. -/
theorem intercalate_split (h : text.count sep < (split sep text).length) :
    [sep].intercalate (split sep text) = text := by
  have hsplit : split sep text = text.splitOn sep := by
    unfold split at h ⊢
    split
    · rename_i heq
      exact heq.symm
    · rename_i hmany
      refine (List.rdropWhile_prefix List.isEmpty _).eq_of_length_le ?_
      rw [length_splitOn]
      split at h
      · rename_i field heq
        exact absurd heq (hmany field)
      · exact h
  rw [hsplit, List.intercalate_splitOn]

theorem count_intercalate (hsep : ∀ f ∈ fields, sep ∉ f) (hne : fields ≠ []) :
    ([sep].intercalate fields).count sep + 1 = fields.length := by
  rw [← length_splitOn, List.splitOn_intercalate sep hsep hne]

end Fields
