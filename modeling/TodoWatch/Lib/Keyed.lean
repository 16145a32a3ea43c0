import Mathlib.Data.List.Induction
import Mathlib.Data.List.Nodup
import Mathlib.Logic.Function.Basic

/-! # Lists under a key

In a list whose elements have distinct keys, the element that a key finds first is the only one under it, so
replacing or removing it at its position replaces or removes whatever has the key. In any list it is the head of the
queue of the elements under the key. In a list where later elements
supersede earlier ones, the last ones are those that nothing after them supersedes. -/

namespace Keyed

variable {α κ : Type} {f : α → κ} {l : List α} {a b : α} {i : Nat}

/-- An element replaced under its own key. -/
theorem map_set (hi : l[i]? = some a) (hkey : f b = f a) : (l.set i b).map f = l.map f := by
  obtain ⟨hlt, hget⟩ := List.getElem?_eq_some_iff.mp hi
  have hlt' : i < (l.map f).length := by rwa [List.length_map]
  have hkey' : f b = (l.map f)[i] := by rw [List.getElem_map, hget, hkey]
  rw [List.map_set, hkey', List.set_getElem_self]

theorem eq_of_mem_set (h : (l.map f).Nodup) (hi : l[i]? = some a) (hkey : f b = f a) {x : α} (hx : x ∈ l.set i b)
    (hxkey : f x = f b) : x = b := by
  have hnodup : ((l.set i b).map f).Nodup := by rwa [map_set hi hkey]
  obtain ⟨hlt, -⟩ := List.getElem?_eq_some_iff.mp hi
  exact List.inj_on_of_nodup_map hnodup hx (List.mem_set hlt b) hxkey

/-- Distinct keys tell the positions. -/
theorem index_eq (h : (l.map f).Nodup) {j : Nat} (hi : l[i]? = some a) (hj : l[j]? = some b) (hkey : f b = f a) :
    j = i := by
  have hget : (l.map f)[j]? = (l.map f)[i]? := by
    rw [List.getElem?_map, List.getElem?_map, hj, hi, Option.map_some, Option.map_some, hkey]
  have hlt : j < (l.map f).length := by
    rw [List.length_map]
    exact (List.getElem?_eq_some_iff.mp hj).1
  exact (List.getElem?_inj hlt h).mp hget

theorem key_ne_of_mem_eraseIdx (h : (l.map f).Nodup) (hi : l[i]? = some a) {x : α} (hx : x ∈ l.eraseIdx i) :
    f x ≠ f a := by
  obtain ⟨j, hji, hj⟩ := List.mem_eraseIdx_iff_getElem?.mp hx
  exact fun hkey => hji (index_eq h hi hj hkey)

theorem nodup_eraseIdx (h : (l.map f).Nodup) : ((l.eraseIdx i).map f).Nodup :=
  h.sublist ((List.eraseIdx_sublist l i).map f)

theorem nodup_append_iff (h : (l.map f).Nodup) : ((l ++ [a]).map f).Nodup ↔ f a ∉ l.map f := by
  rw [List.map_append, List.map_singleton, ← List.concat_eq_append, List.nodup_concat]
  exact ⟨fun hn => hn.1, fun hn => ⟨hn, h⟩⟩

section Find
variable [DecidableEq κ] {k : κ}

theorem getElem?_of_findIdx? (h : l.findIdx? (f · == k) = some i) : ∃ a, l[i]? = some a ∧ f a = k := by
  obtain ⟨hlt, hkey, -⟩ := List.findIdx?_eq_some_iff_getElem.mp h
  exact ⟨l[i], List.getElem?_eq_getElem hlt, by simpa using hkey⟩

theorem findIdx?_eq_none (h : l.findIdx? (f · == k) = none) : ∀ x ∈ l, f x ≠ k := fun x hx => by
  simpa using List.findIdx?_eq_none_iff.mp h x hx

/-- The key of an element finds its position. -/
theorem findIdx?_of_nodup (h : (l.map f).Nodup) (hi : l[i]? = some a) : l.findIdx? (f · == f a) = some i := by
  cases hfind : l.findIdx? (f · == f a) with
  | none => exact absurd rfl (findIdx?_eq_none hfind a (List.mem_of_getElem? hi))
  | some j =>
    obtain ⟨b, hj, hkey⟩ := getElem?_of_findIdx? hfind
    rw [index_eq h hi hj hkey]

theorem find?_of_nodup (h : (l.map f).Nodup) (ha : a ∈ l) : l.find? (f · == f a) = some a := by
  cases hfind : l.find? (f · == f a) with
  | none => exact absurd (beq_self_eq_true (f a)) (List.find?_eq_none.mp hfind a ha)
  | some b =>
    have hkey : f b = f a := by simpa using List.find?_some hfind
    rw [List.inj_on_of_nodup_map h (List.mem_of_find?_eq_some hfind) ha hkey]

end Find

/-! ### Queues -/

section Queues
variable [DecidableEq κ] {k : κ}

/-- The elements under each key, in the order of the list. -/
def queues (f : α → κ) (l : List α) (k : κ) : List α := l.filter (f · == k)

/-- The element that a key finds is the first one under it. -/
theorem split_of_findIdx? (h : l.findIdx? (f · == k) = some i) : ∃ before x after,
    l = before ++ x :: after ∧ before.length = i ∧ f x = k ∧ queues f before k = [] := by
  obtain ⟨hlt, hkey, hbefore⟩ := List.findIdx?_eq_some_iff_getElem.mp h
  refine ⟨l.take i, l[i], l.drop (i + 1), ?_, List.length_take_of_le (Nat.le_of_lt hlt), by simpa using hkey, ?_⟩
  · rw [List.getElem_cons_drop hlt, List.take_append_drop]
  · refine List.filter_eq_nil_iff.mpr fun y hy => ?_
    obtain ⟨j, hj, rfl⟩ := List.mem_take_iff_getElem.mp hy
    simpa using hbefore j (by omega)

theorem queues_append : queues f (l ++ [a]) = Function.update (queues f l) (f a) (queues f l (f a) ++ [a]) := by
  funext k
  by_cases hk : k = f a
  · subst hk
    simp [queues]
  · rw [Function.update_of_ne hk]
    simp [queues, Ne.symm hk]

/-- Replacing the element that its key finds replaces the head of a queue. -/
theorem queues_set (h : l.findIdx? (f · == f b) = some i) :
    queues f (l.set i b) = Function.update (queues f l) (f b) (b :: (queues f l (f b)).tail) := by
  obtain ⟨before, x, after, rfl, rfl, hx, hnone⟩ := split_of_findIdx? h
  unfold queues at hnone
  funext k
  by_cases hk : k = f b
  · subst hk
    simp [queues, hnone, hx]
  · rw [Function.update_of_ne hk]
    simp [queues, hx, Ne.symm hk]

/-- Removing the element that a key finds takes the head of its queue. -/
theorem queues_eraseIdx (h : l.findIdx? (f · == k) = some i) :
    queues f (l.eraseIdx i) = Function.update (queues f l) k (queues f l k).tail := by
  obtain ⟨before, x, after, rfl, rfl, rfl, hnone⟩ := split_of_findIdx? h
  unfold queues at hnone
  rw [List.eraseIdx_append_of_length_le (Nat.le_refl _), Nat.sub_self, List.eraseIdx_cons_zero]
  funext k
  by_cases hk : k = f x
  · subst hk
    simp [queues, hnone]
  · rw [Function.update_of_ne hk]
    simp [queues, Ne.symm hk]

theorem queues_ne_nil (h : l.findIdx? (f · == k) = some i) : queues f l k ≠ [] := by
  obtain ⟨x, hi, hx⟩ := getElem?_of_findIdx? h
  exact List.ne_nil_of_mem (List.mem_filter.mpr ⟨List.mem_of_getElem? hi, by simpa using hx⟩)

theorem queues_eq_nil (h : l.findIdx? (f · == k) = none) : queues f l k = [] :=
  List.filter_eq_nil_iff.mpr fun x hx => by simpa using findIdx?_eq_none h x hx

end Queues

section Last
variable {supersedes : α → α → Prop}

/-- `a` stands in the list, and no element after it supersedes it. -/
def Last (supersedes : α → α → Prop) (l : List α) (a : α) : Prop :=
  ∃ before after, l = before ++ a :: after ∧ ∀ x ∈ after, ¬supersedes x a

theorem not_last_nil : ¬Last supersedes [] a := by
  rintro ⟨before, after, h, -⟩
  exact absurd h (by simp)

theorem last_append_iff : Last supersedes (l ++ [b]) a ↔ a = b ∨ (Last supersedes l a ∧ ¬supersedes b a) := by
  constructor
  · rintro ⟨before, after, h, hlast⟩
    cases after using List.reverseRecOn with
    | nil =>
      obtain ⟨-, hab⟩ := List.append_inj' h rfl
      exact Or.inl (List.singleton_inj.mp hab).symm
    | append_singleton after x =>
      rw [← List.cons_append, ← List.append_assoc] at h
      obtain ⟨rfl, hbx⟩ := List.append_inj' h rfl
      obtain rfl := List.singleton_inj.mp hbx
      exact Or.inr ⟨⟨before, after, rfl, fun y hy => hlast y (List.mem_append_left _ hy)⟩,
        hlast b (List.mem_append_right _ List.mem_cons_self)⟩
  · rintro (rfl | ⟨⟨before, after, rfl, hlast⟩, hb⟩)
    · exact ⟨l, [], rfl, fun _ hx => absurd hx List.not_mem_nil⟩
    · refine ⟨before, after ++ [b], by rw [List.append_assoc, List.cons_append], fun x hx => ?_⟩
      rcases List.mem_append.mp hx with hx | hx
      · exact hlast x hx
      · rwa [List.mem_singleton.mp hx]

end Last

end Keyed
