import Mathlib.Data.List.Sort

/-! # Stable sorting by a key that may fail

`List.insertionSort` is a stable sort: with a reflexive order an element stays before the later
elements that compare equal. Here it sorts by a key whose computation may end in an error. -/

namespace Sorting

variable {α ε κ : Type} [LE κ] [DecidableLE κ]

/-- The stable sort in increasing order of `key`. Fewer than two elements are not compared, so the key
    of a single element is not computed. -/
def sortByKey (key : α → Except ε κ) : List α → Except ε (List α)
  | [] => .ok []
  | [a] => .ok [a]
  | a :: b :: l => do
    let keyed ← (a :: b :: l).mapM fun x => (key x).map (·, x)
    return (keyed.insertionSort fun x y => x.1 ≤ y.1).map Prod.snd

theorem mapM_of_ok {β : Type} {g : α → Except ε β} {f : α → β} :
    ∀ {l : List α}, (∀ a ∈ l, g a = .ok (f a)) → l.mapM g = .ok (l.map f)
  | [], _ => rfl
  | a :: l, h => by
    rw [List.mapM_cons, h a List.mem_cons_self, mapM_of_ok fun b hb => h b (List.mem_cons_of_mem a hb)]
    rfl

theorem sortByKey_of_ok {key : α → Except ε κ} {f : α → κ} {l : List α} (h : ∀ a ∈ l, key a = .ok (f a)) :
    sortByKey key l = .ok (l.insertionSort fun x y => f x ≤ f y) := by
  rcases l with _ | ⟨a, _ | ⟨b, l⟩⟩
  · rfl
  · rfl
  · have hkeyed : ∀ x ∈ a :: b :: l, (key x).map (·, x) = .ok (f x, x) := fun x hx => by rw [h x hx]; rfl
    rw [sortByKey, mapM_of_ok hkeyed]
    show Except.ok _ = Except.ok _
    -- Forgetting the computed keys turns the sort of the pairs into the sort of the elements.
    have hmap := List.map_insertionSort (fun x y : κ × α => x.1 ≤ y.1) (fun x y => f x ≤ f y) Prod.snd
      ((a :: b :: l).map fun x => (f x, x)) fun x hx y hy => by
        obtain ⟨x', -, rfl⟩ := List.mem_map.mp hx
        obtain ⟨y', -, rfl⟩ := List.mem_map.mp hy
        exact Iff.rfl
    rw [hmap, List.map_map]
    exact congrArg (fun l => Except.ok (List.insertionSort _ l)) (List.map_id _)

theorem mapM_cons_eq_ok {β : Type} {g : α → Except ε β} {a : α} {l : List α} {bs : List β}
    (h : (a :: l).mapM g = .ok bs) : ∃ b rest, g a = .ok b ∧ l.mapM g = .ok rest ∧ bs = b :: rest := by
  rw [List.mapM_cons] at h
  cases hx : g a with
  | error e =>
    rw [hx] at h
    cases h
  | ok b =>
    rw [hx] at h
    cases hl : l.mapM g with
    | error e =>
      rw [hl] at h
      cases h
    | ok rest =>
      rw [hl] at h
      exact ⟨b, rest, rfl, rfl, (Except.ok.inj h).symm⟩

theorem map_eq_ok {β γ : Type} {x : Except ε β} {f : β → γ} {c : γ} (h : x.map f = .ok c) :
    ∃ b, x = .ok b ∧ f b = c := by
  cases x with
  | error e => cases h
  | ok b => exact ⟨b, rfl, Except.ok.inj h⟩

/-- The computed keys stand beside the elements. -/
theorem map_snd_of_mapM {β : Type} {key : α → Except ε β} {l : List α} {keyed : List (β × α)}
    (h : (l.mapM fun x => (key x).map (·, x)) = .ok keyed) : keyed.map Prod.snd = l := by
  induction l generalizing keyed with
  | nil =>
    rw [← Except.ok.inj h]
    rfl
  | cons x l ih =>
    obtain ⟨b, rest, hx, hl, rfl⟩ := mapM_cons_eq_ok h
    obtain ⟨k, -, rfl⟩ := map_eq_ok hx
    rw [List.map_cons, ih hl]

theorem ok_of_mapM {β : Type} {g : α → Except ε β} {l : List α} {bs : List β} (h : l.mapM g = .ok bs) :
    ∀ a ∈ l, ∃ b, g a = .ok b := by
  induction l generalizing bs with
  | nil => exact fun _ ha => absurd ha List.not_mem_nil
  | cons x l ih =>
    obtain ⟨b, rest, hx, hl, -⟩ := mapM_cons_eq_ok h
    intro a ha
    rcases List.mem_cons.mp ha with rfl | ha
    · exact ⟨b, hx⟩
    · exact ih hl a ha

/-- A sort that compares has computed every key. -/
theorem sortByKey_eq_ok {key : α → Except ε κ} {l l' : List α} (h : sortByKey key l = .ok l') (hl : 2 ≤ l.length) :
    ∃ keyed, (l.mapM fun x => (key x).map (·, x)) = .ok keyed ∧
      l' = (keyed.insertionSort fun x y => x.1 ≤ y.1).map Prod.snd := by
  rcases l with _ | ⟨a, _ | ⟨b, l⟩⟩
  · simp at hl
  · simp at hl
  · rw [sortByKey] at h
    cases hk : (a :: b :: l).mapM fun x => (key x).map (·, x) with
    | error e =>
      rw [hk] at h
      cases h
    | ok keyed =>
      rw [hk] at h
      exact ⟨keyed, rfl, (Except.ok.inj h).symm⟩

theorem sortByKey_of_length_lt {key : α → Except ε κ} {l : List α} (hl : l.length < 2) :
    sortByKey key l = .ok l := by
  rcases l with _ | ⟨a, _ | ⟨b, l⟩⟩
  · rfl
  · rfl
  · simp only [List.length_cons] at hl
    omega

/-- Sorting only reorders. -/
theorem perm_of_sortByKey {key : α → Except ε κ} {l l' : List α} (h : sortByKey key l = .ok l') : l'.Perm l := by
  by_cases hl : 2 ≤ l.length
  · obtain ⟨keyed, hk, rfl⟩ := sortByKey_eq_ok h hl
    have hperm := (List.perm_insertionSort (fun x y : κ × α => x.1 ≤ y.1) keyed).map Prod.snd
    rwa [map_snd_of_mapM hk] at hperm
  · rw [sortByKey_of_length_lt (Nat.lt_of_not_le hl)] at h
    obtain rfl := Except.ok.inj h
    exact List.Perm.refl _

theorem ok_of_sortByKey {key : α → Except ε κ} {l l' : List α} (h : sortByKey key l = .ok l') (hl : 2 ≤ l.length) :
    ∀ a ∈ l, ∃ k, key a = .ok k := by
  obtain ⟨keyed, hk, -⟩ := sortByKey_eq_ok h hl
  intro a ha
  obtain ⟨x, hx⟩ := ok_of_mapM hk a ha
  obtain ⟨k, hka, -⟩ := map_eq_ok hx
  exact ⟨k, hka⟩

theorem error_of_mapM {β : Type} {g : α → Except ε β} {e : ε} {l : List α} (h : l.mapM g = .error e) :
    ∃ a ∈ l, g a = .error e := by
  induction l with
  | nil => cases h
  | cons x l ih =>
    rw [List.mapM_cons] at h
    cases hx : g x with
    | error e' =>
      rw [hx] at h
      obtain rfl := Except.error.inj h
      exact ⟨x, List.mem_cons_self, hx⟩
    | ok b =>
      rw [hx] at h
      cases hl : l.mapM g with
      | error e' =>
        rw [hl] at h
        obtain rfl := Except.error.inj h
        obtain ⟨a, ha, hga⟩ := ih hl
        exact ⟨a, List.mem_cons_of_mem x ha, hga⟩
      | ok bs =>
        rw [hl] at h
        cases h

/-- An error of the sort is one of a key. -/
theorem error_of_sortByKey {key : α → Except ε κ} {e : ε} {l : List α} (h : sortByKey key l = .error e) :
    ∃ a ∈ l, key a = .error e := by
  rcases l with _ | ⟨a, _ | ⟨b, l⟩⟩
  · cases h
  · cases h
  · rw [sortByKey] at h
    cases hk : (a :: b :: l).mapM fun x => (key x).map (·, x) with
    | ok keyed =>
      rw [hk] at h
      cases h
    | error e' =>
      rw [hk] at h
      obtain rfl := Except.error.inj h
      obtain ⟨x, hx, hkey⟩ := error_of_mapM hk
      cases hkx : key x with
      | ok k =>
        rw [hkx] at hkey
        cases hkey
      | error e'' =>
        rw [hkx] at hkey
        obtain rfl := Except.error.inj hkey
        exact ⟨x, hx, hkx⟩

/-- An error in every key leaves as soon as two elements are compared. -/
theorem sortByKey_of_error {key : α → Except ε κ} {e : ε} {l : List α} (h : ∀ a ∈ l, key a = .error e)
    (hl : 2 ≤ l.length) : sortByKey key l = .error e := by
  rcases l with _ | ⟨a, _ | ⟨b, l⟩⟩
  · simp at hl
  · simp at hl
  · rw [sortByKey, List.mapM_cons, h a List.mem_cons_self]
    rfl

end Sorting

namespace Sorting

variable {α κ : Type} [LinearOrder κ] {f : α → κ} {l : List α}

theorem insertionSort_eq_nil_iff {r : α → α → Prop} [DecidableRel r] : l.insertionSort r = [] ↔ l = [] := by
  rw [← List.length_eq_zero_iff, List.length_insertionSort, List.length_eq_zero_iff]

theorem head?_insertionSort_cons (a : α) :
    ((a :: l).insertionSort fun x y => f x ≤ f y).head? =
      match (l.insertionSort fun x y => f x ≤ f y).head? with
      | none => some a
      | some b => if f a ≤ f b then some a else some b := by
  rw [List.insertionSort_cons]
  cases l.insertionSort fun x y => f x ≤ f y with
  | nil => rfl
  | cons b t =>
    rw [List.orderedInsert_cons, List.head?_cons]
    dsimp only
    split <;> rfl

/-- `a` is the first of the elements with the least key. -/
def FirstLeast (f : α → κ) (l : List α) (a : α) : Prop :=
  ∃ before after, l = before ++ a :: after ∧ (∀ x ∈ before, f a < f x) ∧ ∀ x ∈ after, f a ≤ f x

theorem FirstLeast.least {a : α} (h : FirstLeast f l a) : a ∈ l ∧ ∀ b ∈ l, f a ≤ f b := by
  obtain ⟨before, after, rfl, hbefore, hafter⟩ := h
  refine ⟨List.mem_append_right _ List.mem_cons_self, fun b hb => ?_⟩
  rcases List.mem_append.mp hb with hb | hb
  · exact (hbefore b hb).le
  · rcases List.mem_cons.mp hb with rfl | hb
    · exact le_refl _
    · exact hafter b hb

theorem firstLeast_of_head? : ∀ {l : List α} {a : α}, (l.insertionSort fun x y => f x ≤ f y).head? = some a →
    FirstLeast f l a
  | [], _, h => by cases h
  | x :: l, a, h => by
    rw [head?_insertionSort_cons] at h
    cases hl : (l.insertionSort fun x y => f x ≤ f y).head? with
    | none =>
      rw [hl] at h
      obtain rfl := Option.some.inj h
      obtain rfl := insertionSort_eq_nil_iff.mp (List.head?_eq_none_iff.mp hl)
      exact ⟨[], [], rfl, fun _ hy => absurd hy List.not_mem_nil, fun _ hy => absurd hy List.not_mem_nil⟩
    | some b =>
      rw [hl] at h
      have hfirst := firstLeast_of_head? hl
      dsimp only at h
      split at h
      · rename_i hle
        obtain rfl := Option.some.inj h
        exact ⟨[], l, rfl, fun _ hy => absurd hy List.not_mem_nil, fun y hy => hle.trans (hfirst.least.2 y hy)⟩
      · rename_i hlt
        obtain rfl := Option.some.inj h
        obtain ⟨before, after, rfl, hbefore, hafter⟩ := hfirst
        refine ⟨x :: before, after, rfl, fun y hy => ?_, hafter⟩
        rcases List.mem_cons.mp hy with rfl | hy
        · exact lt_of_not_ge hlt
        · exact hbefore y hy

theorem FirstLeast.unique {a b : α} (ha : FirstLeast f l a) (hb : FirstLeast f l b) : a = b := by
  obtain ⟨before, after, rfl, hbefore, hafter⟩ := ha
  obtain ⟨before', after', heq, hbefore', hafter'⟩ := hb
  rcases List.append_eq_append_iff.mp heq with ⟨c, rfl, hc⟩ | ⟨c, rfl, hc⟩
  · cases c with
    | nil => exact (List.cons.inj hc).1
    | cons x c =>
      obtain ⟨rfl, rfl⟩ := List.cons.inj hc
      -- `a` would stand before `b`, and `b` after `a`.
      have hlt := hbefore' a (List.mem_append_right _ List.mem_cons_self)
      exact absurd (hafter b (List.mem_append_right _ List.mem_cons_self)) (not_le_of_gt hlt)
  · cases c with
    | nil => exact (List.cons.inj hc).1.symm
    | cons x c =>
      obtain ⟨rfl, rfl⟩ := List.cons.inj hc
      have hlt := hbefore b (List.mem_append_right _ List.mem_cons_self)
      exact absurd (hafter' a (List.mem_append_right _ List.mem_cons_self)) (not_le_of_gt hlt)

/-- A stable sort begins with the first of the elements with the least key. -/
theorem head?_insertionSort_iff {a : α} :
    (l.insertionSort fun x y => f x ≤ f y).head? = some a ↔ FirstLeast f l a := by
  refine ⟨firstLeast_of_head?, fun h => ?_⟩
  cases hl : (l.insertionSort fun x y => f x ≤ f y).head? with
  | none =>
    obtain rfl := insertionSort_eq_nil_iff.mp (List.head?_eq_none_iff.mp hl)
    obtain ⟨before, after, hnil, -⟩ := h
    exact absurd hnil (by simp)
  | some b => rw [(firstLeast_of_head? hl).unique h]

end Sorting
