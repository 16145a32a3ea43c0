import TodoWatch.Lib.Sorting

/-! # What a stable sort keeps

A stable sort orders by the key first and by the original place next. So it commutes with taking elements
away, and the rank of an element is the number of the elements that come before it in this order. -/

namespace Sorting

section Order
variable {α κ : Type} [LinearOrder κ] {f : α → κ}

instance total_key : Std.Total fun x y : α => f x ≤ f y := ⟨fun x y => le_total (f x) (f y)⟩

instance trans_key : IsTrans α fun x y : α => f x ≤ f y := ⟨fun _ _ _ => le_trans⟩

end Order

/-! ### Elements taken away -/

section Filter
variable {α : Type} {r : α → α → Prop} [DecidableRel r]

theorem filter_orderedInsert [IsTrans α r] (p : α → Bool) (a : α) {l : List α} (h : l.Pairwise r) :
    (l.orderedInsert r a).filter p = if p a = true then (l.filter p).orderedInsert r a else l.filter p := by
  induction l with
  | nil =>
    rw [List.orderedInsert_nil, List.filter_cons, List.filter_nil, List.orderedInsert_nil]
  | cons b l ih =>
    have hb : ∀ x ∈ l, r b x := fun x hx => List.rel_of_pairwise_cons h hx
    by_cases hab : r a b
    · rw [List.orderedInsert_cons_of_le r l hab, List.filter_cons]
      split
      · -- What is left of the list does not come before `a` either.
        have hle : ∀ x ∈ (b :: l).filter p, r a x := by
          intro x hx
          rcases List.mem_cons.mp (List.mem_filter.mp hx).1 with rfl | hx
          · exact hab
          · exact trans_of r hab (hb x hx)
        cases hfilter : (b :: l).filter p with
        | nil => rfl
        | cons c t =>
          rw [hfilter] at hle
          exact (List.orderedInsert_cons_of_le r t (hle c List.mem_cons_self)).symm
      · rfl
    · rw [List.orderedInsert_of_not_le r l hab, List.filter_cons, List.filter_cons, ih h.of_cons]
      by_cases hpb : p b = true
      · simp only [if_pos hpb]
        split
        · rw [List.orderedInsert_of_not_le r _ hab]
        · rfl
      · simp only [if_neg hpb]

/-- Sorting commutes with taking elements away. -/
theorem filter_insertionSort [Std.Total r] [IsTrans α r] (p : α → Bool) (l : List α) :
    (l.insertionSort r).filter p = (l.filter p).insertionSort r := by
  induction l with
  | nil => rfl
  | cons a l ih =>
    rw [List.insertionSort_cons, filter_orderedInsert p a (List.pairwise_insertionSort r l), ih, List.filter_cons]
    split <;> rfl

end Filter

theorem sortByKey_filter {α ε κ : Type} [LinearOrder κ] {key : α → Except ε κ} {f : α → κ} {l : List α}
    (h : ∀ a ∈ l, key a = .ok (f a)) (p : α → Bool) :
    sortByKey key (l.filter p) = (sortByKey key l).map (List.filter p) := by
  rw [sortByKey_of_ok h, sortByKey_of_ok fun a ha => h a (List.mem_filter.mp ha).1, ← filter_insertionSort]
  rfl

section Key
variable {α κ : Type} [LinearOrder κ] {f g : α → κ} {l : List α} {s : α → α → Prop}

/-! ### Ranks -/

/-- `x` comes before `y`: its key is less, or the keys are equal and it stood before `y`. -/
def Before (f : α → κ) (s : α → α → Prop) (x y : α) : Prop := f x < f y ∨ f x = f y ∧ s x y

theorem pairwise_before_orderedInsert {a : α} (h : l.Pairwise (Before f s)) (ha : ∀ b ∈ l, s a b) :
    (l.orderedInsert (fun x y => f x ≤ f y) a).Pairwise (Before f s) := by
  induction l with
  | nil => exact List.pairwise_singleton _ a
  | cons b l ih =>
    have hb : ∀ x ∈ l, Before f s b x := fun x hx => List.rel_of_pairwise_cons h hx
    rw [List.orderedInsert_cons]
    split
    · rename_i hab
      refine List.pairwise_cons.mpr ⟨fun x hx => ?_, h⟩
      have hax : f a ≤ f x := by
        rcases List.mem_cons.mp hx with rfl | hx
        · exact hab
        · exact hab.trans ((hb x hx).elim le_of_lt fun heq => heq.1.le)
      exact hax.lt_or_eq.imp_right fun heq => ⟨heq, ha x hx⟩
    · rename_i hab
      refine List.pairwise_cons.mpr ⟨fun x hx => ?_, ih h.of_cons fun x hx => ha x (List.mem_cons_of_mem b hx)⟩
      rcases (List.mem_orderedInsert _).mp hx with rfl | hx
      · exact Or.inl (lt_of_not_ge hab)
      · exact hb x hx

theorem pairwise_before_insertionSort (h : l.Pairwise s) :
    (l.insertionSort fun x y => f x ≤ f y).Pairwise (Before f s) := by
  induction l with
  | nil => exact List.Pairwise.nil
  | cons a l ih =>
    refine pairwise_before_orderedInsert (ih h.of_cons) fun b hb => ?_
    exact List.rel_of_pairwise_cons h ((List.mem_insertionSort _).mp hb)

/-- A stable sort that goes through orders by the keys, and by the places where the keys are equal. -/
theorem pairwise_of_sortByKey {ε : Type} {key : α → Except ε κ} {l' : List α} (hs : l.Pairwise s)
    (h : sortByKey key l = .ok l') :
    l'.Pairwise fun x y => ∃ kx ky, key x = .ok kx ∧ key y = .ok ky ∧ (kx < ky ∨ kx = ky ∧ s x y) := by
  rcases l with _ | ⟨a, _ | ⟨b, l⟩⟩
  · rw [← Except.ok.inj h]
    exact List.Pairwise.nil
  · rw [← Except.ok.inj h]
    exact List.pairwise_singleton _ a
  · have hkeys := ok_of_sortByKey h (by simp)
    obtain ⟨k, -⟩ := hkeys a List.mem_cons_self
    have : Nonempty κ := ⟨k⟩
    choose! f hf using hkeys
    rw [sortByKey_of_ok hf] at h
    obtain rfl := Except.ok.inj h
    refine (pairwise_before_insertionSort hs).imp_of_mem fun hx hy hbefore => ?_
    exact ⟨_, _, hf _ ((List.mem_insertionSort _).mp hx), hf _ ((List.mem_insertionSort _).mp hy), hbefore⟩

/-- In a list that is ordered by an asymmetric relation, as many elements stand before one as are related to it. -/
theorem idxOf_of_pairwise [DecidableEq α] {r : α → α → Prop} [DecidableRel r] (hasymm : ∀ x y, r x y → ¬r y x)
    (h : l.Pairwise r) {a : α} (ha : a ∈ l) : l.idxOf a = l.countP (r · a) := by
  induction l with
  | nil => exact absurd ha List.not_mem_nil
  | cons b l ih =>
    have hb : ∀ x ∈ l, r b x := fun x hx => List.rel_of_pairwise_cons h hx
    by_cases hba : b = a
    · subst hba
      have hnone : (b :: l).countP (r · b) = 0 := by
        refine List.countP_eq_zero.mpr fun x hx hr => ?_
        have hr : r x b := of_decide_eq_true hr
        rcases List.mem_cons.mp hx with rfl | hx
        · exact hasymm x x hr hr
        · exact hasymm x b hr (hb x hx)
      rw [List.idxOf_cons_self, hnone]
    · have ha : a ∈ l := (List.mem_cons.mp ha).resolve_left (Ne.symm hba)
      rw [List.idxOf_cons_ne l hba, ih h.of_cons ha, List.countP_cons, if_pos (decide_eq_true (hb a ha))]

variable [DecidableEq α] [DecidableRel s] {a : α}

instance : DecidableRel (Before f s) := fun x y => inferInstanceAs (Decidable (f x < f y ∨ f x = f y ∧ s x y))

/-- The rank of an element in a stable sort. -/
theorem idxOf_insertionSort (hasymm : ∀ x y, s x y → ¬s y x) (h : l.Pairwise s) (ha : a ∈ l) :
    (l.insertionSort fun x y => f x ≤ f y).idxOf a = l.countP (Before f s · a) := by
  have hbefore : ∀ x y, Before f s x y → ¬Before f s y x := by
    rintro x y (hlt | ⟨heq, hs⟩) (hlt' | ⟨heq', hs'⟩)
    · exact lt_asymm hlt hlt'
    · exact hlt.ne' heq'
    · exact hlt'.ne' heq
    · exact hasymm x y hs hs'
  rw [idxOf_of_pairwise hbefore (pairwise_before_insertionSort h) ((List.mem_insertionSort _).mpr ha)]
  exact (List.perm_insertionSort _ l).countP_eq _

/-- An element whose key becomes less does not fall in rank. -/
theorem idxOf_insertionSort_le (hasymm : ∀ x y, s x y → ¬s y x) (h : l.Pairwise s) (ha : a ∈ l) (hle : g a ≤ f a)
    (hsame : ∀ x, x ≠ a → g x = f x) :
    (l.insertionSort fun x y => g x ≤ g y).idxOf a ≤ (l.insertionSort fun x y => f x ≤ f y).idxOf a := by
  rw [idxOf_insertionSort hasymm h ha, idxOf_insertionSort hasymm h ha]
  refine List.countP_mono_left fun x _ hx => decide_eq_true ?_
  have hx : Before g s x a := of_decide_eq_true hx
  by_cases hxa : x = a
  · subst hxa
    exact Or.inr ⟨rfl, hx.resolve_left (lt_irrefl _) |>.2⟩
  · unfold Before at hx
    rw [hsame x hxa] at hx
    rcases hx with hlt | ⟨heq, hs⟩
    · exact Or.inl (hlt.trans_le hle)
    · exact (heq.trans_le hle).lt_or_eq.imp_right fun heq => ⟨heq, hs⟩

/-- The order of the others does not depend on the key of an element. -/
theorem filter_ne_insertionSort (hsame : ∀ x, x ≠ a → g x = f x) :
    (l.insertionSort fun x y => g x ≤ g y).filter (· ≠ a) = (l.insertionSort fun x y => f x ≤ f y).filter (· ≠ a) := by
  rw [filter_insertionSort, filter_insertionSort]
  have hmap := List.map_insertionSort (fun x y => g x ≤ g y) (fun x y => f x ≤ f y) id (l.filter (· ≠ a))
    fun x hx y hy => by
      rw [hsame x (by simpa using (List.mem_filter.mp hx).2), hsame y (by simpa using (List.mem_filter.mp hy).2)]
      rfl
  rwa [List.map_id, List.map_id] at hmap

end Key

/-! ### References -/

section References
variable {α β ε κ : Type} {key : β → Except ε κ} {h : α → β}

theorem mapM_map (l : List α) : ((l.map h).mapM fun x => (key x).map (·, x)) =
    (l.mapM fun a => (key (h a)).map (·, a)).map (List.map (Prod.map id h)) := by
  induction l with
  | nil => rfl
  | cons a l ih =>
    rw [List.map_cons, List.mapM_cons, List.mapM_cons, ih]
    cases key (h a) with
    | error e => rfl
    | ok k =>
      cases l.mapM fun a => (key (h a)).map (·, a) with
      | error e => rfl
      | ok keyed => rfl

variable [LE κ] [DecidableLE κ]

/-- Sorting references by what they refer to sorts what they refer to. -/
theorem sortByKey_map (l : List α) :
    sortByKey key (l.map h) = (sortByKey (fun a => key (h a)) l).map (List.map h) := by
  rcases l with _ | ⟨a, _ | ⟨b, l⟩⟩
  · rfl
  · rfl
  · rw [List.map_cons, List.map_cons, sortByKey, ← List.map_cons, ← List.map_cons, mapM_map, sortByKey]
    cases (a :: b :: l).mapM fun a => (key (h a)).map (·, a) with
    | error e => rfl
    | ok keyed =>
      have hmap := List.map_insertionSort (fun x y : κ × α => x.1 ≤ y.1) (fun x y : κ × β => x.1 ≤ y.1)
        (Prod.map id h) keyed fun _ _ _ _ => Iff.rfl
      show Except.ok _ = Except.ok _
      rw [← hmap, List.map_map, List.map_map]
      rfl

end References

end Sorting
