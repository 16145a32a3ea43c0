import Mathlib.Data.List.Infix

/-! # Labels in a text

A label begins with a mark that it has nowhere else, so two labels in a text never overlap. A text that is cut
at a label in two ways therefore has it twice. -/

namespace Labels

variable {α : Type} {mark : α} {L M x y x' y' d : List α}

/-- `L` begins with the mark and has it nowhere else. -/
def IsLabel (mark : α) (L : List α) : Prop := ∃ rest, L = mark :: rest ∧ mark ∉ rest

/-- Of two cuts the later one lies behind the whole label of the first. -/
theorem cut_after (hL : IsLabel mark L) (hM : IsLabel mark M) (hd : d ≠ []) (h : L ++ y = d ++ (M ++ y')) :
    ∃ z, d = L ++ z ∧ y = z ++ M ++ y' := by
  rcases List.append_eq_append_iff.mp h with ⟨e, rfl, hy⟩ | ⟨e, hLe, hM'⟩
  · exact ⟨e, rfl, by rw [hy, List.append_assoc]⟩
  · cases e with
    | nil => exact ⟨[], by rw [hLe, List.append_nil, List.append_nil], by rw [← List.nil_append y, ← hM', List.nil_append]⟩
    | cons b e =>
      -- The second label would begin inside the first, where the mark is not.
      obtain ⟨rest, rfl, hrest⟩ := hL
      obtain ⟨rest', rfl, -⟩ := hM
      obtain ⟨a, d, rfl⟩ := List.exists_cons_of_ne_nil hd
      obtain ⟨-, hinside⟩ := List.cons.inj hLe
      obtain ⟨rfl, -⟩ := List.cons.inj hM'
      exact absurd (hinside ▸ List.mem_append_right _ List.mem_cons_self) hrest

theorem cut_cases (hL : IsLabel mark L) (hM : IsLabel mark M) (h : x ++ L ++ y = x' ++ M ++ y') :
    (x = x' ∧ L ++ y = M ++ y') ∨ (∃ z, x' = x ++ L ++ z ∧ y = z ++ M ++ y') ∨
      ∃ z, x = x' ++ M ++ z ∧ y' = z ++ L ++ y := by
  rw [List.append_assoc, List.append_assoc] at h
  rcases List.append_eq_append_iff.mp h with ⟨d, rfl, hd⟩ | ⟨d, rfl, hd⟩
  · by_cases hnil : d = []
    · subst hnil
      exact Or.inl ⟨(List.append_nil x).symm, hd⟩
    · obtain ⟨z, rfl, hy⟩ := cut_after hL hM hnil hd
      exact Or.inr (Or.inl ⟨z, (List.append_assoc x L z).symm, hy⟩)
  · by_cases hnil : d = []
    · subst hnil
      exact Or.inl ⟨List.append_nil x', hd.symm⟩
    · obtain ⟨z, rfl, hy⟩ := cut_after hM hL hnil hd
      exact Or.inr (Or.inr ⟨z, (List.append_assoc x' M z).symm, hy⟩)

/-- Two cuts at one label are the same cut, or one lies behind the other. -/
theorem cut_same (hL : IsLabel mark L) (h : x ++ L ++ y = x' ++ L ++ y') :
    (x = x' ∧ y = y') ∨ (∃ z, x' = x ++ L ++ z ∧ y = z ++ L ++ y') ∨ ∃ z, x = x' ++ L ++ z ∧ y' = z ++ L ++ y := by
  rcases cut_cases hL hL h with ⟨hx, hy⟩ | h | h
  · exact Or.inl ⟨hx, List.append_cancel_left hy⟩
  · exact Or.inr (Or.inl h)
  · exact Or.inr (Or.inr h)

/-- A text that ends before one label is not one that ends before another, so one cut lies behind the other. -/
theorem cut_other (hL : IsLabel mark L) (hM : IsLabel mark M) (hLM : ¬L <+: M) (hML : ¬M <+: L)
    (h : x ++ L ++ y = x' ++ M ++ y') :
    (∃ z, x' = x ++ L ++ z ∧ y = z ++ M ++ y') ∨ ∃ z, x = x' ++ M ++ z ∧ y' = z ++ L ++ y := by
  rcases cut_cases hL hM h with ⟨-, hy⟩ | h | h
  · have hprefix : L <+: M ++ y' := hy ▸ List.prefix_append L y
    rcases List.prefix_or_prefix_of_prefix hprefix (List.prefix_append M y') with hp | hp
    · exact absurd hp hLM
    · exact absurd hp hML
  · exact Or.inl h
  · exact Or.inr h

theorem append_label_ne (hL : IsLabel mark L) : x ++ L ++ y ≠ x := by
  obtain ⟨rest, rfl, -⟩ := hL
  intro h
  have hlen := congrArg List.length h
  simp only [List.length_append, List.length_cons] at hlen
  omega

theorem infix_of_eq {l : List α} (h : l = x ++ L ++ y) : L <:+: l := ⟨x, y, h.symm⟩

/-! ### Fields between labels

A text of fields with a label between each two of them. The last field is one of the `Tail`s, which stay among them
with more text before them. -/

section Fields
variable {Tail : List α → Prop} {p q r : List α}

theorem fields_unique (hL : IsLabel mark L) (hM : IsLabel mark M) (hLM : ¬L <+: M) (hML : ¬M <+: L)
    (hp : ¬L <:+: p) (hqL : ¬L <:+: q) (hqM : ¬M <:+: q) (hr : ∀ z r', Tail r' → r ≠ z ++ M ++ r')
    {p' q' r' : List α} (htail : Tail r') (h : p' ++ L ++ (q' ++ M ++ r') = p ++ L ++ (q ++ M ++ r)) :
    p' = p ∧ q' = q ∧ r' = r := by
  rcases cut_same hL h with ⟨rfl, hrest⟩ | ⟨z, hz, -⟩ | ⟨z, -, hrest⟩
  · rcases cut_same hM hrest with ⟨rfl, rfl⟩ | ⟨z, hz, -⟩ | ⟨z, -, hz⟩
    · exact ⟨rfl, rfl, rfl⟩
    · exact absurd (infix_of_eq hz) hqM
    · exact absurd hz (hr z r' htail)
  · exact absurd (infix_of_eq hz) hp
  · -- The first label of the other text lies behind that of this one, in the second field or behind it.
    rcases cut_other hM hL hML hLM hrest with ⟨u, -, hu⟩ | ⟨u, hu, -⟩
    · refine absurd ?_ (hr (u ++ L ++ q') r' htail)
      rw [hu]
      simp only [List.append_assoc]
    · exact absurd (infix_of_eq hu) hqL

/-- A text is cut in one way only, when no field but the last has one of the labels next to it, and none of the tails
    stands behind the second label in the last one. -/
theorem fields_unique_iff (hL : IsLabel mark L) (hM : IsLabel mark M) (hLM : ¬L <+: M) (hML : ¬M <+: L)
    (hclosed : ∀ v r, Tail r → Tail (v ++ r)) (htail : Tail r) :
    (∀ p' q' r', Tail r' → p' ++ L ++ (q' ++ M ++ r') = p ++ L ++ (q ++ M ++ r) → p' = p ∧ q' = q ∧ r' = r) ↔
      ¬L <:+: p ∧ ¬L <:+: q ∧ ¬M <:+: q ∧ ∀ z r', Tail r' → r ≠ z ++ M ++ r' := by
  constructor
  · intro h
    refine ⟨?_, ?_, ?_, ?_⟩
    · rintro ⟨u, v, rfl⟩
      have heq := (h u (v ++ L ++ q) r htail (by simp only [List.append_assoc])).1
      exact append_label_ne hL heq.symm
    · rintro ⟨u, v, rfl⟩
      have heq := (h (p ++ L ++ u) v r htail (by simp only [List.append_assoc])).1
      exact append_label_ne hL heq
    · rintro ⟨u, v, rfl⟩
      have heq := (h p u (v ++ M ++ r) (hclosed _ r htail) (by simp only [List.append_assoc])).2.1
      exact append_label_ne hM heq.symm
    · rintro z r' htail' rfl
      have heq := (h p (q ++ M ++ z) r' htail' (by simp only [List.append_assoc])).2.1
      exact append_label_ne hM heq
  · rintro ⟨hp, hqL, hqM, hr⟩ p' q' r' htail' heq
    exact fields_unique hL hM hLM hML hp hqL hqM hr htail' heq

end Fields

/-- A tail of two fields, of which the last is not `w`. -/
def EndsOther (M w r : List α) : Prop := ∃ t a, r = t ++ M ++ a ∧ a ≠ w

section Ends
variable {t a w : List α}

theorem EndsOther.append (v : List α) {r : List α} (h : EndsOther M w r) : EndsOther M w (v ++ r) := by
  obtain ⟨t, a, rfl, ha⟩ := h
  exact ⟨v ++ t, a, by simp only [List.append_assoc], ha⟩

/-- Two last fields are cut in one way only, with `w` not allowed in the last place. -/
theorem last_unique_iff (hM : IsLabel mark M) (hw : ¬M <:+: w) :
    (∀ t' a', a' ≠ w → t' ++ M ++ a' = t ++ M ++ a → t' = t ∧ a' = a) ↔
      ¬M <:+: t ∧ ∀ y v, a = y ++ M ++ v → v = w := by
  constructor
  · intro h
    refine ⟨?_, fun y v hv => ?_⟩
    · rintro ⟨u, v, rfl⟩
      have heq := (h u (v ++ M ++ a) (fun heq => hw (infix_of_eq heq.symm)) (by simp only [List.append_assoc])).1
      exact append_label_ne hM heq.symm
    · by_contra hne
      have heq := (h (t ++ M ++ y) v hne (by rw [hv]; simp only [List.append_assoc])).1
      exact append_label_ne hM heq
  · rintro ⟨ht, hlast⟩ t' a' ha' heq
    rcases cut_same hM heq with h | ⟨z, hz, -⟩ | ⟨z, -, hz⟩
    · exact h
    · exact absurd (infix_of_eq hz) ht
    · exact absurd (hlast z a' hz) ha'

/-- When the last field is never cut, another label stands before such a tail only if it is in the field before. -/
theorem not_before_endsOther_iff (hL : IsLabel mark L) (hM : IsLabel mark M) (hLM : ¬L <+: M) (hML : ¬M <+: L)
    (ha : a ≠ w) (hlast : ∀ y v, a = y ++ M ++ v → v = w) :
    (∀ z r, EndsOther M w r → t ++ M ++ a ≠ z ++ L ++ r) ↔ ¬L <:+: t := by
  constructor
  · rintro h ⟨u, v, rfl⟩
    exact h u (v ++ M ++ a) ⟨v, a, rfl, ha⟩ (by simp only [List.append_assoc])
  · rintro ht z r ⟨t', a', rfl, ha'⟩ heq
    rcases cut_other hM hL hML hLM heq with ⟨u, -, hu⟩ | ⟨u, hu, -⟩
    · refine ha' (hlast (u ++ L ++ t') a' ?_)
      rw [hu]
      simp only [List.append_assoc]
    · exact ht (infix_of_eq hu)

end Ends

end Labels
