import Mathlib.Logic.Basic

/-! # Runs of a transition system

A system is a partial step function: an action that is not possible in a state gives no next state. A
property of every state of a run follows from an invariant that the steps keep, where the steps may
have to meet a condition; when the invariant also shows that any other step breaks the property, the
property holds along a run exactly if all its steps meet the condition. -/

namespace Runs

variable {σ α : Type} (step : σ → α → Option σ)

/-- The state after the actions of a run, if all of them were possible. -/
def run : σ → List α → Option σ
  | s, [] => some s
  | s, a :: as => (step s a).bind fun t => run t as

/-- Every step that the run takes meets `C`, which reads the state before the step and the action. -/
def Meets (C : σ → α → Prop) : σ → List α → Prop
  | _, [] => True
  | s, a :: as => ∀ t, step s a = some t → C s a ∧ Meets C t as

/-- Every state of the run, the first one included, is `G`. -/
def Always (G : σ → Prop) : σ → List α → Prop
  | s, [] => G s
  | s, a :: as => G s ∧ ∀ t, step s a = some t → Always G t as

instance decidableMeets (C : σ → α → Prop) [∀ s a, Decidable (C s a)] :
    ∀ (s : σ) (as : List α), Decidable (Meets step C s as)
  | _, [] => isTrue trivial
  | s, a :: as =>
    match h : step s a with
    | none => isTrue fun t ht => by rw [h] at ht; cases ht
    | some u =>
      have := decidableMeets C u as
      decidable_of_iff (C s a ∧ Meets step C u as)
        ⟨fun hc t ht => by rw [h] at ht; cases ht; exact hc, fun hm => hm u h⟩

variable {step} {C : σ → α → Prop} {G Inv : σ → Prop} {s t : σ} {a : α} {as : List α}

theorem run_cons : run step s (a :: as) = some t ↔ ∃ u, step s a = some u ∧ run step u as = some t :=
  Option.bind_eq_some_iff

theorem run_append {u : σ} {bs : List α} (h : run step s as = some t) (h' : run step t bs = some u) :
    run step s (as ++ bs) = some u := by
  induction as generalizing s with
  | nil =>
    obtain rfl := Option.some.inj h
    exact h'
  | cons b as ih =>
    obtain ⟨v, hv, h⟩ := run_cons.mp h
    exact run_cons.mpr ⟨v, hv, ih h⟩

theorem run_concat {u : σ} (h : run step s as = some t) (ht : step t a = some u) : run step s (as ++ [a]) = some u :=
  run_append h (run_cons.mpr ⟨u, ht, rfl⟩)

theorem Always.head (h : Always step G s as) : G s := by
  cases as with
  | nil => exact h
  | cons a as => exact h.1

theorem meets_true : ∀ {s : σ} {as : List α}, Meets step (fun _ _ => True) s as
  | _, [] => trivial
  | _, _ :: _ => fun _ _ => ⟨trivial, meets_true⟩

/-- The states of a run whose steps meet the condition keep the invariant. -/
theorem always_of_inv (hstep : ∀ s a t, Inv s → C s a → step s a = some t → Inv t) :
    ∀ {s : σ} {as : List α}, Inv s → Meets step C s as → Always step Inv s as
  | _, [], h, _ => h
  | _, _ :: _, h, hm => ⟨h, fun t ht =>
      always_of_inv hstep (hstep _ _ t h (hm t ht).1 ht) (hm t ht).2⟩

theorem meets_of_inv (hstep : ∀ s a t, Inv s → step s a = some t → Inv t) (hC : ∀ s a, Inv s → C s a) :
    ∀ {s : σ} {as : List α}, Inv s → Meets step C s as
  | _, [], _ => trivial
  | _, _ :: _, h => fun t ht => ⟨hC _ _ h, meets_of_inv hstep hC (hstep _ _ t h ht)⟩

theorem meets_of_always (hC : ∀ s a, G s → C s a) :
    ∀ {s : σ} {as : List α}, Always step G s as → Meets step C s as
  | _, [], _ => trivial
  | _, _ :: _, h => fun t ht => ⟨hC _ _ h.1, meets_of_always hC (h.2 t ht)⟩

/-- Actions in an order that each step respects: what an action may find in the state stays within what the
    actions after it may find. -/
theorem meets_of_pairwise {R : α → α → Prop}
    (hstep : ∀ s a t b, C s b → R a b → step s a = some t → C t b) :
    ∀ {s : σ} {as : List α}, (∀ a ∈ as, C s a) → as.Pairwise R → Meets step C s as
  | _, [], _, _ => trivial
  | s, a :: _, h, hR => fun t ht => ⟨h a List.mem_cons_self, meets_of_pairwise hstep
      (fun b hb => hstep s a t b (h b (List.mem_cons_of_mem a hb)) (List.rel_of_pairwise_cons hR hb) ht) hR.of_cons⟩

/-- Two conditions that come to the same under an invariant are met by the same runs. -/
theorem meets_congr {D P : σ → α → Prop} (hstep : ∀ s a t, Inv s → D s a → step s a = some t → Inv t)
    (h : ∀ s a, Inv s → D s a → (C s a ↔ P s a)) :
    ∀ {s : σ} {as : List α}, Inv s → Meets step D s as → (Meets step C s as ↔ Meets step P s as)
  | _, [], _, _ => Iff.rfl
  | s, a :: _, hs, hD => forall_congr' fun t => imp_congr_right fun ht =>
      and_congr (h s a hs (hD t ht).1) (meets_congr hstep h (hstep s a t hs (hD t ht).1 ht) (hD t ht).2)

theorem Always.imp (h : ∀ s, G s → Inv s) : ∀ {s : σ} {as : List α}, Always step G s as → Always step Inv s as
  | _, [], hs => h _ hs
  | _, _ :: _, hs => ⟨h _ hs.1, fun t ht => (hs.2 t ht).imp h⟩

theorem Always.last (h : Always step G s as) (hr : run step s as = some t) : G t := by
  induction as generalizing s with
  | nil =>
    cases hr
    exact h
  | cons a as ih =>
    obtain ⟨u, hu, hr⟩ := run_cons.mp hr
    exact ih (h.2 u hu) hr

/-- Under an invariant that holds as long as the condition is met, and that any other step leaves for a
    bad state, all states of a run are good exactly if all its steps meet the condition. -/
theorem always_iff_meets (hstep : ∀ s a t, Inv s → C s a → step s a = some t → Inv t)
    (good : ∀ s, Inv s → G s) (bad : ∀ s a t, Inv s → ¬C s a → step s a = some t → ¬G t) :
    ∀ {s : σ} {as : List α}, Inv s → (Always step G s as ↔ Meets step C s as)
  | s, [], h => ⟨fun _ => trivial, fun _ => good s h⟩
  | s, a :: as, h => by
    refine ⟨fun hg t ht => ?_, fun hm => (always_of_inv hstep h hm).imp good⟩
    have hc : C s a := Classical.byContradiction fun hc => bad s a t h hc ht (hg.2 t ht).head
    exact ⟨hc, (always_iff_meets hstep good bad (hstep s a t h hc ht)).mp (hg.2 t ht)⟩

/-! ### Reachable states -/

/-- Some run leads from the one state to the other. -/
def Reaches (step : σ → α → Option σ) (s t : σ) : Prop := ∃ as, run step s as = some t

theorem Reaches.refl (s : σ) : Reaches step s s := ⟨[], rfl⟩

theorem Reaches.trans {u : σ} (h : Reaches step s t) (h' : Reaches step t u) : Reaches step s u := by
  obtain ⟨as, has⟩ := h
  obtain ⟨bs, hbs⟩ := h'
  exact ⟨as ++ bs, run_append has hbs⟩

theorem Reaches.head {u : σ} (h : step s a = some t) (h' : Reaches step t u) : Reaches step s u := by
  obtain ⟨as, has⟩ := h'
  exact ⟨a :: as, run_cons.mpr ⟨t, h, has⟩⟩

theorem Reaches.inv (hstep : ∀ s a t, Inv s → step s a = some t → Inv t) (hr : Reaches step s t) (h : Inv s) :
    Inv t := by
  obtain ⟨as, has⟩ := hr
  exact (always_of_inv (fun s a t h _ hs => hstep s a t h hs) h meets_true).last has

/-- Where each state that is not final leads to one of a smaller measure, a final state can be reached. -/
theorem exists_reaches_of_measure (μ : σ → Nat)
    (hless : ∀ s, Inv s → μ s ≠ 0 → ∃ t, Reaches step s t ∧ Inv t ∧ μ t < μ s)
    (h : Inv s) : ∃ t, Reaches step s t ∧ Inv t ∧ μ t = 0 := by
  induction hμ : μ s using Nat.strongRecOn generalizing s with
  | ind n ih =>
    by_cases hzero : μ s = 0
    · exact ⟨s, .refl s, h, hzero⟩
    · obtain ⟨t, hst, ht, hlt⟩ := hless s h hzero
      obtain ⟨u, htu, hu, huzero⟩ := ih (μ t) (hμ ▸ hlt) ht rfl
      exact ⟨u, hst.trans htu, hu, huzero⟩

/-! ### Growth -/

/-- What later states have over earlier ones. -/
structure Growth (σ : Type) where
  grows : σ → σ → Prop
  refl : ∀ s, grows s s
  trans : ∀ {s t u}, grows s t → grows t u → grows s u

end Runs
