import TodoWatch.MainActivity
import TodoWatch.TodoNotificationService

/-! # Which item does the reminder pick?

`TodoDatabase.getInstance` ignores its key once an instance exists, so the two databases of the service
are both the personal one, and the reminder is the best open item of the personal store alone. -/

namespace TodoWatch
namespace TopReminder
open TodoNotificationService

variable {gson : Gson} {prefs : Preferences} {P G : List TodoItem} {user : User} {lat lng : ℚ} {now zone : Int}

def ScoresAtLeast (user : User) (lat lng : ℚ) (now zone : Int) (item other : TodoItem) : Prop :=
  ∃ x y, getItemScore item user lat lng now zone = .ok x ∧ getItemScore other user lat lng now zone = .ok y ∧ y ≤ x

/-- The choice ends without an exception, in nothing exactly when no item of the two lists is open, and
    otherwise in an open item of them with the best score. -/
def PicksBest (choice : Except JavaException (Option TodoItem × NotificationCache)) (P G : List TodoItem)
    (user : User) (lat lng : ℚ) (now zone : Int) : Prop :=
  ∃ pick cache, choice = .ok (pick, cache) ∧
    (pick = none ↔ ∀ item ∈ P ++ G, item.isDone = true) ∧
    ∀ item, pick = some item → item ∈ P ++ G ∧ item.isDone = false ∧
      ∀ other ∈ P ++ G, other.isDone = false → ScoresAtLeast user lat lng now zone item other

/-! ### The databases -/

theorem instanceAfter_eq (n : Nat) : instanceAfter n = none ∨ instanceAfter n = some ⟨"personalTodoTemp"⟩ := by
  induction n with
  | zero => exact Or.inl rfl
  | succ n ih =>
    refine Or.inr ?_
    unfold instanceAfter
    rcases ih with h | h <;> rw [h] <;> rfl

theorem onCreate_databases (n : Nat) (user : Option User) :
    (onCreate (instanceAfter n) user).1 = ⟨⟨"personalTodoTemp"⟩, ⟨"personalTodoTemp"⟩, 0, 0, user⟩ := by
  rcases instanceAfter_eq n with h | h <;> rw [h] <;> rfl

/-! ### The choice -/

def bestOpen (score : TodoItem → ℚ) (items : List TodoItem) : Option TodoItem :=
  ((items.filter fun item => !item.isDone).insertionSort fun x y => -score x ≤ -score y).head?

section Best
variable {score : TodoItem → ℚ} {items : List TodoItem}

theorem bestOpen_eq_none_iff : bestOpen score items = none ↔ ∀ item ∈ items, item.isDone = true := by
  rw [bestOpen, List.head?_eq_none_iff, Sorting.insertionSort_eq_nil_iff, List.filter_eq_nil_iff]
  simp

theorem bestOpen_spec {item : TodoItem} (h : bestOpen score items = some item) :
    item ∈ items ∧ item.isDone = false ∧ ∀ other ∈ items, other.isDone = false → score other ≤ score item := by
  obtain ⟨hmem, hbest⟩ := (Sorting.firstLeast_of_head? h).least
  obtain ⟨hitem, hopen⟩ := List.mem_filter.mp hmem
  refine ⟨hitem, by simpa using hopen, fun other hother hnot => ?_⟩
  have hle := hbest other (List.mem_filter.mpr ⟨hother, by simp [hnot]⟩)
  exact neg_le_neg_iff.mp hle

end Best

theorem getTopTodoItem_test {service : TodoNotificationService} {A B : List TodoItem} {score : TodoItem → ℚ}
    {cache : NotificationCache} (hA : service.personalTodoDatabase.getAllTodos gson prefs = .ok A)
    (hB : service.groupTodoDatabase.getAllTodos gson prefs = .ok B) (huser : service.user = some user)
    (hscore : ∀ item, getItemScore item user service.lat service.lng now zone = .ok (score item)) :
    service.getTopTodoItem gson true prefs cache now zone = .ok (bestOpen score (A ++ B), cache) := by
  have hsort : service.sortFor ((A ++ B).filter fun item => !item.isDone) now zone =
      .ok (((A ++ B).filter fun item => !item.isDone).insertionSort fun x y => -score x ≤ -score y) :=
    sortFor_of_score huser hscore
  unfold getTopTodoItem bestOpen
  obtain ⟨sorted, hsorted⟩ : ∃ sorted, sorted =
    ((A ++ B).filter fun item => !item.isDone).insertionSort fun x y => -score x ≤ -score y := ⟨_, rfl⟩
  rw [← hsorted] at hsort ⊢
  rw [hA, hB]
  show (service.sortFor _ now zone >>= _) = _
  rw [hsort]
  cases sorted <;> rfl

/-- A best item of the personal list is a best item of both exactly when no group item is better. -/
theorem picksBest_iff {score : TodoItem → ℚ} {cache : NotificationCache}
    (hscore : ∀ item, getItemScore item user lat lng now zone = .ok (score item)) :
    PicksBest (.ok (bestOpen score (P ++ P), cache)) P G user lat lng now zone ↔
      ∀ g ∈ G, g.isDone = false → ∃ p ∈ P, p.isDone = false ∧ ScoresAtLeast user lat lng now zone p g := by
  have hat : ∀ x y, ScoresAtLeast user lat lng now zone x y ↔ score y ≤ score x := by
    intro x y
    constructor
    · rintro ⟨a, b, ha, hb, hle⟩
      rw [hscore] at ha hb
      rw [Except.ok.inj ha, Except.ok.inj hb]
      exact hle
    · exact fun hle => ⟨_, _, hscore x, hscore y, hle⟩
  constructor
  · rintro ⟨pick, cache', hpick, hnone, hsome⟩ g hg hopen
    obtain ⟨rfl, -⟩ := Prod.mk.inj (Except.ok.inj hpick)
    cases hbest : bestOpen score (P ++ P) with
    | none =>
      have hdone := hnone.mp hbest g (List.mem_append_right _ hg)
      rw [hopen] at hdone
      cases hdone
    | some p =>
      obtain ⟨hp, hpopen, -⟩ := bestOpen_spec hbest
      have hleast := (hsome p hbest).2.2 g (List.mem_append_right _ hg) hopen
      exact ⟨p, (List.mem_append.mp hp).elim id id, hpopen, hleast⟩
  · intro h
    refine ⟨_, _, rfl, ?_, fun item hitem => ?_⟩
    · rw [bestOpen_eq_none_iff]
      constructor
      · intro hdone item hitem
        rcases List.mem_append.mp hitem with hp | hg
        · exact hdone item (List.mem_append_left _ hp)
        · -- An open group item would have an open personal one beside it.
          by_cases hopen : item.isDone = true
          · exact hopen
          · obtain ⟨p, hp, hpopen, -⟩ := h item hg (by simpa using hopen)
            rw [hdone p (List.mem_append_left _ hp)] at hpopen
            cases hpopen
      · intro hdone item hitem
        exact hdone item (List.mem_append_left _ ((List.mem_append.mp hitem).elim id id))
    · obtain ⟨hmem, hopen, hbest⟩ := bestOpen_spec hitem
      refine ⟨List.mem_append_left _ ((List.mem_append.mp hmem).elim id id), hopen, fun other hother hnot => ?_⟩
      rw [hat]
      rcases List.mem_append.mp hother with hp | hg
      · exact hbest other (List.mem_append_left _ hp) hnot
      · obtain ⟨p, hp, hpopen, hleast⟩ := h other hg hnot
        exact le_trans ((hat p other).mp hleast) (hbest p (List.mem_append_left _ hp) hpopen)

end TopReminder

open TopReminder TodoNotificationService

/-- After any number of earlier services in the process, a service in test mode picks a best open item of the
    two stores exactly when each open group item has an open personal item with at least its score. -/
theorem getTopTodoItem_best_iff (gson : Gson) (n : Nat) (user : User) (lat lng : ℚ) (now zone : Int)
    (hscore : ScoringOk user lat lng now zone) (prefs : Preferences) (cache : NotificationCache) (P G : List TodoItem)
    (hP : TodoDatabase.getAllTodos gson ⟨"personalTodoTemp"⟩ prefs = .ok P)
    (_hG : TodoDatabase.getAllTodos gson ⟨"groupTodo"⟩ prefs = .ok G) :
    PicksBest (((onCreate (instanceAfter n) (some user)).1.located lat lng).getTopTodoItem gson true prefs cache
        now zone) P G user lat lng now zone ↔
      ∀ g ∈ G, g.isDone = false → ∃ p ∈ P, p.isDone = false ∧ ScoresAtLeast user lat lng now zone p g := by
  choose score hscore using scoringOk_iff.mp hscore
  have htest := @getTopTodoItem_test gson prefs user now zone
    (located ⟨⟨"personalTodoTemp"⟩, ⟨"personalTodoTemp"⟩, 0, 0, some user⟩ lat lng) P P score cache hP hP rfl hscore
  rw [onCreate_databases, htest]
  exact picksBest_iff hscore

def twoStores (P G : List TodoItem) : Preferences :=
  TodoDatabase.saveTodos gson ⟨"groupTodo"⟩ (TodoDatabase.saveTodos gson ⟨"personalTodoTemp"⟩ (fun _ => none) P) G

/-- At noon, for a personal item of high priority and a group item of low priority. -/
theorem getTopTodoItem_best_noon :
    PicksBest (((onCreate (instanceAfter 0) (some (createUser none "42").1)).1.located 32.88 (-117.23)).getTopTodoItem
        gson true (twoStores [⟨"Buy milk", .high, .store, .general, false, ""⟩]
          [⟨"Plan trip", .low, .home, .rest, false, "Will"⟩]) (fun _ => none) 43200000 0)
      [⟨"Buy milk", .high, .store, .general, false, ""⟩] [⟨"Plan trip", .low, .home, .rest, false, "Will"⟩]
      (createUser none "42").1 32.88 (-117.23) 43200000 0 := by
  refine (getTopTodoItem_best_iff gson 0 (createUser none "42").1 32.88 (-117.23) 43200000 0 ?_ _ _ _ _ ?_ ?_).mpr ?_
  · exact ⟨⟨.school, by decide +kernel⟩, ⟨.working, by decide +kernel⟩⟩
  · rw [twoStores, TodoDatabase.getAllTodos_saveTodos_of_ne (by decide), TodoDatabase.getAllTodos_saveTodos]
  · rw [twoStores, TodoDatabase.getAllTodos_saveTodos]
  · intro g hg _
    obtain rfl := List.mem_singleton.mp hg
    exact ⟨_, List.mem_singleton_self _, rfl, 0.5, 0, by decide +kernel, by decide +kernel, by decide +kernel⟩

/-- With nothing in the personal store an open item of the group is never picked. -/
theorem getTopTodoItem_misses_group :
    (((onCreate none (some (createUser none "42").1)).1.getTopTodoItem gson true
        (twoStores [] [⟨"Plan trip", .high, .work, .working, false, "Will"⟩]) (fun _ => none) 43200000 0).map
      Prod.fst) = .ok none ∧
    ¬PicksBest ((onCreate none (some (createUser none "42").1)).1.getTopTodoItem gson true
        (twoStores [] [⟨"Plan trip", .high, .work, .working, false, "Will"⟩]) (fun _ => none) 43200000 0)
      [] [⟨"Plan trip", .high, .work, .working, false, "Will"⟩] (createUser none "42").1 0 0 43200000 0 := by
  have hnone : (((onCreate none (some (createUser none "42").1)).1.getTopTodoItem gson true
      (twoStores [] [⟨"Plan trip", .high, .work, .working, false, "Will"⟩]) (fun _ => none) 43200000 0).map
        Prod.fst) = .ok none := by decide +kernel
  refine ⟨hnone, ?_⟩
  rintro ⟨pick, cache, hpick, hiff, -⟩
  rw [hpick] at hnone
  have hdone := hiff.mp (Except.ok.inj hnone) _ (List.mem_singleton_self _)
  cases hdone

end TodoWatch
