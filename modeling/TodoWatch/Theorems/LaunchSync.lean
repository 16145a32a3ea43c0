import TodoWatch.MainActivity

/-! # Do launches agree with the store?

Each launch inserts whatever was fetched, also what earlier launches inserted. On an empty store the list of the
page has the fetched items too; on any other it is the list from before they were inserted. -/

namespace TodoWatch
namespace LaunchSync

variable {gson : Gson} {db : TodoDatabase} {prefs : Preferences} {mock R S : List TodoItem}

/-- What a launch fetches after `n` earlier ones. -/
def launch (fetch : Preferences → Except JavaException (List TodoItem × Preferences)) (prefs : Preferences) :
    Nat → Except JavaException (List TodoItem × Preferences)
  | 0 => fetch prefs
  | n + 1 => do
    let (_, prefs) ← launch fetch prefs n
    fetch prefs

/-- The list is what the store decodes to, and no title occurs twice in it. -/
def Agrees (gson : Gson) (db : TodoDatabase) (result : Except JavaException (List TodoItem × Preferences)) : Prop :=
  ∃ todos prefs, result = .ok (todos, prefs) ∧ db.getAllTodos gson prefs = .ok todos ∧
    (todos.map TodoItem.title).Nodup

/-! ### The lists of the launches -/

def stored (mock R S : List TodoItem) : Nat → List TodoItem
  | 0 => if S = [] then mock ++ R else S ++ R
  | n + 1 => stored mock R S n ++ R

def shown (mock R S : List TodoItem) : Nat → List TodoItem
  | 0 => if S = [] then mock ++ R else S
  | n + 1 => stored mock R S n

theorem stored_ne_nil (hmock : mock ≠ []) (n : Nat) : stored mock R S n ≠ [] := by
  induction n with
  | zero =>
    unfold stored
    split
    · exact List.append_ne_nil_of_left_ne_nil hmock R
    · rename_i hS
      exact List.append_ne_nil_of_left_ne_nil hS R
  | succ n ih => exact List.append_ne_nil_of_left_ne_nil ih R

theorem launch_of_ok (hmock : mock ≠ []) (h : db.getAllTodos gson prefs = .ok S) (n : Nat) :
    ∃ prefs', launch (fetchTodos gson db mock R) prefs n = .ok (shown mock R S n, prefs') ∧
      db.getAllTodos gson prefs' = .ok (stored mock R S n) := by
  induction n with
  | zero => exact fetchTodos_of_ok h mock R
  | succ n ih =>
    obtain ⟨prefs', hlaunch, hget⟩ := ih
    obtain ⟨prefs'', hfetch, hget'⟩ := fetchTodos_of_ok hget mock R
    rw [if_neg (stored_ne_nil hmock n)] at hfetch hget'
    refine ⟨prefs'', ?_, hget'⟩
    rw [launch, hlaunch]
    exact hfetch

theorem shown_eq_stored_iff (n : Nat) : shown mock R S n = stored mock R S n ↔ R = [] ∨ (S = [] ∧ n = 0) := by
  cases n with
  | zero =>
    rw [shown, stored]
    split
    · rename_i hS
      exact iff_of_true rfl (Or.inr ⟨hS, rfl⟩)
    · rename_i hS
      rw [List.self_eq_append_right]
      exact (or_iff_left fun h => hS h.1).symm
  | succ n =>
    rw [shown, stored, List.self_eq_append_right]
    exact (or_iff_left fun h => absurd h.2 (Nat.succ_ne_zero n)).symm

theorem stored_of_nil (n : Nat) : stored mock [] S n = if S = [] then mock else S := by
  induction n with
  | zero => rw [stored, List.append_nil, List.append_nil]
  | succ n ih => rw [stored, List.append_nil, ih]

theorem nodup_stored (hmock : (mock.map TodoItem.title).Nodup) (hR : (R.map TodoItem.title).Nodup)
    (hnew : ∀ item ∈ R, item.title ∉ mock.map TodoItem.title) (hS : (S.map TodoItem.title).Nodup) {n : Nat}
    (h : R = [] ∨ (S = [] ∧ n = 0)) : ((stored mock R S n).map TodoItem.title).Nodup := by
  rcases h with rfl | ⟨rfl, rfl⟩
  · rw [stored_of_nil]
    split
    · exact hmock
    · exact hS
  · rw [stored, if_pos rfl, List.map_append]
    refine List.Nodup.append hmock hR fun title hold hfetched => ?_
    obtain ⟨item, hitem, rfl⟩ := List.mem_map.mp hfetched
    exact hnew item hitem hold

theorem agrees_launch_iff (hne : mock ≠ []) (hmock : (mock.map TodoItem.title).Nodup)
    (hR : (R.map TodoItem.title).Nodup) (hnew : ∀ item ∈ R, item.title ∉ mock.map TodoItem.title)
    (h : db.getAllTodos gson prefs = .ok S) (hS : (S.map TodoItem.title).Nodup) (n : Nat) :
    Agrees gson db (launch (fetchTodos gson db mock R) prefs n) ↔ R = [] ∨ (S = [] ∧ n = 0) := by
  obtain ⟨prefs', hlaunch, hget⟩ := launch_of_ok hne h n
  have hiff : shown mock R S n = stored mock R S n ↔ R = [] ∨ (S = [] ∧ n = 0) := shown_eq_stored_iff n
  rw [← hiff]
  constructor
  · rintro ⟨todos, prefs'', hresult, htodos, -⟩
    obtain ⟨rfl, rfl⟩ := Prod.mk.inj (Except.ok.inj (hlaunch.symm.trans hresult))
    exact Except.ok.inj (htodos.symm.trans hget)
  · intro heq
    refine ⟨_, prefs', hlaunch, by rw [heq, hget], ?_⟩
    rw [heq]
    exact nodup_stored hmock hR hnew hS (hiff.mp heq)

end LaunchSync

open LaunchSync

/-- For fetched items with new and distinct titles, and a store with distinct titles: the list of a launch agrees
    with the store exactly when nothing is fetched, or when it is the first launch and the store was empty. -/
theorem fetchTodos_agrees_iff (gson : Gson) (prefs : Preferences) (n : Nat) :
    (∀ R S, (R.map TodoItem.title).Nodup → (∀ item ∈ R, item.title ∉ personalMock.map TodoItem.title) →
      TodoDatabase.getAllTodos gson ⟨"personalTodoTemp"⟩ prefs = .ok S → (S.map TodoItem.title).Nodup →
      (Agrees gson ⟨"personalTodoTemp"⟩ (launch (fetchPersonalTodos gson R) prefs n) ↔ R = [] ∨ (S = [] ∧ n = 0))) ∧
    ∀ R S, (R.map TodoItem.title).Nodup → (∀ item ∈ R, item.title ∉ groupMock.map TodoItem.title) →
      TodoDatabase.getAllTodos gson ⟨"groupTodo"⟩ prefs = .ok S → (S.map TodoItem.title).Nodup →
      (Agrees gson ⟨"groupTodo"⟩ (launch (fetchGroupTodos gson R) prefs n) ↔ R = [] ∨ (S = [] ∧ n = 0)) :=
  ⟨fun _ _ hR hnew h hS => agrees_launch_iff (by decide) (by decide) hR hnew h hS n,
    fun _ _ hR hnew h hS => agrees_launch_iff (by decide) (by decide) hR hnew h hS n⟩

theorem fetchTodos_agrees_first :
    Agrees gson ⟨"personalTodoTemp"⟩ (launch (fetchPersonalTodos gson [.ofTitle "Buy milk"]) (fun _ => none) 0) ∧
      Agrees gson ⟨"groupTodo"⟩ (launch (fetchGroupTodos gson [.ofTitle "Buy milk"]) (fun _ => none) 0) :=
  ⟨((fetchTodos_agrees_iff gson (fun _ => none) 0).1 [.ofTitle "Buy milk"] [] (by decide) (by decide)
      gson.fromJson_empty List.nodup_nil).mpr (Or.inr ⟨rfl, rfl⟩),
    ((fetchTodos_agrees_iff gson (fun _ => none) 0).2 [.ofTitle "Buy milk"] [] (by decide) (by decide)
      gson.fromJson_empty List.nodup_nil).mpr (Or.inr ⟨rfl, rfl⟩)⟩

/-- The second launch inserts the fetched item again, and shows the list from before. -/
theorem fetchTodos_disagrees_second :
    ∃ prefs, launch (fetchPersonalTodos gson [.ofTitle "Buy milk"]) (fun _ => none) 1 =
        .ok (personalMock ++ [.ofTitle "Buy milk"], prefs) ∧
      TodoDatabase.getAllTodos gson ⟨"personalTodoTemp"⟩ prefs =
        .ok (personalMock ++ [.ofTitle "Buy milk", .ofTitle "Buy milk"]) ∧
      ¬Agrees gson ⟨"personalTodoTemp"⟩ (launch (fetchPersonalTodos gson [.ofTitle "Buy milk"]) (fun _ => none) 1) := by
  have hmock : personalMock ≠ [] := by decide
  have hempty : TodoDatabase.getAllTodos gson ⟨"personalTodoTemp"⟩ (fun _ => none) = .ok [] := gson.fromJson_empty
  obtain ⟨prefs, hlaunch, hget⟩ : ∃ prefs, launch (fetchTodos gson ⟨"personalTodoTemp"⟩ personalMock
      [.ofTitle "Buy milk"]) (fun _ => none) 1 = .ok (shown personalMock [.ofTitle "Buy milk"] [] 1, prefs) ∧ _ :=
    launch_of_ok hmock hempty 1
  refine ⟨prefs, hlaunch, hget, ?_⟩
  rintro ⟨todos, prefs', hresult, htodos, -⟩
  obtain ⟨rfl, rfl⟩ := Prod.mk.inj (Except.ok.inj (hlaunch.symm.trans hresult))
  have hlists := Except.ok.inj (htodos.symm.trans hget)
  revert hlists
  decide

end TodoWatch
