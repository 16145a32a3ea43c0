import TodoWatch.Installation

/-! # What a step of the app changes

The few ways in which a step can change the files and the screen: a launch, a handler of the screen, a death, and
a write to the disk. All others leave the stores and the screen alone. -/

namespace TodoWatch

/-! ### Launches -/

namespace Files
variable {gson : Gson} {files files' : Files} {db : TodoDatabase} {l items mock : List TodoItem} {key : String}

theorem todos_save_of_ne (hkey : key ≠ db.key) :
    (files.apply (db.saveTodos gson files.prefs l)).todos key = files.todos key :=
  if_pos (Function.update_of_ne hkey _ _)

/-- What files have in common when only the store under the key has changed. -/
structure SameBut (key : String) (files files' : Files) : Prop where
  todos : ∀ key' ≠ key, files'.todos key' = files.todos key'
  user : files'.user = files.user
  notified : files'.notified = files.notified

theorem insertTodos_same (h : files.insertTodos gson db items = .ok files') : SameBut db.key files files' := by
  induction items generalizing files with
  | nil =>
    rw [← Except.ok.inj h]
    exact ⟨fun _ _ => rfl, rfl, rfl⟩
  | cons item items ih =>
    obtain ⟨prefs, hprefs, h⟩ := bind_eq_ok.mp h
    obtain ⟨l, -, hsave⟩ := bind_eq_ok.mp hprefs
    obtain ⟨htodos, huser, hnotified⟩ := ih h
    refine ⟨fun key hkey => ?_, huser, hnotified⟩
    rw [htodos key hkey, ← Except.ok.inj hsave, todos_save_of_ne hkey]

/-- What a fetch inserts. -/
theorem fetchTodos_eq_ok (h : files.fetchTodos gson db mock items = .ok (l, files')) :
    ∃ todos, db.getAllTodos gson files.prefs = .ok todos ∧
      files.insertTodos gson db (if todos = [] then mock ++ items else items) = .ok files' := by
  obtain ⟨todos, hl, h⟩ := bind_eq_ok.mp h
  refine ⟨todos, hl, ?_⟩
  cases todos with
  | nil =>
    obtain ⟨t, ht, h⟩ := bind_eq_ok.mp h
    rw [if_pos rfl, ht, (Prod.mk.inj (Except.ok.inj h)).2]
  | cons item rest =>
    obtain ⟨t, ht, h⟩ := bind_eq_ok.mp h
    rw [if_neg (List.cons_ne_nil _ _), ht, (Prod.mk.inj (Except.ok.inj h)).2]

theorem fetchTodos_same (h : files.fetchTodos gson db mock items = .ok (l, files')) : SameBut db.key files files' := by
  obtain ⟨_, -, hinsert⟩ := fetchTodos_eq_ok h
  exact insertTodos_same hinsert

end Files

namespace Watch
variable {gson : Gson} {isTestMode : Bool} {zone : Int → Int} {w w' : Watch} {uuid : String}

/-- A launch saves a user, then fetches both lists, and shows them without any page. -/
structure Launched (gson : Gson) (uuid : String) (w w' : Watch) : Prop where
  fetched : ∃ (start files : Files) (id : String) (P G : List TodoItem), start.todos = w.files.todos ∧
    start.fetchPersonalTodos gson id = .ok (P, files) ∧ files.fetchGroupTodos gson "Group 4" = .ok (G, w'.files)
  user : w'.files.user = (w.files.applyUser (createUser w.files.user.memory uuid).2).user
  notified : w'.files.notified = w.files.notified
  reminded : w'.reminded = w.reminded
  screen : ∃ s, w'.screen = some s ∧ s.fragments = []

theorem launched (h : w.launch gson uuid = .ok w') : Launched gson uuid w w' := by
  obtain ⟨⟨P, files⟩, hpersonal, h⟩ := bind_eq_ok.mp h
  obtain ⟨⟨G, files'⟩, hgroup, h⟩ := bind_eq_ok.mp h
  obtain rfl := Except.ok.inj h
  obtain ⟨-, huser, hnotified⟩ := Files.fetchTodos_same hpersonal
  obtain ⟨-, huser', hnotified'⟩ := Files.fetchTodos_same hgroup
  exact ⟨⟨w.files.applyUser (createUser w.files.user.memory uuid).2, files, _, P, G, rfl, hpersonal, hgroup⟩,
    huser'.trans huser, hnotified'.trans hnotified, rfl, _, rfl, rfl⟩

/-! ### Steps -/

/-- The ways in which a step can change the stores and the screen. -/
inductive Moves (gson : Gson) (zone : Int → Int) (w w' : Watch) : Event → Prop
  | launch {uuid : String} (h : w.launch gson uuid = .ok w') : Moves gson zone w w' (.launch uuid)
  | handle {s t : Screen} {e : Screen.Event} (hscreen : w.screen = some s) (hstep : s.step gson zone e = some t)
      (h : w' = { w with files := w.files.apply t.prefs, screen := some t }) : Moves gson zone w w' (.onScreen e)
  | die {e : Event} (hfiles : w'.files = w.files.crash) (hscreen : w'.screen = none) : Moves gson zone w w' e
  | flush {key : String} {n : Nat} {file : WriteBack (Option String)} (hfile : (w.files.todos key).flush n = some file)
      (h : w' = { w with files := { w.files with todos := Function.update w.files.todos key file } }) :
      Moves gson zone w w' (.flushTodos key n)
  | keep {e : Event} (htodos : w'.files.todos = w.files.todos)
      (huser : ∀ prefs ∈ w'.files.user.values, prefs ∈ w.files.user.values)
      (hscreen : w'.screen = w.screen ∨ w'.screen = none) : Moves gson zone w w' e

theorem step_moves {e : Event} (hs : w.step gson isTestMode zone e = some w') : Moves gson zone w w' e := by
  cases e with
  | launch uuid =>
    simp only [step] at hs
    split at hs
    · rename_i t hlaunch
      obtain rfl := Option.some.inj hs
      exact .launch hlaunch
    · obtain rfl := Option.some.inj hs
      exact .die rfl rfl
  | onScreen e =>
    obtain ⟨s, hscreen, hs⟩ := Option.bind_eq_some_iff.mp hs
    obtain ⟨⟨t, thrown⟩, hhandle, rfl⟩ := Option.map_eq_some_iff.mp hs
    cases thrown with
    | none => exact .handle hscreen (by rw [Screen.step, hhandle]) rfl
    | some x => exact .die rfl rfl
  | run i x =>
    simp only [step, run, bind, Option.bind_eq_some_iff] at hs
    obtain ⟨owner, -, service, -, hs⟩ := hs
    split at hs
    · obtain ⟨process, -, heq⟩ := Option.bind_eq_some_iff.mp hs
      obtain rfl := Option.some.inj heq
      exact .keep rfl (fun _ => id) (Or.inl rfl)
    · obtain ⟨process, -, heq⟩ := Option.bind_eq_some_iff.mp hs
      obtain rfl := Option.some.inj heq
      exact .die rfl rfl
  | flushTodos key n =>
    obtain ⟨file, hf, rfl⟩ := Option.map_eq_some_iff.mp hs
    exact .flush hf rfl
  | flushUser n =>
    obtain ⟨file, hf, rfl⟩ := Option.map_eq_some_iff.mp hs
    refine .keep rfl (fun prefs hprefs => ?_) (Or.inl rfl)
    rw [WriteBack.values_flush hf]
    exact List.mem_append_right _ hprefs
  | recreate | killed =>
    obtain rfl := Option.some.inj hs
    exact .die rfl rfl
  | finish =>
    obtain rfl := Option.some.inj hs
    exact .keep rfl (fun _ => id) (Or.inr rfl)
  | onCreate | onStartCommand | onDestroy | onLocation service lat lng | flushNotified n =>
    obtain ⟨x, -, rfl⟩ := Option.map_eq_some_iff.mp hs
    exact .keep rfl (fun _ => id) (Or.inl rfl)

end Watch

end TodoWatch
