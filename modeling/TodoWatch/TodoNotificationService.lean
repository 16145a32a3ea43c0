import TodoWatch.Sorter
import TodoWatch.TodoDatabase

/-! # The reminder

The parts of `TodoNotificationService` that choose the item of a reminder. -/

namespace TodoWatch

def utf16 (c : Char) : List Nat :=
  if c.toNat < 0x10000 then [c.toNat]
  else [0xD800 + (c.toNat - 0x10000) / 0x400, 0xDC00 + (c.toNat - 0x10000) % 0x400]

def hashCode (s : String) : Int := (s.toList.flatMap utf16).foldl (fun h unit => toInt (31 * h + unit)) 0

/-- The preferences `todo_notifications`: when an item was last chosen, by the text of its title's hash code. -/
abbrev NotificationCache := String → Option Int

structure TodoNotificationService where
  personalTodoDatabase : TodoDatabase
  groupTodoDatabase : TodoDatabase
  lat : ℚ
  lng : ℚ
  user : Option User
  deriving DecidableEq, Repr

namespace TodoNotificationService

/-- `onCreate`, with the static field of `TodoDatabase` before and after it, and the user of `UserManager`. -/
def onCreate (inst : Option TodoDatabase) (user : Option User) : TodoNotificationService × Option TodoDatabase :=
  let (personalTodoDatabase, inst) := TodoDatabase.getInstance inst "personalTodoTemp"
  let (groupTodoDatabase, inst) := TodoDatabase.getInstance inst "groupTodo"
  ({ personalTodoDatabase, groupTodoDatabase, lat := 0, lng := 0, user }, inst)

/-- The static field after some services were created in a process. -/
def instanceAfter : Nat → Option TodoDatabase
  | 0 => none
  | n + 1 => (onCreate (instanceAfter n) none).2

def located (service : TodoNotificationService) (lat lng : ℚ) : TodoNotificationService := { service with lat, lng }

/-- The sort of `getTopTodoItem`. Without a user the first comparison throws. -/
def sortFor (service : TodoNotificationService) (notDoneItems : List TodoItem) (now zone : Int) :
    Except JavaException (List TodoItem) :=
  match service.user with
  | some user => sortNotDoneItems notDoneItems user service.lat service.lng now zone
  | none => Sorting.sortByKey (fun _ => (.error .nullPointer : Except JavaException ℚ)) notDoneItems

/-- `getTopTodoItem`, with the cache that it leaves. -/
def getTopTodoItem (service : TodoNotificationService) (gson : Gson) (isTestMode : Bool) (prefs : Preferences)
    (cache : NotificationCache) (now zone : Int) : Except JavaException (Option TodoItem × NotificationCache) := do
  let personalItems ← service.personalTodoDatabase.getAllTodos gson prefs
  let groupItems ← service.groupTodoDatabase.getAllTodos gson prefs
  let todoItems := personalItems ++ groupItems
  let notDoneItems ← service.sortFor (todoItems.filter fun item => !item.isDone) now zone
  match notDoneItems with
  | [] => return (none, cache)
  | topItem :: _ =>
    if isTestMode then
      return (some topItem, cache)
    else
      let cacheKey := toString (hashCode topItem.title)
      let lastNotified := (cache cacheKey).getD 0
      -- Only if this item has not been notified in the last 24 hours.
      if now - lastNotified ≥ 24 * 60 * 60 * 1000 then
        return (some topItem, Function.update cache cacheKey (some now))
      else
        return (none, cache)

/-! ### The choice -/

/-- `items` are the open ones of the stores, in the order in which they are read. -/
def ReadsOpen (service : TodoNotificationService) (gson : Gson) (prefs : Preferences) (items : List TodoItem) : Prop :=
  ∃ P G, service.personalTodoDatabase.getAllTodos gson prefs = .ok P ∧
    service.groupTodoDatabase.getAllTodos gson prefs = .ok G ∧ items = (P ++ G).filter fun item => !item.isDone

/-- `top` is the only item, which is not scored, or the first of those with the best score. -/
def FirstBest (service : TodoNotificationService) (items : List TodoItem) (now zone : Int) (top : TodoItem) : Prop :=
  items = [top] ∨ ∃ (user : User) (score : TodoItem → ℚ), service.user = some user ∧
    (∀ item, getItemScore item user service.lat service.lng now zone = .ok (score item)) ∧
    Sorting.FirstLeast (fun item => -score item) items top

/-- No item with the hash code of this title was chosen in the last 24 hours. -/
def Due (cache : NotificationCache) (now : Int) (title : String) : Prop :=
  now - (cache (toString (hashCode title))).getD 0 ≥ 24 * 60 * 60 * 1000

section Choice
variable {service : TodoNotificationService} {gson : Gson} {isTestMode : Bool} {prefs : Preferences}
  {cache cache' : NotificationCache} {now zone : Int} {items : List TodoItem} {top : TodoItem}

theorem sortFor_of_score {user : User} {score : TodoItem → ℚ} (huser : service.user = some user)
    (hscore : ∀ item, getItemScore item user service.lat service.lng now zone = .ok (score item)) :
    service.sortFor items now zone = .ok (items.insertionSort fun x y => -score x ≤ -score y) := by
  rw [sortFor, huser]
  exact sortNotDoneItems_of_score fun item _ => hscore item

theorem sortFor_of_length_lt (h : items.length < 2) : service.sortFor items now zone = .ok items := by
  unfold sortFor
  split
  · exact sortNotDoneItems_of_length_lt h
  · exact Sorting.sortByKey_of_length_lt h

/-- A sort that compares goes through only with a user for whom every item has a score. -/
theorem score_of_sortFor {sorted : List TodoItem} (h : service.sortFor items now zone = .ok sorted)
    (hl : 2 ≤ items.length) :
    ∃ (user : User) (score : TodoItem → ℚ), service.user = some user ∧
      ∀ item, getItemScore item user service.lat service.lng now zone = .ok (score item) := by
  obtain ⟨first, hfirst⟩ : ∃ first, first ∈ items := List.exists_mem_of_length_pos (by omega)
  unfold sortFor at h
  cases huser : service.user with
  | none =>
    rw [huser] at h
    obtain ⟨k, hk⟩ := Sorting.ok_of_sortByKey h hl first hfirst
    cases hk
  | some user =>
    rw [huser] at h
    obtain ⟨k, hk⟩ := Sorting.ok_of_sortByKey h hl first hfirst
    cases hs : getItemScore first user service.lat service.lng now zone with
    | error e =>
      rw [hs] at hk
      cases hk
    | ok x =>
      choose score hscore using scoringOk_iff.mp (scoringOk_of_score hs)
      exact ⟨user, score, rfl, hscore⟩

theorem sortFor_head_iff : (∃ rest, service.sortFor items now zone = .ok (top :: rest)) ↔
    service.FirstBest items now zone top := by
  constructor
  · rintro ⟨rest, h⟩
    by_cases hl : 2 ≤ items.length
    · obtain ⟨user, score, huser, hscore⟩ := score_of_sortFor h hl
      rw [sortFor_of_score huser hscore] at h
      refine Or.inr ⟨user, score, huser, hscore, Sorting.head?_insertionSort_iff.mp ?_⟩
      rw [Except.ok.inj h]
      rfl
    · rw [sortFor_of_length_lt (by omega)] at h
      obtain rfl := Except.ok.inj h
      simp only [List.length_cons] at hl
      obtain rfl := List.length_eq_zero_iff.mp (show rest.length = 0 by omega)
      exact Or.inl rfl
  · rintro (rfl | ⟨user, score, huser, hscore, hfirst⟩)
    · exact ⟨[], sortFor_of_length_lt (by simp)⟩
    · obtain ⟨rest, hrest⟩ := List.head?_eq_some_iff.mp (Sorting.head?_insertionSort_iff.mpr hfirst)
      exact ⟨rest, by rw [sortFor_of_score huser hscore, hrest]⟩

theorem throttle_eq_some_iff {first : TodoItem} :
    (if isTestMode then .ok (some first, cache)
      else if now - (cache (toString (hashCode first.title))).getD 0 ≥ 24 * 60 * 60 * 1000 then
        .ok (some first, Function.update cache (toString (hashCode first.title)) (some now))
      else .ok (none, cache) : Except JavaException (Option TodoItem × NotificationCache)) = .ok (some top, cache') ↔
    first = top ∧ (isTestMode = true ∨ Due cache now top.title) ∧
      cache' = if isTestMode then cache else Function.update cache (toString (hashCode top.title)) (some now) := by
  cases isTestMode with
  | true =>
    simp only [↓reduceIte, Except.ok.injEq, Prod.mk.injEq, Option.some.injEq, true_or, true_and]
    exact and_congr_right fun _ => eq_comm
  | false =>
    simp only [Bool.false_eq_true, ↓reduceIte, false_or]
    split
    · rename_i hdue
      rw [Except.ok.injEq, Prod.mk.injEq, Option.some.injEq]
      constructor
      · rintro ⟨rfl, rfl⟩
        exact ⟨rfl, hdue, rfl⟩
      · rintro ⟨rfl, -, rfl⟩
        exact ⟨rfl, rfl⟩
    · rename_i hdue
      refine ⟨fun h => (by cases h), ?_⟩
      rintro ⟨rfl, hdue', -⟩
      exact absurd hdue' hdue

/-- What `getTopTodoItem` returns, and what it leaves in the cache. -/
theorem getTopTodoItem_eq_some_iff :
    service.getTopTodoItem gson isTestMode prefs cache now zone = .ok (some top, cache') ↔
      (∃ items, service.ReadsOpen gson prefs items ∧ service.FirstBest items now zone top) ∧
      (isTestMode = true ∨ Due cache now top.title) ∧
      cache' = if isTestMode then cache else Function.update cache (toString (hashCode top.title)) (some now) := by
  unfold getTopTodoItem
  simp only [bind_eq_ok]
  constructor
  · rintro ⟨P, hP, G, hG, sorted, hsort, h⟩
    cases sorted with
    | nil => cases h
    | cons first rest =>
      obtain ⟨rfl, hrest⟩ := throttle_eq_some_iff.mp h
      exact ⟨⟨_, ⟨P, G, hP, hG, rfl⟩, sortFor_head_iff.mp ⟨rest, hsort⟩⟩, hrest⟩
  · rintro ⟨⟨_, ⟨P, G, hP, hG, rfl⟩, hfirst⟩, hrest⟩
    obtain ⟨rest, hsort⟩ := sortFor_head_iff.mpr hfirst
    exact ⟨P, hP, G, hG, top :: rest, hsort, throttle_eq_some_iff.mpr ⟨rfl, hrest⟩⟩

/-- A new service reads the personal store twice. A single open item in it comes first, before itself. -/
theorem first_of_single {user : User} (hscoring : ScoringOk user 0 0 now zone) (hopen : top.isDone = false)
    (hstore : TodoDatabase.getAllTodos gson ⟨"personalTodoTemp"⟩ prefs = .ok [top]) :
    ∃ items, (onCreate none (some user)).1.ReadsOpen gson prefs items ∧
      (onCreate none (some user)).1.FirstBest items now zone top := by
  choose score hscore using scoringOk_iff.mp hscoring
  have hitems : [top, top] = ([top] ++ [top]).filter fun item => !item.isDone := by simp [hopen]
  exact ⟨[top, top], ⟨_, _, hstore, hstore, hitems⟩,
    Or.inr ⟨user, score, rfl, hscore, [], [top], rfl, by simp, by simp⟩⟩

/-- An item that comes first and is not due is withheld. -/
theorem getTopTodoItem_of_not_due
    (hfirst : ∃ items, service.ReadsOpen gson prefs items ∧ service.FirstBest items now zone top)
    (hdue : ¬Due cache now top.title) :
    service.getTopTodoItem gson false prefs cache now zone = .ok (none, cache) := by
  obtain ⟨_, ⟨P, G, hP, hG, rfl⟩, hbest⟩ := hfirst
  obtain ⟨rest, hsort⟩ := sortFor_head_iff.mpr hbest
  unfold getTopTodoItem
  rw [hP, hG]
  show (service.sortFor _ now zone >>= _) = _
  rw [hsort]
  exact if_neg hdue

theorem cache_of_getTopTodoItem_none
    (h : service.getTopTodoItem gson isTestMode prefs cache now zone = .ok (none, cache')) : cache' = cache := by
  unfold getTopTodoItem at h
  simp only [bind_eq_ok] at h
  obtain ⟨P, -, G, -, sorted, -, h⟩ := h
  cases sorted with
  | nil => exact (Prod.mk.inj (Except.ok.inj h)).2.symm
  | cons first rest =>
    dsimp only at h
    split at h
    · cases h
    · split at h
      · cases h
      · exact (Prod.mk.inj (Except.ok.inj h)).2.symm

end Choice

end TodoNotificationService

end TodoWatch
