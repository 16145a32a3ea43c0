import TodoWatch.Lifecycle
import TodoWatch.Lib.Runs

/-! # Does the service know its user?

The service asks `UserManager` once, when it is created, and never the preferences. So it has a user exactly if
an activity was launched before it in the same process. -/

namespace TodoWatch
namespace App

variable {s t : App} {e : Event}

/-- Whenever a check has run after a user was saved, its service had a user. -/
def KnowsUser (s : App) : Prop := ∀ check ∈ s.checks, check.saved = true → check.user ≠ none

/-- A check runs, once a user is saved, only for a service that was created after a launch in its process. -/
def ChecksAfterLaunch (s : App) (e : Event) : Prop :=
  ∀ i throws started, e = .service (.run i throws) → s.saved.isSome = true → s.owner i = some started →
    started.afterLaunch = true

structure UserInv (s : App) : Prop where
  manager : s.userManager.isSome = s.launched
  services : ∀ started ∈ s.services, started.user.isSome = started.afterLaunch
  created : s.process.created = s.services.length
  service : ∀ n, s.process.service = some n → n < s.services.length
  pending : ∀ n ∈ s.process.pending, n < s.services.length
  knows : KnowsUser s

/-! ### Steps -/

theorem owner_mem {i : Nat} {started : Started} (h : s.owner i = some started) : started ∈ s.services := by
  obtain ⟨n, -, hn⟩ := Option.bind_eq_some_iff.mp h
  exact List.mem_of_getElem? hn

theorem checks_check {i : Nat} {started : Started} (h : s.owner i = some started) :
    (s.check i).checks = s.checks ++ [⟨s.saved.isSome, started.user⟩] := by
  unfold check
  rw [h]
  rfl

theorem UserInv.exists_owner (h : UserInv s) {i n : Nat} (hi : s.process.pending[i]? = some n) :
    ∃ started, s.owner i = some started := by
  have hlt := h.pending n (List.mem_of_getElem? hi)
  refine ⟨s.services[n], ?_⟩
  rw [owner, hi, Option.bind_some, List.getElem?_eq_getElem hlt]

theorem UserInv.knows_check (h : UserInv s) {i : Nat} {started : Started} (ho : s.owner i = some started)
    (hafter : s.saved.isSome = true → started.afterLaunch = true) : KnowsUser (s.check i) := by
  unfold KnowsUser
  rw [checks_check ho]
  intro check hmem hsaved
  rcases List.mem_append.mp hmem with hmem | hmem
  · exact h.knows check hmem hsaved
  · obtain rfl := List.mem_singleton.mp hmem
    have hsome := h.services started (owner_mem ho)
    rw [hafter hsaved] at hsome
    exact Option.isSome_iff_ne_none.mp hsome

theorem userInv_step (h : UserInv s) (hc : ChecksAfterLaunch s e) (hs : s.step e = some t) : UserInv t := by
  cases e with
  | launch uuid =>
    obtain rfl := Option.some.inj hs
    exact ⟨rfl, h.services, h.created, h.service, h.pending, h.knows⟩
  | service event =>
    simp only [step, Option.map_eq_some_iff] at hs
    obtain ⟨process, hprocess, rfl⟩ := hs
    cases event with
    | onCreate =>
      simp only [Reminder.Process.step, Option.ite_none_right_eq_some, Option.some.injEq] at hprocess
      obtain ⟨-, rfl⟩ := hprocess
      have hlength : (s.onCreate.services).length = s.services.length + 1 := by simp [onCreate]
      refine ⟨h.manager, fun started hmem => ?_, ?_, fun n hn => ?_, fun n hn => ?_, h.knows⟩
      · rcases List.mem_append.mp hmem with hmem | hmem
        · exact h.services started hmem
        · obtain rfl := List.mem_singleton.mp hmem
          exact h.manager
      · show s.process.created + 1 = s.onCreate.services.length
        rw [hlength, h.created]
      · obtain rfl := Option.some.inj hn
        show s.process.created < s.onCreate.services.length
        rw [hlength, h.created]
        exact Nat.lt_succ_self _
      · show n < s.onCreate.services.length
        rw [hlength]
        exact Nat.lt_succ_of_lt (h.pending n hn)
    | onStartCommand =>
      obtain ⟨n, hn, rfl⟩ := Option.map_eq_some_iff.mp hprocess
      refine ⟨h.manager, h.services, h.created, h.service, fun m hm => ?_, h.knows⟩
      rcases List.mem_append.mp hm with hm | hm
      · exact h.pending m hm
      · rw [List.mem_singleton.mp hm]
        exact h.service n hn
    | run i throws =>
      obtain ⟨n, hi, rfl⟩ := Option.map_eq_some_iff.mp hprocess
      obtain ⟨started, ho⟩ := h.exists_owner hi
      have hknows := h.knows_check ho fun hsaved => hc i throws started rfl hsaved ho
      cases throws with
      | true => exact ⟨rfl, h.services, h.created, fun m hm => (by cases hm), fun m hm => (by cases hm), hknows⟩
      | false =>
        refine ⟨h.manager, h.services, h.created, h.service, fun m hm => ?_, hknows⟩
        rcases List.mem_append.mp hm with hm | hm
        · exact h.pending m (List.mem_of_mem_eraseIdx hm)
        · rw [List.mem_singleton.mp hm]
          exact h.pending n (List.mem_of_getElem? hi)
    | onDestroy =>
      obtain ⟨n, -, rfl⟩ := Option.map_eq_some_iff.mp hprocess
      exact ⟨h.manager, h.services, h.created, fun m hm => (by cases hm), h.pending, h.knows⟩
    | killed =>
      obtain rfl := Option.some.inj hprocess
      exact ⟨rfl, h.services, h.created, fun m hm => (by cases hm), fun m hm => (by cases hm), h.knows⟩

theorem not_knowsUser_step (h : UserInv s) (hc : ¬ChecksAfterLaunch s e) (hs : s.step e = some t) : ¬KnowsUser t := by
  unfold ChecksAfterLaunch at hc
  push Not at hc
  obtain ⟨i, throws, started, rfl, hsaved, ho, hafter⟩ := hc
  simp only [step, Option.map_eq_some_iff] at hs
  obtain ⟨process, -, rfl⟩ := hs
  intro hknows
  have hmem : (⟨s.saved.isSome, started.user⟩ : Checked) ∈ (s.check i).checks := by
    rw [checks_check ho]
    exact List.mem_append_right _ List.mem_cons_self
  have huser : started.user ≠ none := by
    cases throws with
    | true => exact hknows _ hmem hsaved
    | false => exact hknows _ hmem hsaved
  have hsome := h.services started (owner_mem ho)
  rw [Option.isSome_iff_ne_none.mpr huser] at hsome
  exact hafter hsome.symm

/-! ### Scoring -/

theorem getItemScore_eq_error {item : TodoItem} {user : User} {lat lng : ℚ} {time zone : Int} {x : JavaException}
    (h : getItemScore item user lat lng time zone = .error x) : ∃ message, x = .illegalArgument message := by
  have hcontext : ∀ {ρ β : Type} {within : ρ → Bool} {valueOf : String → Except JavaException β} {general : β}
      {map : Entries ρ}, mapToContext within valueOf general map = .error x → ∃ key, valueOf key = .error x := by
    intro ρ β within valueOf general map h
    unfold mapToContext at h
    split at h
    · exact ⟨_, h⟩
    · cases h
  unfold getItemScore at h
  cases hp : mapLocationToPlace user.locationMap lat lng with
  | error y =>
    rw [hp] at h
    obtain rfl := Except.error.inj h
    obtain ⟨key, hkey⟩ := hcontext hp
    unfold Place.valueOf at hkey
    split at hkey
    · cases hkey
    · exact ⟨_, (Except.error.inj hkey).symm⟩
  | ok place =>
    cases ht : mapTimeToContext user.timeMap time zone with
    | error y =>
      rw [hp, ht] at h
      obtain rfl := Except.error.inj h
      obtain ⟨key, hkey⟩ := hcontext ht
      unfold Time.valueOf at hkey
      split at hkey
      · cases hkey
      · exact ⟨_, (Except.error.inj hkey).symm⟩
    | ok context =>
      rw [hp, ht] at h
      cases h

/-- Scoring dereferences `null` for some items exactly if the service has no user. -/
theorem sortFor_nullPointer_iff {service : TodoNotificationService} :
    (∃ items now zone, service.sortFor items now zone = .error .nullPointer) ↔ service.user = none := by
  constructor
  · rintro ⟨items, now, zone, h⟩
    unfold TodoNotificationService.sortFor at h
    split at h
    · obtain ⟨item, -, hkey⟩ := Sorting.error_of_sortByKey h
      cases hscore : getItemScore item _ service.lat service.lng now zone with
      | ok score =>
        rw [hscore] at hkey
        cases hkey
      | error x =>
        rw [hscore] at hkey
        obtain rfl := Except.error.inj hkey
        obtain ⟨message, hx⟩ := getItemScore_eq_error hscore
        cases hx
    · assumption
  · intro h
    refine ⟨[.ofTitle "", .ofTitle ""], 0, 0, ?_⟩
    rw [TodoNotificationService.sortFor, h]
    rfl

end App

/-- In every run of the app each check that runs after a user was saved has a user, exactly when each of them
    belongs to a service that was created after a launch in its process. Without a user scoring dereferences
    `null`, and with one it never does. -/
theorem service_knowsUser_iff (saved : UserPrefs) (events : List App.Event) :
    (Runs.Always App.step App.KnowsUser (.start saved) events ↔
        Runs.Meets App.step App.ChecksAfterLaunch (.start saved) events) ∧
      ∀ service : TodoNotificationService,
        (∃ items now zone, service.sortFor items now zone = .error .nullPointer) ↔ service.user = none := by
  refine ⟨?_, fun _ => App.sortFor_nullPointer_iff⟩
  have hstart : App.UserInv (.start saved) :=
    ⟨rfl, fun _ h => absurd h List.not_mem_nil, rfl, fun n hn => (by cases hn), fun n hn => (by cases hn),
      fun _ h => absurd h List.not_mem_nil⟩
  exact Runs.always_iff_meets (fun _ _ _ h hc hs => App.userInv_step h hc hs) (fun _ h => h.knows)
    (fun _ _ _ h hc hs => App.not_knowsUser_step h hc hs) hstart

/-- The process is killed, and the service is created again in a fresh one with no activity. -/
theorem service_forgets_user :
    ∃ s, Runs.run App.step (.start none)
        [.launch "42", .service .onCreate, .service .onStartCommand, .service .killed, .service .onCreate,
          .service .onStartCommand, .service (.run 0 false)] = some s ∧
      s.checks = [⟨true, none⟩] ∧ ¬App.KnowsUser s := by
  refine ⟨_, rfl, rfl, fun h => ?_⟩
  exact h ⟨true, none⟩ List.mem_cons_self rfl rfl

end TodoWatch
