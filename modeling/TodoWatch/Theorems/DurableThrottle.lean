import TodoWatch.Theorems.DailyThrottle
import TodoWatch.Theorems.WatchSteps

/-! # Is the daily throttle durable?

The cache of the reminders is a file that is written behind, so a death can lose its last entries. But an entry only
ever makes way for a time that is a day later at least, whatever the clock does. So an entry that is on disk holds
back the reminders of its title in all processes that come after. -/

namespace TodoWatch
open Runs (Growth)

/-- Entries are replaced by later ones. -/
def cacheGrowth : Growth NotificationCache where
  grows a b := ∀ key c, a key = some c → ∃ c', b key = some c' ∧ c ≤ c'
  refl _ _ c hc := ⟨c, hc, le_refl c⟩
  trans h h' key c hc := by
    obtain ⟨c', hc', hle⟩ := h key c hc
    obtain ⟨c'', hc'', hle'⟩ := h' key c' hc'
    exact ⟨c'', hc'', hle.trans hle'⟩

theorem cacheGrowth_update {cache : NotificationCache} {now : Int} {title : String}
    (hdue : TodoNotificationService.Due cache now title) :
    cacheGrowth.grows cache (Function.update cache (Reminders.cacheKey title) (some now)) := by
  intro key c hc
  by_cases hkey : key = Reminders.cacheKey title
  · subst hkey
    refine ⟨now, Function.update_self _ _ _, ?_⟩
    unfold TodoNotificationService.Due at hdue
    rw [show cache (toString (hashCode title)) = some c from hc, Option.getD_some] at hdue
    omega
  · exact ⟨c, by rwa [Function.update_of_ne hkey], le_refl c⟩

namespace Watch

variable {gson : Gson} {zone : Int → Int} {w w' : Watch}

/-- The file of the cache, with later entries in what was written later. -/
def CacheOk (w : Watch) : Prop := w.files.notified.Ascends cacheGrowth fun _ => True

/-- The reminders of `w'` since `w`, with the entries that were on disk in `w`: each comes a day after that of its
    title. -/
def Throttled (w w' : Watch) : Prop :=
  ∃ new, w'.reminded = w.reminded ++ new ∧
    ∀ r ∈ new, ∀ c, w.files.notified.disk (Reminders.cacheKey r.item.title) = some c → c + Reminders.day ≤ r.now

/-! ### Steps -/

/-- What a step does to the file of the cache. -/
inductive Rewritten (file : WriteBack NotificationCache) : WriteBack NotificationCache → Prop
  | keep : Rewritten file file
  | crash : Rewritten file file.crash
  | flush {n : Nat} {file' : WriteBack NotificationCache} (h : file.flush n = some file') : Rewritten file file'
  | write {cache : NotificationCache} (h : cacheGrowth.grows file.memory cache) : Rewritten file (file.write cache)

/-- The step reminds of an item that is due by the cache in memory, and enters it there. -/
structure Enters (w w' : Watch) (r : Reminded) : Prop where
  reminded : w'.reminded = w.reminded ++ [r]
  due : TodoNotificationService.Due w.files.notified.memory r.now r.item.title
  entry : w'.files.notified.memory (Reminders.cacheKey r.item.title) = some r.now

/-- Only a check reminds. -/
theorem run_rewrites {i : Nat} {x : Surroundings} (hr : w.run gson false zone i x = some w') :
    Rewritten w.files.notified w'.files.notified ∧ (w'.reminded = w.reminded ∨ ∃ r, Enters w w' r) := by
  simp only [run, bind, Option.bind_eq_some_iff] at hr
  obtain ⟨owner, -, service, -, hr⟩ := hr
  split at hr
  · rename_i s hcheck
    obtain ⟨process, -, heq⟩ := Option.bind_eq_some_iff.mp hr
    obtain rfl := Option.some.inj heq
    have hstep : Reminders.step gson false ⟨w.files.notified.memory, w.reminded⟩ (w.moment zone service x) = some s := by
      rw [Reminders.step, hcheck]
    rcases Reminders.step_choice hstep with ⟨top, -, -, hdue, hcache, hreminded⟩ | rfl
    · refine ⟨.write ?_, Or.inr ⟨_, hreminded, hdue, ?_⟩⟩
      · rw [hcache]
        exact cacheGrowth_update hdue
      · show (w.files.notified.write s.cache).memory _ = _
        rw [WriteBack.memory_write, hcache, Function.update_self]
    · exact ⟨.write (cacheGrowth.refl _), Or.inl rfl⟩
  · obtain ⟨process, -, heq⟩ := Option.bind_eq_some_iff.mp hr
    obtain rfl := Option.some.inj heq
    exact ⟨.crash, Or.inl rfl⟩

theorem step_rewrites {e : Event} (hs : w.step gson false zone e = some w') :
    Rewritten w.files.notified w'.files.notified ∧ (w'.reminded = w.reminded ∨ ∃ r, Enters w w' r) := by
  cases e with
  | launch uuid =>
    simp only [step] at hs
    split at hs
    · rename_i t hlaunch
      obtain rfl := Option.some.inj hs
      have hlaunched := launched hlaunch
      rw [hlaunched.notified]
      exact ⟨.keep, Or.inl hlaunched.reminded⟩
    · obtain rfl := Option.some.inj hs
      exact ⟨.crash, Or.inl rfl⟩
  | onScreen e =>
    obtain ⟨s, -, hs⟩ := Option.bind_eq_some_iff.mp hs
    obtain ⟨⟨t, thrown⟩, -, rfl⟩ := Option.map_eq_some_iff.mp hs
    cases thrown with
    | none => exact ⟨.keep, Or.inl rfl⟩
    | some x => exact ⟨.crash, Or.inl rfl⟩
  | run i x => exact run_rewrites hs
  | flushNotified n =>
    obtain ⟨file, hf, rfl⟩ := Option.map_eq_some_iff.mp hs
    exact ⟨.flush hf, Or.inl rfl⟩
  | recreate | killed =>
    obtain rfl := Option.some.inj hs
    exact ⟨.crash, Or.inl rfl⟩
  | finish =>
    obtain rfl := Option.some.inj hs
    exact ⟨.keep, Or.inl rfl⟩
  | onCreate | onStartCommand | onDestroy | onLocation service lat lng | flushTodos key m | flushUser m =>
    obtain ⟨x, -, rfl⟩ := Option.map_eq_some_iff.mp hs
    exact ⟨.keep, Or.inl rfl⟩

/-- The file keeps its order, and what is on disk grows. -/
theorem Rewritten.ascends {file file' : WriteBack NotificationCache} (h : file.Ascends cacheGrowth fun _ => True)
    (hr : Rewritten file file') : file'.Ascends cacheGrowth (fun _ => True) ∧ cacheGrowth.grows file.disk file'.disk := by
  cases hr with
  | keep => exact ⟨h, cacheGrowth.refl _⟩
  | crash => exact ⟨h.crash, cacheGrowth.refl _⟩
  | flush hf => exact h.flush hf
  | write hgrows => exact ⟨h.write hgrows trivial, cacheGrowth.refl _⟩

theorem throttled_step {e : Event} {w₀ : Watch} (h : CacheOk w)
    (hgrown : cacheGrowth.grows w₀.files.notified.disk w.files.notified.disk) (ht : Throttled w₀ w)
    (hs : w.step gson false zone e = some w') : Throttled w₀ w' := by
  obtain ⟨new, hnew, hall⟩ := ht
  obtain ⟨-, hsame | ⟨r, hreminded, hdue, -⟩⟩ := step_rewrites hs
  · exact ⟨new, hsame.trans hnew, hall⟩
  · refine ⟨new ++ [r], by rw [hreminded, hnew, List.append_assoc], fun x hx c hc => ?_⟩
    rcases List.mem_append.mp hx with hx | hx
    · exact hall x hx c hc
    · rw [List.mem_singleton.mp hx] at hc ⊢
      -- The entry on disk has come to memory, or a later one has.
      obtain ⟨c', hc', hle⟩ := cacheGrowth.trans hgrown (h.grows_memory (WriteBack.disk_mem _)) _ c hc
      unfold TodoNotificationService.Due at hdue
      rw [show w.files.notified.memory (toString (hashCode r.item.title)) = some c' from hc', Option.getD_some] at hdue
      simp only [Reminders.day]
      omega

end Watch

open Watch

/-- Outside test mode each reminder is entered in the cache with its time, and whenever such a time is on disk, each
    reminder of the title that comes after, also from later processes, is at least 24 hours later. -/
theorem watch_throttles (gson : Gson) (zone : Int → Int) (before after : List Watch.Event) :
    Runs.Meets (Watch.step gson false zone) (fun w e => ∀ w', w.step gson false zone e = some w' →
        w'.reminded = w.reminded ∨ ∃ r, Enters w w' r) installed before ∧
      Runs.Always (Watch.step gson false zone)
        (fun w => Runs.Always (Watch.step gson false zone) (Throttled w) w after) installed before := by
  have hstart : CacheOk installed := WriteBack.Ascends.of_saved trivial
  have hok : Runs.Always (Watch.step gson false zone) CacheOk installed before :=
    Runs.always_of_inv (fun u _ _ (h : CacheOk u) _ hs => ((step_rewrites hs).1.ascends h).1) hstart Runs.meets_true
  refine ⟨Runs.meets_of_always (fun _ _ _ _ hs => (step_rewrites hs).2) hok, hok.imp fun w hw => ?_⟩
  refine (Runs.always_of_inv (fun u _ t (h : CacheOk u ∧ cacheGrowth.grows w.files.notified.disk u.files.notified.disk ∧
    Throttled w u) _ hs => ?_) ⟨hw, cacheGrowth.refl _, [], by simp⟩ Runs.meets_true).imp fun _ h => h.2.2
  obtain ⟨hu, hgrown, ht⟩ := h
  obtain ⟨hu', hdisk⟩ := (step_rewrites hs).1.ascends hu
  exact ⟨hu', cacheGrowth.trans hgrown hdisk, throttled_step hu hgrown ht hs⟩

end TodoWatch
