import TodoWatch.Installation
import TodoWatch.Theorems.ScreenStorage

/-! # The files of the stores

The app writes to a store in two ways: a launch inserts the built-in items into an empty one, an item at a time,
and a tick replaces an item by the same item done. Either way the store grows, so of the values that were written
any can get to the disk. -/

namespace TodoWatch

/-! ### Growing lists -/

/-- The same item, or the item done. -/
def TickedTo (x y : TodoItem) : Prop := y = x ∨ y = x.setDone true

/-- What was in the list is still in its place, as it was or done. -/
def Later (l l' : List TodoItem) : Prop :=
  ∀ (i : Nat) (x : TodoItem), l[i]? = some x → ∃ y, l'[i]? = some y ∧ TickedTo x y

/-- The items that a launch gives to an empty store. -/
def ItemList.mock : ItemList → List TodoItem
  | .personal => personalMock
  | .group => groupMock

/-- The first items of the built-in ones, each as it was or done. -/
def Seeded (list : ItemList) (l : List TodoItem) : Prop :=
  ∀ (i : Nat) (y : TodoItem), l[i]? = some y → ∃ x, list.mock[i]? = some x ∧ TickedTo x y

section Lists
variable {l l' l'' : List TodoItem} {x y z : TodoItem} {list : ItemList} {i : Nat}

theorem TickedTo.trans (h : TickedTo x y) (h' : TickedTo y z) : TickedTo x z := by
  rcases h with rfl | rfl
  · exact h'
  · rcases h' with rfl | rfl <;> exact Or.inr rfl

theorem TickedTo.title (h : TickedTo x y) : y.title = x.title := by
  rcases h with rfl | rfl <;> rfl

theorem TickedTo.eq_of_done (h : TickedTo x y) (hdone : x.isDone = true) : y = x := by
  rcases h with rfl | rfl
  · rfl
  · rw [TodoItem.setDone, ← hdone]

theorem TickedTo.eq_of_open (h : TickedTo x y) (hopen : y.isDone = false) : y = x := by
  rcases h with rfl | rfl
  · rfl
  · cases hopen

theorem Later.refl (l : List TodoItem) : Later l l := fun _ x hx => ⟨x, hx, Or.inl rfl⟩

theorem Later.trans (h : Later l l') (h' : Later l' l'') : Later l l'' := fun i x hx => by
  obtain ⟨y, hy, hxy⟩ := h i x hx
  obtain ⟨z, hz, hyz⟩ := h' i y hy
  exact ⟨z, hz, hxy.trans hyz⟩

theorem later_append (l l' : List TodoItem) : Later l (l ++ l') := fun i x hx =>
  ⟨x, by rw [List.getElem?_append_left (List.getElem?_eq_some_iff.mp hx).1, hx], Or.inl rfl⟩

theorem later_set (hi : l[i]? = some x) : Later l (l.set i (x.setDone true)) := fun j y hj => by
  by_cases hij : i = j
  · subst hij
    obtain rfl := Option.some.inj (hi.symm.trans hj)
    exact ⟨_, List.getElem?_set_self (List.getElem?_eq_some_iff.mp hi).1, Or.inr rfl⟩
  · exact ⟨y, by rwa [List.getElem?_set_ne hij], Or.inl rfl⟩

theorem Seeded.set (h : Seeded list l) (hi : l[i]? = some x) : Seeded list (l.set i (x.setDone true)) := fun j y hj => by
  by_cases hij : i = j
  · subst hij
    rw [List.getElem?_set_self (List.getElem?_eq_some_iff.mp hi).1] at hj
    obtain rfl := Option.some.inj hj
    obtain ⟨m, hm, hmx⟩ := h i x hi
    exact ⟨m, hm, hmx.trans (Or.inr rfl)⟩
  · exact h j y (by rwa [List.getElem?_set_ne hij] at hj)

theorem seeded_take (list : ItemList) (n : Nat) : Seeded list (list.mock.take n) := fun i y hy => by
  rw [List.getElem?_take] at hy
  split at hy
  · exact ⟨y, hy, Or.inl rfl⟩
  · cases hy

/-- Built-in items have distinct titles, and so have the items of a store. -/
theorem Seeded.titles (h : Seeded list l) : (l.map TodoItem.title).Nodup := by
  have htitles : l.map TodoItem.title = (list.mock.map TodoItem.title).take l.length := by
    refine List.ext_getElem? fun i => ?_
    rw [List.getElem?_map, List.getElem?_take]
    cases hi : l[i]? with
    | none => rw [if_neg (by simpa using hi)]; rfl
    | some y =>
      obtain ⟨x, hx, hxy⟩ := h i y hi
      rw [if_pos (List.getElem?_eq_some_iff.mp hi).1, List.getElem?_map, hx]
      exact congrArg some hxy.title
  rw [htitles]
  refine List.Nodup.sublist (List.take_sublist _ _) ?_
  cases list <;> decide

end Lists

/-! ### Texts -/

open Runs (Growth)

/-- A text that decodes to a list is followed by texts that decode to later ones. -/
def textGrowth (gson : Gson) : Growth (Option String) where
  grows a b := ∀ l, gson.fromJson (a.getD "[]") = .ok l → ∃ l', gson.fromJson (b.getD "[]") = .ok l' ∧ Later l l'
  refl _ l hl := ⟨l, hl, Later.refl l⟩
  trans h h' l hl := by
    obtain ⟨l', hl', hlater⟩ := h l hl
    obtain ⟨l'', hl'', hlater'⟩ := h' l' hl'
    exact ⟨l'', hl'', hlater.trans hlater'⟩

def SeedText (gson : Gson) (list : ItemList) (a : Option String) : Prop :=
  ∃ l, gson.fromJson (a.getD "[]") = .ok l ∧ Seeded list l

/-- The files of the two stores, on disk, queued and in memory. -/
def FilesOk (gson : Gson) (files : Files) : Prop :=
  ∀ list : ItemList, (files.todos list.database.key).Ascends (textGrowth gson) (SeedText gson list)

namespace Files
variable {gson : Gson} {files : Files} {prefs : Preferences} {list list' : ItemList} {l l' : List TodoItem}
  {item : TodoItem} {key : String}

@[simp] theorem prefs_apply : (files.apply prefs).prefs = prefs := by
  funext key
  simp only [Files.prefs, Files.apply]
  split
  · rename_i h
    exact h.symm
  · exact WriteBack.memory_write _ _

@[simp] theorem onDisk_apply : (files.apply prefs).onDisk = files.onDisk := by
  funext key
  simp only [Files.onDisk, Files.apply]
  split <;> rfl

theorem apply_prefs : files.apply files.prefs = files := by
  unfold Files.apply Files.prefs
  simp

end Files

/-- The store of the list has grown to `l` in memory, and the rest is as it was. -/
structure GrewTo (gson : Gson) (list : ItemList) (l : List TodoItem) (files files' : Files) : Prop where
  ok : FilesOk gson files'
  reads : list.database.getAllTodos gson files'.prefs = .ok l
  others : ∀ list' ≠ list, list'.database.getAllTodos gson files'.prefs = list'.database.getAllTodos gson files.prefs
  onDisk : files'.onDisk = files.onDisk
  user : files'.user = files.user

namespace FilesOk
variable {gson : Gson} {files : Files} {list list' : ItemList} {l l' : List TodoItem} {item : TodoItem} {key : String}

theorem installed (gson : Gson) : FilesOk gson .installed := fun list =>
  .of_saved ⟨[], gson.fromJson_empty, fun i y hy => by cases hy⟩

theorem crash (h : FilesOk gson files) : FilesOk gson files.crash := fun list => (h list).crash

/-- The list in memory, with the one on disk from which it has grown. -/
theorem reads (h : FilesOk gson files) (list : ItemList) : ∃ l₀ l,
    list.database.getAllTodos gson files.onDisk = .ok l₀ ∧ list.database.getAllTodos gson files.prefs = .ok l ∧
      Seeded list l₀ ∧ Seeded list l ∧ Later l₀ l := by
  obtain ⟨l₀, hl₀, hseed₀⟩ := (h list).disk
  obtain ⟨l, hl, hseed⟩ := (h list).memory
  obtain ⟨l', hl', hlater⟩ := (h list).grows_memory (WriteBack.disk_mem _) l₀ hl₀
  obtain rfl := Except.ok.inj (hl.symm.trans hl')
  exact ⟨l₀, l, hl₀, hl, hseed₀, hseed, hlater⟩

/-- A store that is saved, with a later list. -/
theorem save (h : FilesOk gson files) (hl : list.database.getAllTodos gson files.prefs = .ok l) (hlater : Later l l')
    (hseed : Seeded list l') : GrewTo gson list l' files (files.apply (list.database.saveTodos gson files.prefs l')) where
  ok list' := by
    simp only [Files.apply]
    split
    · exact h list'
    · rename_i hne
      -- Only the file of the list changes.
      by_cases heq : list' = list
      · subst heq
        have htext : list'.database.saveTodos gson files.prefs l' list'.database.key = some (gson.toJson l') :=
          Function.update_self _ _ _
        have hread : gson.fromJson ((some (gson.toJson l')).getD "[]") = .ok l' := gson.fromJson_toJson l'
        rw [htext]
        refine (h list').write (fun x hx => ?_) ⟨l', hread, hseed⟩
        obtain rfl := Except.ok.inj (hl.symm.trans hx)
        exact ⟨l', hread, hlater⟩
      · exact absurd (Function.update_of_ne (Screen.database_key_ne heq) _ _) hne
  reads := by rw [Files.prefs_apply, TodoDatabase.getAllTodos_saveTodos]
  others list' hne := by
    rw [Files.prefs_apply, TodoDatabase.getAllTodos_saveTodos_of_ne (Screen.database_key_ne hne)]
  onDisk := Files.onDisk_apply
  user := rfl

theorem flush {n : Nat} {file : WriteBack (Option String)} (h : FilesOk gson files)
    (hf : (files.todos key).flush n = some file) :
    FilesOk gson { files with todos := Function.update files.todos key file } := fun list => by
  by_cases hk : list.database.key = key
  · subst hk
    simp only [Function.update_self]
    exact ((h list).flush hf).1
  · simp only [Function.update_of_ne hk]
    exact h list

end FilesOk

/-! ### Launches -/

section Launch
variable {gson : Gson} {files files' files'' : Files} {list : ItemList} {l l' : List TodoItem}

theorem GrewTo.refl (h : FilesOk gson files) (hl : list.database.getAllTodos gson files.prefs = .ok l) :
    GrewTo gson list l files files := ⟨h, hl, fun _ _ => rfl, rfl, rfl⟩

theorem GrewTo.trans (h : GrewTo gson list l files files') (h' : GrewTo gson list l' files' files'') :
    GrewTo gson list l' files files'' :=
  ⟨h'.ok, h'.reads, fun list' hne => (h'.others list' hne).trans (h.others list' hne), h'.onDisk.trans h.onDisk,
    h'.user.trans h.user⟩

/-- An empty store gets the rest of the built-in items. -/
theorem insertTodos_of_seeds (h : FilesOk gson files) {items : List TodoItem} {n : Nat} (hn : list.mock.drop n = items)
    (hl : list.database.getAllTodos gson files.prefs = .ok (list.mock.take n)) :
    ∃ files', files.insertTodos gson list.database items = .ok files' ∧ GrewTo gson list list.mock files files' := by
  induction items generalizing files n with
  | nil =>
    rw [List.take_of_length_le (List.drop_eq_nil_iff.mp hn)] at hl
    exact ⟨files, rfl, .refl h hl⟩
  | cons item items ih =>
    have hlt : n < list.mock.length := by
      by_contra hge
      rw [List.drop_eq_nil_of_le (by omega)] at hn
      cases hn
    rw [← List.getElem_cons_drop hlt] at hn
    obtain ⟨rfl, hrest⟩ := List.cons.inj hn
    have hnext : list.mock.take n ++ [list.mock[n]] = list.mock.take (n + 1) := List.take_append_getElem hlt
    have hlater : Later (list.mock.take n) (list.mock.take (n + 1)) := hnext ▸ later_append _ _
    have hgrew := h.save hl hlater (seeded_take list (n + 1))
    obtain ⟨files', hinsert, hgrew'⟩ := ih hgrew.ok hrest hgrew.reads
    refine ⟨files', ?_, hgrew.trans hgrew'⟩
    rw [Files.insertTodos, TodoDatabase.insertTodo_of_ok hl, hnext]
    exact hinsert

/-- Nothing is fetched, so a launch gives an empty store the built-in items, and takes any other one as it is. -/
theorem fetchTodos_of_seeds (h : FilesOk gson files) (list : ItemList) (hl : list.database.getAllTodos gson files.prefs = .ok l)
    (key : String) : ∃ files', files.fetchTodos gson list.database list.mock (RedisHelper.getTodos key) =
        .ok (if l = [] then list.mock else l, files') ∧ GrewTo gson list (if l = [] then list.mock else l) files files' := by
  unfold Files.fetchTodos RedisHelper.getTodos
  rw [hl]
  cases l with
  | nil =>
    obtain ⟨files', hinsert, hgrew⟩ := insertTodos_of_seeds (n := 0) h rfl hl
    refine ⟨files', ?_, hgrew⟩
    rw [List.append_nil]
    show (Files.insertTodos gson list.database files list.mock >>= _) = _
    rw [show list.mock = list.mock.drop 0 from rfl, hinsert]
    rfl
  | cons item rest => exact ⟨files, rfl, .refl h hl⟩

end Launch

end TodoWatch
