import Mathlib.Data.List.Basic
import TodoWatch.Lib.Runs

/-! # Files that are written behind

A value in memory with its copy on disk. A write changes the value in memory at once and queues it for the disk;
later one of the queued values gets there, and those before it are never written. When the process ends only the
disk is left. If each write grows, so does the disk, also over crashes: what it holds is an earlier value of the
memory. -/

open Runs (Growth)

/-- The value on disk and the values written since, the last of which is the one in memory. -/
structure WriteBack (α : Type) where
  disk : α
  queue : List α

namespace WriteBack
variable {α : Type}

def saved (a : α) : WriteBack α := ⟨a, []⟩

def values (f : WriteBack α) : List α := f.disk :: f.queue

def memory (f : WriteBack α) : α := f.values.getLast (List.cons_ne_nil _ _)

def write (f : WriteBack α) (a : α) : WriteBack α := { f with queue := f.queue ++ [a] }

/-- The value at a position of the queue gets to the disk. -/
def flush (f : WriteBack α) (n : Nat) : Option (WriteBack α) := f.queue[n]?.map fun a => ⟨a, f.queue.drop (n + 1)⟩

def crash (f : WriteBack α) : WriteBack α := { f with queue := [] }

/-- Each value has the property `P`, and is later than those before it. -/
structure Ascends (G : Growth α) (P : α → Prop) (f : WriteBack α) : Prop where
  pairwise : f.values.Pairwise G.grows
  all : ∀ a ∈ f.values, P a

variable {G : Growth α} {P : α → Prop} {f f' : WriteBack α} {a : α} {n : Nat}

theorem values_write (f : WriteBack α) (a : α) : (f.write a).values = f.values ++ [a] := rfl

@[simp] theorem memory_write (f : WriteBack α) (a : α) : (f.write a).memory = a := by
  simp only [memory, values_write, List.getLast_append_singleton]

@[simp] theorem disk_write (f : WriteBack α) (a : α) : (f.write a).disk = f.disk := rfl

@[simp] theorem memory_crash (f : WriteBack α) : f.crash.memory = f.disk := rfl

@[simp] theorem disk_crash (f : WriteBack α) : f.crash.disk = f.disk := rfl

theorem disk_mem (f : WriteBack α) : f.disk ∈ f.values := List.mem_cons_self

theorem memory_mem (f : WriteBack α) : f.memory ∈ f.values := List.getLast_mem _

/-- A flush forgets the values before the one that it writes. -/
theorem values_flush (h : f.flush n = some f') : f.values = (f.disk :: f.queue.take n) ++ f'.values := by
  obtain ⟨a, ha, rfl⟩ := Option.map_eq_some_iff.mp h
  obtain ⟨hlt, rfl⟩ := List.getElem?_eq_some_iff.mp ha
  rw [values, values, List.cons_append, List.getElem_cons_drop hlt, List.take_append_drop]

theorem memory_flush (h : f.flush n = some f') : f'.memory = f.memory := by
  simp only [memory, values_flush h]
  exact (List.getLast_append_of_ne_nil _ (List.cons_ne_nil _ _)).symm

/-- The value in memory can get to the disk, unless it is there. -/
theorem exists_flush (hne : f.queue ≠ []) : ∃ n f', f.flush n = some f' ∧ f'.disk = f.memory := by
  have hlast : f.queue[f.queue.length - 1]? = some f.memory := by
    rw [← List.getLast?_eq_getElem?, List.getLast?_eq_some_getLast hne, memory]
    exact congrArg some (List.getLast_cons hne).symm
  exact ⟨_, _, by rw [flush, hlast]; rfl, rfl⟩

namespace Ascends

theorem of_saved (h : P a) : (saved a).Ascends G P := ⟨List.pairwise_singleton _ a, by simpa [saved, values] using h⟩

theorem disk (h : f.Ascends G P) : P f.disk := h.all _ f.disk_mem

theorem memory (h : f.Ascends G P) : P f.memory := h.all _ f.memory_mem

/-- The value in memory is the latest one. -/
theorem grows_memory (h : f.Ascends G P) (ha : a ∈ f.values) : G.grows a f.memory := by
  have hsplit : f.values = f.values.dropLast ++ [f.memory] := (List.dropLast_append_getLast _).symm
  have hpair := h.pairwise
  rw [hsplit] at ha hpair
  rcases List.mem_append.mp ha with ha | ha
  · exact (List.pairwise_append.mp hpair).2.2 a ha f.memory (List.mem_singleton_self _)
  · rw [List.mem_singleton.mp ha]
    exact G.refl _

theorem write (h : f.Ascends G P) (hgrows : G.grows f.memory a) (ha : P a) : (f.write a).Ascends G P := by
  refine ⟨?_, fun b hb => ?_⟩
  · rw [values_write]
    refine List.pairwise_append.mpr ⟨h.pairwise, List.pairwise_singleton _ a, fun b hb c hc => ?_⟩
    rw [List.mem_singleton.mp hc]
    exact G.trans (h.grows_memory hb) hgrows
  · rw [values_write] at hb
    rcases List.mem_append.mp hb with hb | hb
    · exact h.all b hb
    · rwa [List.mem_singleton.mp hb]

theorem flush (h : f.Ascends G P) (hf : f.flush n = some f') : f'.Ascends G P ∧ G.grows f.disk f'.disk := by
  obtain ⟨hpair, hall⟩ := h
  rw [values_flush hf] at hpair hall
  obtain ⟨-, hpair', hgrows⟩ := List.pairwise_append.mp hpair
  exact ⟨⟨hpair', fun b hb => hall b (List.mem_append_right _ hb)⟩,
    hgrows f.disk List.mem_cons_self f'.disk f'.disk_mem⟩

theorem crash (h : f.Ascends G P) : f.crash.Ascends G P := of_saved h.disk

end Ascends

end WriteBack
