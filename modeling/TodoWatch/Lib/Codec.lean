import Mathlib.Data.List.Basic

/-! # Codecs

A codec writes a value as characters that delimit themselves: the reader gives the value back with
whatever follows it. So codecs compose, and a codec of the elements gives one of the lists. -/

structure Codec (α : Type) where
  write : α → List Char
  read : List Char → Option (α × List Char)
  read_write : ∀ a rest, read (write a ++ rest) = some (a, rest)

namespace Codec

variable {α β : Type}

def lit (text : List Char) : Codec Unit where
  write _ := text
  read input := if text.isPrefixOf input then some ((), input.drop text.length) else none
  read_write _ rest := by
    rw [if_pos (List.isPrefixOf_iff_prefix.mpr (List.prefix_append text rest)), List.drop_left]

def seq (c : Codec α) (d : Codec β) : Codec (α × β) where
  write x := c.write x.1 ++ d.write x.2
  read input := (c.read input).bind fun x => (d.read x.2).map fun y => ((x.1, y.1), y.2)
  read_write x rest := by
    rw [List.append_assoc, c.read_write]
    show ((d.read (d.write x.2 ++ rest)).map _ : Option _) = _
    rw [d.read_write]
    rfl

/-- A value written as another one, from which it can be got back. -/
def via (c : Codec α) (f : β → α) (g : α → Option β) (h : ∀ b, g (f b) = some b) : Codec β where
  write b := c.write (f b)
  read input := (c.read input).bind fun x => (g x.1).map (·, x.2)
  read_write b rest := by
    rw [c.read_write]
    show ((g (f b)).map _ : Option _) = _
    rw [h]
    rfl

def bool : Codec Bool where
  write b := if b then ['t', 'r', 'u', 'e'] else ['f', 'a', 'l', 's', 'e']
  read
    | 't' :: 'r' :: 'u' :: 'e' :: rest => some (true, rest)
    | 'f' :: 'a' :: 'l' :: 's' :: 'e' :: rest => some (false, rest)
    | _ => none
  read_write b _ := by cases b <;> rfl

/-! ### Quoted text -/

def escape (c : Char) : List Char := if c = '"' ∨ c = '\\' then ['\\', c] else [c]

def unquote : List Char → Option (List Char × List Char)
  | [] => none
  | '"' :: rest => some ([], rest)
  | '\\' :: c :: rest => (unquote rest).map fun x => (c :: x.1, x.2)
  | c :: rest => (unquote rest).map fun x => (c :: x.1, x.2)

theorem unquote_escape (rest : List Char) :
    ∀ text : List Char, unquote (text.flatMap escape ++ '"' :: rest) = some (text, rest)
  | [] => rfl
  | c :: text => by
    have ih := unquote_escape rest text
    rw [List.flatMap_cons, List.append_assoc]
    by_cases hc : c = '"' ∨ c = '\\'
    · rw [escape, if_pos hc]
      show (unquote (text.flatMap escape ++ '"' :: rest)).map _ = _
      rw [ih]
      rfl
    · rw [escape, if_neg hc]
      obtain ⟨hquote, hback⟩ := not_or.mp hc
      have hcons : unquote ([c] ++ (text.flatMap escape ++ '"' :: rest)) =
          (unquote (text.flatMap escape ++ '"' :: rest)).map fun x => (c :: x.1, x.2) := by
        rw [List.singleton_append, unquote]
        · exact hquote
        · exact fun _ _ h _ => hback h
      rw [hcons, ih]
      rfl

/-- A text in quotes, where a quote or a backslash stands after a backslash. -/
def quoted : Codec (List Char) where
  write text := '"' :: (text.flatMap escape ++ ['"'])
  read input := match input with
    | '"' :: rest => unquote rest
    | _ => none
  read_write text rest := by
    rw [List.cons_append, List.append_assoc]
    exact unquote_escape rest text

/-! ### Lists -/

section Lists
variable (c : Codec α)

def writeTail : List α → List Char
  | [] => [']']
  | a :: as => ',' :: (c.write a ++ writeTail as)

/-- The elements after the first one, of which there are at most as many as `fuel`. -/
def readTail : Nat → List Char → Option (List α × List Char)
  | 0, _ => none
  | fuel + 1, input => match input with
    | ']' :: rest => some ([], rest)
    | ',' :: rest => (c.read rest).bind fun x => (readTail fuel x.2).map fun y => (x.1 :: y.1, y.2)
    | _ => none

theorem readTail_writeTail (rest : List Char) :
    ∀ {fuel : Nat} {as : List α}, as.length < fuel → readTail c fuel (writeTail c as ++ rest) = some (as, rest) := by
  intro fuel
  induction fuel with
  | zero => exact fun h => absurd h (Nat.not_lt_zero _)
  | succ fuel ih =>
    intro as h
    cases as with
    | nil => rfl
    | cons a as =>
      show (c.read (c.write a ++ writeTail c as ++ rest)).bind _ = _
      rw [List.append_assoc, c.read_write]
      show (readTail c fuel (writeTail c as ++ rest)).map _ = _
      rw [ih (Nat.lt_of_succ_lt_succ h)]
      rfl

theorem length_lt_writeTail (as : List α) : as.length < (writeTail c as).length := by
  induction as with
  | nil => exact Nat.zero_lt_one
  | cons a as ih =>
    simp only [writeTail, List.length_cons, List.length_append]
    omega

/-- A list in brackets, with commas, of elements that do not start with a closing bracket. -/
def list (h : ∀ a rest, (c.write a ++ rest).head? ≠ some ']') : Codec (List α) where
  write
    | [] => ['[', ']']
    | a :: as => '[' :: (c.write a ++ writeTail c as)
  read input := match input with
    | '[' :: ']' :: rest => some ([], rest)
    | '[' :: rest => (c.read rest).bind fun x => (readTail c x.2.length x.2).map fun y => (x.1 :: y.1, y.2)
    | _ => none
  read_write as rest := by
    cases as with
    | nil => rfl
    | cons a as =>
      have hread := c.read_write a (writeTail c as ++ rest)
      have hhead := h a (writeTail c as ++ rest)
      rw [List.cons_append, List.append_assoc]
      have hfuel : as.length < (writeTail c as ++ rest).length := by
        rw [List.length_append]
        exact Nat.lt_of_lt_of_le (length_lt_writeTail c as) (Nat.le_add_right _ _)
      split
      · rename_i heq
        rw [(List.cons.inj heq).2] at hhead
        exact absurd rfl hhead
      · rename_i heq
        rw [← (List.cons.inj heq).2, hread]
        show (readTail c _ _).map _ = _
        rw [readTail_writeTail c rest hfuel]
        rfl
      · rename_i hnot
        exact absurd rfl (hnot _)

end Lists

end Codec
