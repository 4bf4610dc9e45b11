import Mathlib.Algebra.Order.BigOperators.Group.List
import OS64.Lib.Tree
import OS64.Lib.Text

/-!
# Paths as texts

A path is a text in which a separator stands before every name. `Paths.parts` are the
names in a text, however many separators there are between them, and `Paths.joined` is the
text for some names, with one separator before each. The two are inverse to each other on
proper names (`Paths.parts_joined`), and joining makes nothing longer
(`Paths.length_joined_parts_le`).

`Paths.render` is the way to write an absolute path: `joined`, except that the path without
names is the separator alone.
-/

namespace Paths

open List

variable {α : Type*} [BEq α] [LawfulBEq α] {sep : α}

/-- The names in a text. -/
def parts (sep : α) (l : List α) : List (List α) := (l.splitOn sep).filter fun c => !c.isEmpty

/-- The text for some names. -/
def joined (sep : α) (ms : List (List α)) : List α := ms.flatMap (sep :: ·)

/-- A text that can be a name. -/
def Proper (sep : α) (m : List α) : Prop := m ≠ [] ∧ sep ∉ m

omit [BEq α] [LawfulBEq α] in
theorem joined_cons (sep : α) (m : List α) (ms : List (List α)) :
    joined sep (m :: ms) = sep :: (m ++ joined sep ms) := by
  rw [joined, flatMap_cons, cons_append, joined]

omit [BEq α] [LawfulBEq α] in
theorem joined_concat (sep : α) (ms : List (List α)) (m : List α) :
    joined sep (ms ++ [m]) = joined sep ms ++ sep :: m := by
  rw [joined, flatMap_append, flatMap_singleton, joined]

/-! ### Splitting -/

/-- The text of some names behind another text. -/
theorem splitOn_append_joined {x : List α} {ms : List (List α)} (hx : sep ∉ x) (hms : ∀ m ∈ ms, sep ∉ m) :
    (x ++ joined sep ms).splitOn sep = x :: ms := by
  induction ms generalizing x with
  | nil =>
    rw [joined, flatMap_nil, append_nil, splitOn_eq_singleton hx]
  | cons m ms ih =>
    obtain ⟨hm, hms⟩ := forall_mem_cons.mp hms
    rw [joined_cons, splitOn_append_cons_self_of_not_mem hx, ih hm hms]

/-- **Names are found again.** -/
theorem parts_joined {ms : List (List α)} (hms : ∀ m ∈ ms, Proper sep m) : parts sep (joined sep ms) = ms := by
  have hsplit := splitOn_append_joined (x := []) not_mem_nil fun m hm => (hms m hm).2
  rw [nil_append] at hsplit
  rw [parts, hsplit, filter_cons_of_neg (by simp), filter_eq_self]
  intro m hm
  simpa using (hms m hm).1

theorem proper_of_mem_parts {l m : List α} (h : m ∈ parts sep l) : Proper sep m := by
  obtain ⟨hmem, hne⟩ := mem_filter.mp h
  exact ⟨by simpa using hne, Text.sep_notMem_of_mem_splitOn hmem⟩

theorem parts_cons_self (l : List α) : parts sep (sep :: l) = parts sep l := by
  rw [parts, splitOn_cons_eq_if_modifyHead, if_pos (beq_self_eq_true sep), filter_cons_of_neg (by simp), parts]

/-! ### Lengths -/

omit [BEq α] [LawfulBEq α] in
theorem length_joined (sep : α) (ms : List (List α)) : (joined sep ms).length = (ms.map fun m => m.length + 1).sum := by
  rw [joined, length_flatMap]
  rfl

omit [LawfulBEq α] in
/-- The parts of a text and the separators between them are the text. -/
theorem sum_splitOn (l : List α) : ((l.splitOn sep).map fun m => m.length + 1).sum = l.length + 1 := by
  induction l with
  | nil => simp
  | cons c l ih =>
    rcases hsplit : l.splitOn sep with _ | ⟨p, ps⟩
    · exact absurd hsplit (splitOn_ne_nil sep l)
    rw [hsplit] at ih
    rw [splitOn_cons_eq_if_modifyHead, hsplit]
    split
    · rw [map_cons, sum_cons, ih, length_nil, length_cons]
      omega
    · simp only [modifyHead_cons, map_cons, sum_cons, length_cons] at ih ⊢
      omega

omit [BEq α] [LawfulBEq α] in
theorem sum_filter_le (f : List α → ℕ) (p : List α → Bool) (ls : List (List α)) :
    ((ls.filter p).map f).sum ≤ (ls.map f).sum :=
  (filter_sublist.map f).sum_le_sum fun _ _ => Nat.zero_le _

/-- **Joining makes nothing longer.** -/
theorem length_joined_parts_le {l : List α} (h : l.head? = some sep) :
    (joined sep (parts sep l)).length ≤ l.length := by
  obtain ⟨l, rfl⟩ : ∃ l', l = sep :: l' := by
    cases l with
    | nil => simp at h
    | cons c l' => exact ⟨l', by rw [Option.some.inj h]⟩
  have hsum : ((l.splitOn sep).map fun m => m.length + 1).sum = l.length + 1 := sum_splitOn l
  rw [parts_cons_self, length_joined, length_cons, ← hsum, parts]
  exact sum_filter_le _ _ _

/-! ### Absolute paths -/

/-- The absolute path of some names. -/
def render (sep : α) (ms : List (List α)) : List α := if ms.isEmpty then [sep] else joined sep ms

end Paths
