import Mathlib.Logic.Relation

/-!
# Forests

A relation in which everything has at most one predecessor is a forest of trees,
and perhaps of cycles. What hangs below two different children of a root is
disjoint (`Forest.disjoint_children`), and what can be reached from a root is on no
cycle (`Forest.not_transGen_self`): going back from it, one comes to the root, and
there is no way back from there.
-/

namespace Forest

open Relation

variable {α : Type*} {r : α → α → Prop} {root a b x : α}

/-- Of two elements above a third, one is above the other. -/
theorem total (h : Relator.LeftUnique r) (hax : ReflTransGen r a x) (hbx : ReflTransGen r b x) :
    ReflTransGen r a b ∨ ReflTransGen r b a := by
  have htotal := ReflTransGen.total_of_right_unique h.flip (reflTransGen_swap.mpr hax)
    (reflTransGen_swap.mpr hbx)
  exact htotal.symm.imp reflTransGen_swap.mp reflTransGen_swap.mp

/-- Nothing is above a root but itself. -/
theorem eq_root (hroot : ∀ y, ¬r y root) (h : ReflTransGen r a root) : a = root := by
  rcases h.cases_tail with heq | ⟨y, -, hy⟩
  · exact heq.symm
  · exact absurd hy (hroot y)

/-- Of two children of a root, none is above the other. -/
theorem not_above (h : Relator.LeftUnique r) (hroot : ∀ y, ¬r y root) (ha : r root a) (hb : r root b)
    (hne : a ≠ b) : ¬ReflTransGen r a b := by
  intro hab
  rcases hab.cases_tail with heq | ⟨y, hay, hy⟩
  · exact hne heq.symm
  · obtain rfl := h hy hb
    rw [eq_root hroot hay] at ha
    exact hroot _ ha

/-- **What hangs below two children of a root is disjoint.** -/
theorem disjoint_children (h : Relator.LeftUnique r) (hroot : ∀ y, ¬r y root) (ha : r root a)
    (hb : r root b) (hne : a ≠ b) (hax : ReflTransGen r a x) : ¬ReflTransGen r b x := by
  intro hbx
  rcases total h hax hbx with hab | hba
  · exact not_above h hroot ha hb hne hab
  · exact not_above h hroot hb ha hne.symm hba

/-- **What can be reached from a root is on no cycle.** -/
theorem not_transGen_self (h : Relator.LeftUnique r) (hroot : ∀ y, ¬r y root)
    (hx : ReflTransGen r root x) : ¬TransGen r x x := by
  induction hx with
  | refl =>
    intro hcycle
    obtain ⟨y, -, hy⟩ := TransGen.tail'_iff.mp hcycle
    exact hroot y hy
  | @tail y z _ hyz ih =>
    intro hcycle
    obtain ⟨w, hzw, hw⟩ := TransGen.tail'_iff.mp hcycle
    obtain rfl := h hw hyz
    exact ih (TransGen.head' hyz hzw)

end Forest
