import Mathlib.Data.List.Find
import OS64.Windows.Focus

/-!
# The window at a point

The desktop shows the windows at their places, and looks for the window at a point when the
mouse is used. Two loops have to agree about which window is on top: `render` paints the
windows without the focus in the order of the slots, and then the one with the focus;
`wm_at` asks the one with the focus first, and then the others from the last slot on
(`OS64.Windows.wmAt_eq_last_painted`).
-/

namespace OS64.Windows

open List

/-- The point is in the rectangle of the window. -/
def Window.covers (w : Window) (x y : Int32) : Bool :=
  w.x ≤ x && w.y ≤ y && x < w.x + w.width && y < w.y + w.height

/-- `wm_at`. -/
def wmAt (wm : Manager) (x y : Int32) : Option (Fin wmMaxWindows) :=
  (slots.find? fun i => (wm.windows i).used && (wm.windows i).focused && (wm.windows i).covers x y).or
    (slots.reverse.find? fun i => (wm.windows i).used && (wm.windows i).covers x y)

/-- The windows in the order in which `render` paints them. -/
def painted (wm : Manager) : List (Fin wmMaxWindows) :=
  [false, true].flatMap fun pass => slots.filter fun i => (wm.windows i).used && (wm.windows i).focused == pass

/-- What can be found once only is found from both ends. -/
theorem find?_reverse_of_unique {α : Type} {l : List α} {p : α → Bool}
    (h : ∀ a ∈ l, ∀ b ∈ l, p a = true → p b = true → a = b) : l.reverse.find? p = l.find? p := by
  rcases hfind : l.find? p with _ | a
  · rw [find?_eq_none] at hfind ⊢
    exact fun b hb => hfind b (mem_reverse.mp hb)
  · rcases hback : l.reverse.find? p with _ | b
    · exact absurd (find?_some hfind) (find?_eq_none.mp hback a (mem_reverse.mpr (mem_of_find?_eq_some hfind)))
    · rw [h a (mem_of_find?_eq_some hfind) b (mem_reverse.mp (mem_of_find?_eq_some hback)) (find?_some hfind)
        (find?_some hback)]

/-- **The window at a point is the one that is painted last over it**, if at most one window has the focus, and
there is none exactly if no open window covers the point. -/
theorem wmAt_eq_last_painted (wm : Manager) (hone : ∀ i j, HasFocus wm i → HasFocus wm j → i = j) (x y : Int32) :
    wmAt wm x y = (painted wm).reverse.find? (fun i => (wm.windows i).covers x y) ∧
      (wmAt wm x y = none ↔ ∀ i, Open wm i → (wm.windows i).covers x y = false) := by
  have hfocused : slots.reverse.find? (fun i => decide ((((wm.windows i).used && (wm.windows i).focused == true) = true) ∧
      (wm.windows i).covers x y = true)) =
      slots.find? fun i => (wm.windows i).used && (wm.windows i).focused && (wm.windows i).covers x y := by
    rw [find?_reverse_of_unique]
    · congr 1
      funext i
      simp
    · intro i _ j _ hi hj
      simp only [beq_true, Bool.and_eq_true, decide_eq_true_eq] at hi hj
      exact hone i j hi.1 hj.1
  constructor
  · simp only [painted, flatMap_cons, flatMap_nil, append_nil, reverse_append, find?_append, ← filter_reverse,
      find?_filter, hfocused, wmAt]
    rcases hnone : slots.find? _ with _ | i
    · -- no window with the focus covers the point, and the others are all that is left
      rw [Option.none_or, Option.none_or]
      refine find?_congr fun i _ => ?_
      have hi := find?_eq_none.mp hnone i (mem_slots i)
      cases hf : (wm.windows i).focused <;> simp_all
    · rfl
  · rw [wmAt, Option.or_eq_none_iff, find?_eq_none, find?_eq_none]
    constructor
    · rintro ⟨-, h⟩ i hi
      simpa [show (wm.windows i).used = true from hi] using h i (mem_reverse.mpr (mem_slots i))
    · intro h
      refine ⟨fun i _ hi => ?_, fun i _ hi => ?_⟩ <;> simp only [Bool.and_eq_true] at hi
      · exact absurd (h i hi.1.1) (by simp [hi.2])
      · exact absurd (h i hi.1) (by simp [hi.2])

/-- Two windows one over the other, of which the first has got the focus back. -/
theorem wmAt_eq_last_painted_two :
    let wm := [.create [] 1, .create [] 2, .focus 1].foldl step (wmInit blank 1024 768)
    (∀ i j, HasFocus wm i → HasFocus wm j → i = j) ∧ (painted wm).getLast? = wmAt wm 100 100 := by
  intro wm
  have hone : ∀ i j, HasFocus wm i → HasFocus wm j → i = j := by decide +kernel
  refine ⟨hone, ?_⟩
  rw [(wmAt_eq_last_painted wm hone 100 100).1]
  decide +kernel

end OS64.Windows
