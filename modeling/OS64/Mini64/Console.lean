import Mathlib.Algebra.Order.Ring.Nat
import OS64.Lib.Runs

/-!
# The console of the recovery kernel

`mini64/kernel.c` draws its text into a frame buffer, in cells of 8 by 16 pixels. A
character that fills the last column moves the cursor to the next line, and the screen is
scrolled as soon as the cursor is below the last line; but a newline returns before that is
looked at. `OS64.Mini64.fbPutc_iff` says that newlines on the last line are all that can go
wrong: without them the screen shows the last lines of the output, wrapped at its width,
and the first one of them leaves the cursor below the screen.

The font is any table of bitmaps, and a pixel is a word of 32 bits.
-/

namespace OS64.Mini64

open List

/-! ### The console -/

/-- A frame buffer as `fb_init` takes it. -/
structure Screen where
  fbW : ℕ
  fbH : ℕ
  wide : 640 ≤ fbW
  high : 400 ≤ fbH

/-- `fb_cols`. -/
def Screen.fbCols (t : Screen) : ℕ := min (t.fbW / 8) 80

/-- `fb_rows`. -/
def Screen.fbRows (t : Screen) : ℕ := min (t.fbH / 16) 30

/-- The pixels, by line and column, and the cursor. -/
structure Console where
  fb : ℕ → ℕ → UInt32
  row : ℕ
  col : ℕ

/-- The background of a cell. -/
def bg : UInt32 := 0x00303030

/-- `fb_clear`, on whatever was on the screen. -/
def fbClear (t : Screen) (s : Console) : Console where
  fb y x := if y < t.fbH ∧ x < t.fbW then bg else s.fb y x
  row := 0
  col := 0

/-- `fb_scroll`. The lines are moved from the top on, so that each is read before it is
written over. -/
def fbScroll (t : Screen) (fb : ℕ → ℕ → UInt32) (y x : ℕ) : UInt32 :=
  if x < t.fbW ∧ y < t.fbRows * 16 then if y < (t.fbRows - 1) * 16 then fb (y + 16) x else 0 else fb y x

variable (font : UInt8 → ℕ → UInt8)

/-- The pixel of a character in its cell. -/
def glyph (c : UInt8) (gy gx : ℕ) : UInt32 := if (font c gy).toNat.testBit (7 - gx) then 0x00c0c0c0 else bg

/-- The character that is drawn. -/
def drawn (c : UInt8) : UInt8 := if c < 32 ∨ 127 < c then 63 else c

/-- The loops of `fb_putc` that draw a character at the cursor. -/
def draw (t : Screen) (s : Console) (c : UInt8) (y x : ℕ) : UInt32 :=
  if (s.col * 8 ≤ x ∧ x < s.col * 8 + 8 ∧ s.row * 16 ≤ y ∧ y < s.row * 16 + 16) ∧ x < t.fbW ∧ y < t.fbH then
    glyph font (drawn c) (y - s.row * 16) (x - s.col * 8)
  else s.fb y x

/-- `fb_putc`. -/
def fbPutc (t : Screen) (s : Console) (c : UInt8) : Console :=
  if c = 10 then { s with col := 0, row := s.row + 1 }
  else
    let s := { s with fb := draw font t s c, col := s.col + 1 }
    let s := if s.col = t.fbCols then { s with col := 0, row := s.row + 1 } else s
    if s.row = t.fbRows then { s with row := t.fbRows - 1, fb := fbScroll t s.fb } else s

/-! ### The text on the screen -/

/-- The lines of an output that is wrapped at `cols`: those that have ended, and the last one. -/
def wrapped (cols : ℕ) (cs : List UInt8) : List (List UInt8) × List UInt8 :=
  cs.foldl (fun (ended, l) c =>
    if c = 10 then (ended ++ [l], [])
    else if l.length + 1 = cols then (ended ++ [l ++ [c]], []) else (ended, l ++ [c])) ([], [])

/-- What stands at a place of the last `rows` lines. -/
def lastLines (rows : ℕ) (ls : List (List UInt8)) (r c : ℕ) : Option UInt8 :=
  (ls[r + (ls.length - rows)]?).bind (·[c]?)

/-- A cell shows a character, or nothing. -/
def Shows (fb : ℕ → ℕ → UInt32) (r c : ℕ) : Option UInt8 → Prop
  | some ch => ∀ gy < 16, ∀ gx < 8, fb (r * 16 + gy) (c * 8 + gx) = glyph font (drawn ch) gy gx
  | none => ∃ v, (v = 0 ∨ v = bg) ∧ ∀ gy < 16, ∀ gx < 8, fb (r * 16 + gy) (c * 8 + gx) = v

/-- The cursor is on the screen, and the screen shows the end of the output. -/
structure Right (t : Screen) (s : Console) (cs : List UInt8) : Prop where
  col : s.col < t.fbCols
  row : s.row < t.fbRows
  text : ∀ r < t.fbRows, ∀ c < t.fbCols,
    Shows font s.fb r c (lastLines t.fbRows ((wrapped t.fbCols cs).1 ++ [(wrapped t.fbCols cs).2]) r c)

section Cells

variable {font} {t : Screen} {s : Console} {fb fb' : ℕ → ℕ → UInt32} {r r' c : ℕ} {o : Option UInt8}

/-- A cell with the pixels of another one shows the same. -/
theorem Shows.congr (h : Shows font fb r' c o)
    (hfb : ∀ gy < 16, ∀ gx < 8, fb' (r * 16 + gy) (c * 8 + gx) = fb (r' * 16 + gy) (c * 8 + gx)) :
    Shows font fb' r c o := by
  rcases o with _ | ch
  · obtain ⟨v, hv, hall⟩ := h
    exact ⟨v, hv, fun gy hy gx hx => (hfb gy hy gx hx).trans (hall gy hy gx hx)⟩
  · exact fun gy hy gx hx => (hfb gy hy gx hx).trans (h gy hy gx hx)

/-- The cell at the cursor shows the character that is drawn. -/
theorem shows_draw_self (hrow : s.row < t.fbRows) (hcol : s.col < t.fbCols) (ch : UInt8) :
    Shows font (draw font t s ch) s.row s.col (some ch) := by
  intro gy hy gx hx
  rw [Screen.fbRows] at hrow
  rw [Screen.fbCols] at hcol
  rw [draw, if_pos (by omega), Nat.add_sub_cancel_left, Nat.add_sub_cancel_left]

/-- The other cells are left alone. -/
theorem Shows.draw (h : Shows font s.fb r c o) (hne : ¬(r = s.row ∧ c = s.col)) (ch : UInt8) :
    Shows font (draw font t s ch) r c o :=
  h.congr fun gy hy gx hx => if_neg (by omega)

theorem shows_fbScroll (hr : r < t.fbRows) (hc : c < t.fbCols)
    (h : r + 1 < t.fbRows → Shows font fb (r + 1) c o) (hlast : r + 1 = t.fbRows → o = none) :
    Shows font (fbScroll t fb) r c o := by
  have hin : ∀ gx < 8, c * 8 + gx < t.fbW := by
    rw [Screen.fbCols] at hc
    omega
  by_cases hr' : r + 1 < t.fbRows
  · refine (h hr').congr fun gy hy gx hx => ?_
    rw [fbScroll, if_pos ⟨hin gx hx, by omega⟩, if_pos (by omega)]
    congr 1
    omega
  · rw [hlast (by omega)]
    refine ⟨0, .inl rfl, fun gy hy gx hx => ?_⟩
    rw [fbScroll, if_pos ⟨hin gx hx, by omega⟩, if_neg (by omega)]

end Cells

section Lines

variable {rows r c : ℕ} {ls : List (List UInt8)} {l : List UInt8}

/-- A character behind the last line is on the line of the cursor. -/
theorem lastLines_type (hr : r < rows) (ch : UInt8) :
    lastLines rows (ls ++ [l ++ [ch]]) r c =
      if r = min ls.length (rows - 1) ∧ c = l.length then some ch else lastLines rows (ls ++ [l]) r c := by
  simp only [lastLines, length_append, length_singleton]
  rcases Nat.lt_trichotomy (r + (ls.length + 1 - rows)) ls.length with hlt | heq | hgt
  · rw [if_neg (by omega), getElem?_append_left hlt, getElem?_append_left hlt]
  · rw [heq, getElem?_concat_length, getElem?_concat_length, Option.bind_some, Option.bind_some, getElem?_append]
    by_cases hc : c < l.length
    · rw [if_pos hc, if_neg (by omega)]
    · rw [if_neg hc, getElem?_eq_none (Nat.not_lt.mp hc), getElem?_singleton]
      exact if_congr (by omega) rfl rfl
  · rw [if_neg (by omega), getElem?_eq_none (by simp; omega), getElem?_eq_none (by simp; omega)]

/-- A new line below the last one shows nothing, and moves the others up if there are enough of them. -/
theorem lastLines_next (hr : r < rows) :
    lastLines rows (ls ++ [[]]) r c =
      if ls.length < rows then lastLines rows ls r c
      else if r + 1 < rows then lastLines rows ls (r + 1) c else none := by
  have hempty : ∀ k : ℕ, ((ls ++ [[]])[k]?).bind (fun l : List UInt8 => l[c]?) = (ls[k]?).bind (·[c]?) := by
    intro k
    rcases Nat.lt_trichotomy k ls.length with hlt | rfl | hgt
    · rw [getElem?_append_left hlt]
    · rw [getElem?_concat_length, getElem?_eq_none le_rfl]
      rfl
    · rw [getElem?_eq_none (by simp; omega), getElem?_eq_none (by omega)]
  simp only [lastLines, length_append, length_singleton, hempty]
  split_ifs with hroom hmore
  · rw [show ls.length + 1 - rows = ls.length - rows by omega]
  · rw [show r + (ls.length + 1 - rows) = r + 1 + (ls.length - rows) by omega]
  · rw [getElem?_eq_none (by omega)]
    rfl

end Lines

/-! ### Every output -/

/-- The cursor stands behind the last line. -/
structure Follows (t : Screen) (s : Console) (cs : List UInt8) : Prop extends Right font t s cs where
  atCol : s.col = (wrapped t.fbCols cs).2.length
  atRow : s.row = min (wrapped t.fbCols cs).1.length (t.fbRows - 1)

variable {font} {t : Screen} {s : Console} {cs : List UInt8}

theorem wrapped_concat (cols : ℕ) (cs : List UInt8) (c : UInt8) :
    wrapped cols (cs ++ [c]) =
      if c = 10 then ((wrapped cols cs).1 ++ [(wrapped cols cs).2], [])
      else if (wrapped cols cs).2.length + 1 = cols then ((wrapped cols cs).1 ++ [(wrapped cols cs).2 ++ [c]], [])
      else ((wrapped cols cs).1, (wrapped cols cs).2 ++ [c]) := by
  rw [wrapped, foldl_append]
  rfl

/-- **A character keeps the screen right**, a newline only above the last line. -/
theorem Follows.fbPutc (h : Follows font t s cs) {c : UInt8} (hc : c = 10 → s.row + 1 < t.fbRows) :
    Follows font t (fbPutc font t s c) (cs ++ [c]) := by
  obtain ⟨⟨hcol, hrow, htext⟩, hatCol, hatRow⟩ := h
  have hw := wrapped_concat t.fbCols cs c
  generalize wrapped t.fbCols cs = w at htext hatCol hatRow hw
  obtain ⟨ended, l⟩ := w
  dsimp only at htext hatCol hatRow hw
  rw [Mini64.fbPutc]
  by_cases hnew : c = 10
  · have hroom := hc hnew
    rw [if_pos hnew] at hw ⊢
    refine ⟨⟨Nat.zero_lt_of_lt hcol, hroom, fun r hr c hc => ?_⟩, by rw [hw]; rfl, ?_⟩
    · rw [hw, lastLines_next hr, if_pos (by rw [length_append, length_singleton]; omega)]
      exact htext r hr c hc
    · rw [hw]
      simp only [length_append, length_singleton]
      omega
  · have hdrawn : ∀ r < t.fbRows, ∀ c' < t.fbCols,
        Shows font (draw font t s c) r c' (lastLines t.fbRows (ended ++ [l ++ [c]]) r c') := by
      intro r hr c' hc'
      rw [lastLines_type hr, ← hatRow, ← hatCol]
      split_ifs with hcursor
      · rw [hcursor.1, hcursor.2]
        exact shows_draw_self hrow hcol c
      · exact (htext r hr c' hc').draw hcursor c
    rw [if_neg hnew] at hw ⊢
    rw [← hatCol] at hw
    by_cases hfull : s.col + 1 = t.fbCols
    · rw [if_pos hfull] at hw
      simp only [if_pos hfull]
      by_cases hbottom : s.row + 1 = t.fbRows
      · rw [if_pos hbottom]
        refine ⟨⟨Nat.zero_lt_of_lt hcol, by dsimp only; omega, fun r hr c' hc' => ?_⟩, by rw [hw]; rfl, ?_⟩
        · rw [hw, lastLines_next hr, if_neg (by rw [length_append, length_singleton]; omega)]
          refine shows_fbScroll hr hc' (fun hr' => ?_) fun hlast => if_neg (by omega)
          rw [if_pos hr']
          exact hdrawn (r + 1) hr' c' hc'
        · rw [hw]
          simp only [length_append, length_singleton]
          omega
      · rw [if_neg hbottom]
        refine ⟨⟨Nat.zero_lt_of_lt hcol, by dsimp only; omega, fun r hr c' hc' => ?_⟩, by rw [hw]; rfl, ?_⟩
        · rw [hw, lastLines_next hr, if_pos (by rw [length_append, length_singleton]; omega)]
          exact hdrawn r hr c' hc'
        · rw [hw]
          simp only [length_append, length_singleton]
          omega
    · rw [if_neg hfull] at hw
      simp only [if_neg hfull, if_neg hrow.ne]
      refine ⟨⟨by dsimp only; omega, hrow, fun r hr c' hc' => ?_⟩, ?_, by rw [hw]; exact hatRow⟩
      · rw [hw]
        exact hdrawn r hr c' hc'
      · rw [hw, length_append, length_singleton, ← hatCol]

theorem follows_fbClear (font : UInt8 → ℕ → UInt8) (t : Screen) (s : Console) : Follows font t (fbClear t s) [] := by
  have hwide := t.wide
  have hhigh := t.high
  refine ⟨⟨?_, ?_, fun r hr c hc => ?_⟩, rfl, rfl⟩
  · change 0 < min (t.fbW / 8) 80
    omega
  · change 0 < min (t.fbH / 16) 30
    omega
  · have hnone : lastLines t.fbRows [[]] r c = none := by
      rw [← nil_append [[]], lastLines_next hr]
      exact if_pos (Nat.zero_lt_of_lt hr)
    refine hnone ▸ ⟨bg, .inr rfl, fun gy hy gx hx => if_pos ?_⟩
    rw [Screen.fbRows] at hr
    rw [Screen.fbCols] at hc
    omega

theorem follows_foldl
    (h : Runs.Throughout (fun before c => c = 10 → (before.foldl (fbPutc font t) (fbClear t s)).row + 1 < t.fbRows) cs) :
    Follows font t (cs.foldl (Mini64.fbPutc font t) (fbClear t s)) cs := by
  induction cs using List.reverseRecOn with
  | nil => exact follows_fbClear font t s
  | append_singleton cs c ih =>
    obtain ⟨hcs, hc⟩ := Runs.throughout_concat.mp h
    rw [foldl_append]
    exact (ih hcs).fbPutc hc

/-- **When the console is right.** After every character of an output the cursor is on the screen, and the screen
shows the last lines of the output wrapped at its width, exactly if no newline comes on the last line. -/
theorem fbPutc_iff (font : UInt8 → ℕ → UInt8) (t : Screen) (s : Console) (cs : List UInt8) :
    (∀ before after, cs = before ++ after → Right font t (before.foldl (fbPutc font t) (fbClear t s)) before) ↔
      Runs.Throughout (fun before c => c = 10 →
        (before.foldl (fbPutc font t) (fbClear t s)).row + 1 < t.fbRows) cs := by
  constructor
  · rintro hall before c after hsplit rfl
    have hright := (hall (before ++ [10]) after (by rw [hsplit, append_assoc]; rfl)).row
    rwa [foldl_append] at hright
  · intro hnew before after hsplit
    refine (follows_foldl (s := s) fun earlier c later h => hnew earlier c (later ++ after) ?_).toRight
    rw [hsplit, h, append_assoc, cons_append]

/-- On the smallest screen, 25 newlines leave the cursor below the last line. -/
theorem fbPutc_below :
    ((replicate 25 10).foldl (fbPutc (fun _ _ => 0) ⟨640, 400, le_rfl, le_rfl⟩)
      (fbClear ⟨640, 400, le_rfl, le_rfl⟩ ⟨fun _ _ => 0, 0, 0⟩)).row = Screen.fbRows ⟨640, 400, le_rfl, le_rfl⟩ := by
  decide +kernel

end OS64.Mini64
