import OS64.Lib.Text

/-!
# The window manager

`kernel/core/window_manager.c`: a table of six windows, each with an identifier,
a place on the screen and two flags, whether the slot is used and whether the
window has the focus.

The flags are Boolean, as nothing but 0 and 1 is assigned to them. An identifier
is an `unsigned` and the counter it comes from wraps; coordinates are `int`, with
`unsigned` sizes of the screen converted to it. A pointer to a window is its slot.
-/

namespace OS64.Windows

open Text

/-- `WM_MAX_WINDOWS`. -/
def wmMaxWindows : ℕ := 6

/-- `wm_layout_t`. -/
inductive Layout where
  | tiled
  | floating
  deriving DecidableEq, Repr

/-- `wm_window_t`. -/
structure Window where
  id : UInt32
  x : Int32
  y : Int32
  width : Int32
  height : Int32
  used : Bool
  focused : Bool
  title : List UInt8
  client : UInt64
  deriving DecidableEq

/-- `window_manager_t`. -/
structure Manager where
  screenWidth : UInt32
  screenHeight : UInt32
  nextId : UInt32
  layout : Layout
  windows : Fin wmMaxWindows → Window

/-- The slots in their order. -/
def slots : List (Fin wmMaxWindows) := List.finRange wmMaxWindows

/-- A window is changed. -/
def Manager.set (wm : Manager) (i : Fin wmMaxWindows) (w : Window) : Manager :=
  { wm with windows := Function.update wm.windows i w }

/-! ### Asking -/

/-- `wm_count`. -/
def wmCount (wm : Manager) : ℕ := (slots.filter fun i => (wm.windows i).used).length

/-- `wm_focused`: the identifier of the first window with the focus, 0 if there
is none. -/
def wmFocused (wm : Manager) : UInt32 :=
  match slots.find? fun i => (wm.windows i).used && (wm.windows i).focused with
  | some i => (wm.windows i).id
  | none => 0

/-- `wm_by_id`. -/
def wmById (wm : Manager) (id : UInt32) : Option (Fin wmMaxWindows) :=
  slots.find? fun i => (wm.windows i).used && (wm.windows i).id = id

/-! ### Laying out -/

/-- The place of a window in the tiled layout: `n` windows are open, and `seen` of
them come before it. -/
def tileWindow (wm : Manager) (n seen : ℕ) (v : Window) : Window :=
  let x : Int32 := 8
  let y : Int32 := 44
  let w := wm.screenWidth.toInt32 - 16
  let h := wm.screenHeight.toInt32 - 96
  if n = 1 then { v with x := x, y := y, width := w, height := h }
  else if seen = 0 then { v with x := x, y := y, width := w * 3 / 5 - 3, height := h }
  else
    let rw := w - w * 3 / 5 - 3
    let rh := h / (Int32.ofNat n - 1)
    let vy := y + (Int32.ofNat seen - 1) * rh
    { v with
      x := x + w * 3 / 5 + 3
      y := vy
      width := rw
      height := if seen = n - 1 then y + h - vy else rh - 3 }

/-- `tile`. -/
def tile (wm : Manager) : Manager :=
  if wm.layout ≠ .tiled then wm
  else
    (slots.foldl (fun (a : Manager × ℕ) i =>
      if (a.1.windows i).used then
        (a.1.set i (tileWindow wm (wmCount wm) a.2 (a.1.windows i)), a.2 + 1)
      else a) (wm, 0)).1

/-! ### Opening and closing -/

/-- `wm_init`. -/
def wmInit (wm : Manager) (width height : UInt32) : Manager where
  screenWidth := width
  screenHeight := height
  nextId := 1
  layout := .floating
  windows := fun i => { wm.windows i with used := false }

/-- The first slot that is not used. -/
def freeSlot (wm : Manager) : Option (Fin wmMaxWindows) :=
  slots.find? fun i => !(wm.windows i).used

/-- The window `wm_create` puts into a slot. -/
def newWindow (wm : Manager) (slot : Fin wmMaxWindows) (title : List UInt8) (client : UInt64) : Window where
  id := wm.nextId
  x := 36 + Int32.ofNat slot * 28
  y := 54 + Int32.ofNat slot * 24
  width := wm.screenWidth.toInt32 - 144
  height := wm.screenHeight.toInt32 - 160
  used := true
  focused := true
  title := (cstr title).take 31
  client := client

/-- `wm_create`, with the slot it returns. -/
def wmCreate (wm : Manager) (title : List UInt8) (client : UInt64) :
    Manager × Option (Fin wmMaxWindows) :=
  match freeSlot wm with
  | none => (wm, none)
  | some slot =>
    let windows := fun i => { wm.windows i with focused := false }
    let created := { wm with nextId := wm.nextId + 1, windows := windows }
    (tile (created.set slot (newWindow wm slot title client)), some slot)

/-- The last slot that is used. -/
def lastUsed (wm : Manager) : Option (Fin wmMaxWindows) :=
  slots.reverse.find? fun i => (wm.windows i).used

/-- `wm_close` before it passes the focus on. -/
def release (wm : Manager) (i : Fin wmMaxWindows) : Manager :=
  wm.set i { wm.windows i with used := false, focused := false }

/-- `wm_close`. -/
def wmClose (wm : Manager) (id : UInt32) : Manager :=
  match wmById wm id with
  | none => wm
  | some i => match lastUsed (release wm i) with
    | none => tile (release wm i)
    | some j => tile ((release wm i).set j { (release wm i).windows j with focused := true })

/-! ### The focus -/

/-- `wm_focus`. -/
def wmFocus (wm : Manager) (id : UInt32) : Manager :=
  match wmById wm id with
  | none => wm
  | some _ => { wm with
      windows := fun i =>
        { wm.windows i with focused := (wm.windows i).used && (wm.windows i).id = id } }

/-- A loop of `wm_focus_next`: the least identifier among those of the windows with
`p`, where 0 stands for none so far. -/
def candidate (wm : Manager) (p : Window → Bool) : UInt32 :=
  slots.foldl (fun c i =>
    if (wm.windows i).used && p (wm.windows i) && (c = 0 || (wm.windows i).id < c) then
      (wm.windows i).id else c) 0

/-- The identifier `wm_focus_next` chooses. -/
def nextCandidate (wm : Manager) : UInt32 :=
  let c := candidate wm fun w => wmFocused wm < w.id
  if c = 0 then candidate wm fun _ => true else c

/-- `wm_focus_next`. -/
def wmFocusNext (wm : Manager) : Manager :=
  if nextCandidate wm ≠ 0 then wmFocus wm (nextCandidate wm) else wm

/-! ### Layouts and places -/

/-- `wm_toggle_layout`. -/
def wmToggleLayout (wm : Manager) : Manager :=
  tile { wm with layout := if wm.layout = .tiled then .floating else .tiled }

/-- `wm_move`. -/
def wmMove (wm : Manager) (id : UInt32) (x y : Int32) : Manager :=
  match wmById wm id with
  | none => wm
  | some i =>
    if wm.layout ≠ .floating then wm
    else
      let w := wm.windows i
      let x := if x < 0 then 0 else x
      let y := if y < 36 then 36 else y
      let x := if x + w.width > wm.screenWidth.toInt32 then wm.screenWidth.toInt32 - w.width else x
      let y := if y + w.height > wm.screenHeight.toInt32 - 44 then
        wm.screenHeight.toInt32 - 44 - w.height else y
      wm.set i { w with x := x, y := y }

end OS64.Windows
