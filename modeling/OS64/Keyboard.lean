import OS64.Lib.Runs

/-!
# The keyboard

`keyboard_poll` reads one byte of the controller at a time: a make code when a key is pressed,
the same code with bit 7 when it is released, and 0xE0 in front of some codes. It remembers
Shift, Ctrl and Alt, but one flag stands for two keys: when one of the Shift keys is released,
the flag is cleared although the other one is still held. The codes of Shift, Ctrl, Alt and
Caps Lock return before the prefix is forgotten, which then turns the next key into another
one; on a keyboard these are right Ctrl and right Alt. And four keys of the keypad have no
character.

`OS64.Keyboard.faithful_iff` says that nothing else goes wrong.
-/

namespace OS64.Keyboard

open List

/-! ### The decoder -/

/-- The variables of the decoder. -/
structure Decoder where
  shift : Bool
  ctrl : Bool
  alt : Bool
  caps : Bool
  extended : Bool
  ready : Bool

/-- `keyboard_init`, where the controller and the keyboard answer. -/
def keyboardInit : Decoder := ⟨false, false, false, false, false, true⟩

/-- The entry of a table that is given by its runs, 0 where there is none. -/
def entry (table : List (ℕ × String)) (s : ℕ) : UInt8 :=
  (table.findSome? fun r => if r.1 ≤ s then r.2.toList[s - r.1]? else none).elim 0 fun c => UInt8.ofNat c.toNat

/-- `normal`. -/
def normal : List (ℕ × String) :=
  [(1, "\x1b1234567890-=\x08\t"), (26, "[]\n"), (39, ";'`"), (43, "\\"), (51, ",./"), (57, " ")]

/-- `shifted`. -/
def shifted : List (ℕ × String) :=
  [(2, "!@#$%^&*()_+"), (26, "\x7b\x7d"), (39, ":\"~"), (43, "|"), (51, "<>?"), (57, " ")]

/-- `letter`. -/
def letter (k : Decoder) (lower : UInt8) : UInt8 := if k.caps ^^ k.shift then lower - 97 + 65 else lower

/-- The characters `keyboard_poll` has for keys with the prefix. -/
def navigation : List (ℕ × UInt8) :=
  [(72, 0x11), (80, 0x12), (75, 0x13), (77, 0x14), (71, 0x91), (79, 0x92), (73, 0x93), (81, 0x94),
    (82, 0x95), (83, 0x96)]

/-- The character of a key without the prefix. -/
def character (k : Decoder) (s : ℕ) : UInt8 :=
  if 59 ≤ s ∧ s ≤ 68 then UInt8.ofNat (0x80 + s - 58)
  else if s = 15 ∧ k.shift then 0x8f
  else
    let value :=
      if 16 ≤ s ∧ s ≤ 25 then letter k (entry [(16, "qwertyuiop")] s)
      else if 30 ≤ s ∧ s ≤ 38 then letter k (entry [(30, "asdfghjkl")] s)
      else if 44 ≤ s ∧ s ≤ 50 then letter k (entry [(44, "zxcvbnm")] s)
      else entry (if k.shift then shifted else normal) s
    if k.ctrl ∧ 97 ≤ value ∧ value ≤ 122 then value - 97 + 1
    else if k.alt ∧ value ≠ 0 then value ||| 0x80
    else value

/-- `keyboard_poll`, with what the controller has for it. -/
def keyboardPoll (k : Decoder) : Option UInt8 → Decoder × UInt8
  | none => (k, 0)
  | some b =>
    if ¬k.ready then (k, 0)
    else if b = 0xe0 then ({ k with extended := true }, 0)
    else
      let released : Bool := b &&& 0x80 ≠ 0
      let s := (b &&& 0x7f).toNat
      if s = 42 ∨ s = 54 then ({ k with shift := !released }, 0)
      else if s = 29 then ({ k with ctrl := !released }, 0)
      else if s = 56 then ({ k with alt := !released }, 0)
      else if s = 58 ∧ ¬released then ({ k with caps := !k.caps }, 0)
      else if released then ({ k with extended := false }, 0)
      else if k.extended then ({ k with extended := false }, (navigation.lookup s).getD 0)
      else (k, character k s)

/-! ### The keys -/

/-- A key is pressed or released. Keys are told apart by their codes and the prefix. -/
structure Event where
  extended : Bool
  code : ℕ
  released : Bool
  lt : code < 96

/-- The make code or the break code of a key. -/
def scan (code : ℕ) (released : Bool) : UInt8 := UInt8.ofNat (code + if released then 128 else 0)

/-- What a keyboard sends. -/
def Event.bytes (e : Event) : List UInt8 := (if e.extended then [0xe0] else []) ++ [scan e.code e.released]

/-- The codes for which `keyboard_poll` returns before it forgets the prefix. -/
def Event.early (e : Event) : Bool := e.code ∈ [42, 54, 29, 56] || (e.code == 58 && !e.released)

/-- A decoder and the keys in front of it: which are held, whether Caps Lock is on, and whether there was a prefix
that only codes have followed for which it is kept. -/
structure Typing where
  keyboard : Decoder
  held : Bool × ℕ → Bool
  locked : Bool
  pending : Bool

/-- The decoder behind the prefix of an event, if it has one. -/
def Typing.prefixed (t : Typing) (e : Event) : Decoder :=
  if e.extended then (keyboardPoll t.keyboard (some 0xe0)).1 else t.keyboard

/-- An event, of which the decoder polls every byte. -/
def Typing.step (t : Typing) (e : Event) : Typing where
  keyboard := (keyboardPoll (t.prefixed e) (some (scan e.code e.released))).1
  held := Function.update t.held (e.extended, e.code) !e.released
  locked := t.locked ^^ (¬e.extended ∧ e.code = 58 ∧ ¬e.released)
  pending := e.early && (t.pending || e.extended)

/-- What the decoder answers to the code of an event. -/
def Typing.answer (t : Typing) (e : Event) : UInt8 := (keyboardPoll (t.prefixed e) (some (scan e.code e.released))).2

/-- No key is held. -/
def Typing.initial : Typing := ⟨keyboardInit, fun _ => false, false, false⟩

/-- The printable keys without a prefix, in runs of codes, plain and with Shift. The last three are on the keypad. -/
def printable : List (ℕ × String × String) :=
  [(2, "1234567890-=", "!@#$%^&*()_+"), (16, "qwertyuiop[]", "QWERTYUIOP\x7b\x7d"), (30, "asdfghjkl;'`", "ASDFGHJKL:\"~"),
    (43, "\\zxcvbnm,./", "|ZXCVBNM<>?"), (57, " ", " "), (55, "*", "*"), (74, "-", "-"), (78, "+", "+")]

/-- The character at a position. Caps Lock concerns letters only, and the one key with a prefix is on the keypad. -/
def position (shift locked extended : Bool) (c : ℕ) : Option Char :=
  if extended then if c = 53 then some '/' else none
  else printable.findSome? fun r => if r.1 ≤ c then
    (r.2.1.toList.zip r.2.2.toList)[c - r.1]?.map fun p => if shift ^^ (locked && p.1.isLower) then p.2 else p.1
  else none

/-- The decoder as it should be, but for the prefix: Shift, Ctrl and Alt are set while one of their keys is held. -/
def expected (held : Bool × ℕ → Bool) (locked extended : Bool) : Decoder where
  shift := held (false, 42) || held (false, 54)
  ctrl := held (false, 29) || held (true, 29)
  alt := held (false, 56) || held (true, 56)
  caps := locked
  extended := extended
  ready := true

/-- The decoder reflects the keys. -/
def Reflects (t : Typing) : Prop := t.keyboard = expected t.held t.locked t.pending

/-- An event goes as it should: the decoder then reflects the keys, its answer is due to no prefix but that of the
event, and a printable key gives the character of its position under Shift and Caps Lock. -/
structure Faithful (t : Typing) (e : Event) : Prop where
  reflects : Reflects (t.step e)
  alone : t.answer e = (keyboardPoll { t.keyboard with extended := e.extended } (some (scan e.code e.released))).2
  types : ∀ ch, e.released = false → position (t.held (false, 42) || t.held (false, 54)) t.locked e.extended e.code = some ch →
    t.answer e = UInt8.ofNat ch.toNat

/-- When the flags are right behind an event: none of two keys is released while the other one is held, and no code of
Shift or Caps Lock comes with a prefix, but one of Shift that says what is the case. -/
def FlagsFine (t : Typing) (e : Event) : Prop :=
  if e.extended then (e.code = 42 ∨ e.code = 54 → (t.held (false, 42) || t.held (false, 54)) = !e.released) ∧
    (e.code = 58 → e.released = true) ∧
    (e.released = true → (e.code = 29 → t.held (false, 29) = false) ∧ (e.code = 56 → t.held (false, 56) = false))
  else e.released = true → (e.code = 42 → t.held (false, 54) = false) ∧ (e.code = 54 → t.held (false, 42) = false) ∧
    (e.code = 29 → t.held (true, 29) = false) ∧ (e.code = 56 → t.held (true, 56) = false)

/-- When a key that is pressed gives its character: it is none of the four of the keypad, Alt is not held, nor Ctrl
with a small letter, and a prefix that has been left over makes no difference to the key. -/
def KeyFine (k : Decoder) (e : Event) : Prop :=
  if e.extended then e.code ≠ 53
  else e.code ∉ [55, 74, 78] ∧ (∀ ch, position k.shift k.caps false e.code = some ch →
      k.alt = false ∧ (ch.isLower = true → k.ctrl = false)) ∧
    (k.extended = true → (navigation.lookup e.code).getD 0 = character k e.code)

/-- When an event goes as it should. -/
def Fine (t : Typing) (e : Event) : Prop :=
  FlagsFine t e ∧ (e.early = false → e.released = false → KeyFine (expected t.held t.locked t.pending) e)

/-- A code is told from the prefix, and says which key it is and whether the key was released. -/
theorem scan_spec : ∀ c < 96, ∀ released, scan c released ≠ 0xe0 ∧
    decide (scan c released &&& 0x80 ≠ 0) = released ∧ (scan c released &&& 0x7f).toNat = c := by
  decide +kernel

/-- What a code does to the variables. -/
theorem keyboardPoll_scan {k : Decoder} (hready : k.ready = true) {c : ℕ} (hc : c < 96) (released : Bool) :
    (keyboardPoll k (some (scan c released))).1 =
      if c = 42 ∨ c = 54 then { k with shift := !released }
      else if c = 29 then { k with ctrl := !released }
      else if c = 56 then { k with alt := !released }
      else if c = 58 ∧ ¬released then { k with caps := !k.caps }
      else { k with extended := false } := by
  obtain ⟨hne, hreleased, hcode⟩ := scan_spec c hc released
  simp only [keyboardPoll, hne, hreleased, hcode, hready, not_true_eq_false, if_false]
  split_ifs with h1 h2 h3 h4 h5 h6
  all_goals try rfl
  -- an ordinary key without the prefix changes nothing
  rw [Bool.not_eq_true] at h6
  rw [← h6, ← hready]

/-- **An event** leaves the flags in order exactly under its condition, and the prefix is always known. -/
theorem Reflects.step {t : Typing} (h : Reflects t) (e : Event) : Reflects (t.step e) ↔ FlagsFine t e := by
  obtain ⟨ext, c, released, hc⟩ := e
  have hpoll : (t.step ⟨ext, c, released, hc⟩).keyboard =
      (keyboardPoll (expected t.held t.locked (t.pending || ext)) (some (scan c released))).1 := by
    rw [Typing.step, Typing.prefixed, show t.keyboard = _ from h]
    cases ext
    · rw [Bool.or_false]
      rfl
    · rw [Bool.or_true]
      rfl
  rw [Reflects, hpoll, keyboardPoll_scan rfl hc]
  split_ifs with h1 h2 h3 h4
  · rcases h1 with rfl | rfl
    all_goals cases ext <;> cases released <;> simp [expected, Typing.step, FlagsFine, Event.early]
  · cases ext <;> cases released <;> simp [expected, Typing.step, FlagsFine, Event.early, h2]
  · cases ext <;> cases released <;> simp [expected, Typing.step, FlagsFine, Event.early, h3]
  · cases ext <;> simp [expected, Typing.step, FlagsFine, Event.early, h4]
  · -- any other code changes none of the variables but the prefix
    rw [not_or] at h1
    have hcaps : (decide (c = 58) && !released) = false := by simpa using h4
    cases ext with
    | false =>
      simp [expected, Typing.step, FlagsFine, Event.early, h1, h2, h3, hcaps, Ne.symm h1.1, Ne.symm h1.2, Ne.symm h2,
        Ne.symm h3]
      exact fun hc hr => absurd ⟨hc, by simp [hr]⟩ h4
    | true => simp [expected, Typing.step, FlagsFine, Event.early, h1, h2, h3, Ne.symm h2, Ne.symm h3]

theorem keyboardPoll_scan_snd {k : Decoder} (hready : k.ready = true) (e : Event) :
    (keyboardPoll k (some (scan e.code e.released))).2 =
      if e.early = true ∨ e.released = true then 0
      else if k.extended = true then (navigation.lookup e.code).getD 0 else character k e.code := by
  obtain ⟨hne, hreleased, hcode⟩ := scan_spec e.code e.lt e.released
  simp only [keyboardPoll, hne, hreleased, hcode, hready, not_true_eq_false, if_false]
  have hearly : e.early = true ↔ e.code = 42 ∨ e.code = 54 ∨ e.code = 29 ∨ e.code = 56 ∨ e.code = 58 ∧ e.released = false := by
    simp [Event.early, or_assoc]
  by_cases h : e.early = true ∨ e.released = true
  · rw [if_pos h]
    rw [hearly] at h
    split_ifs with h1 h2 h3 h4 h5 h6
    all_goals try rfl
    all_goals exact absurd h (by simp_all)
  · rw [if_neg h]
    rw [hearly] at h
    have hnot : e.code ≠ 42 ∧ e.code ≠ 54 ∧ e.code ≠ 29 ∧ e.code ≠ 56 ∧ e.code ≠ 58 ∧ e.released = false := by
      simp only [not_or, not_and, Bool.not_eq_false, Bool.not_eq_true] at h
      obtain ⟨⟨h1, h2, h3, h4, h5⟩, h6⟩ := h
      refine ⟨h1, h2, h3, h4, fun h58 => ?_, h6⟩
      rw [h5 h58] at h6
      cases h6
    simp only [hnot, or_self, false_and, if_false, Bool.false_eq_true]
    split_ifs <;> rfl

/-- **The characters of the keys without a prefix**, whatever Shift, Ctrl, Alt and Caps Lock are: the table is gone
through. -/
theorem character_eq_iff (k : Decoder) {c : ℕ} (hc : c < 96) :
    (∀ ch, position k.shift k.caps false c = some ch → character k c = UInt8.ofNat ch.toNat) ↔
      c ∉ [55, 74, 78] ∧ ∀ ch, position k.shift k.caps false c = some ch →
        k.alt = false ∧ (ch.isLower = true → k.ctrl = false) := by
  have hall : ∀ shift ctrl alt caps, (range 96).all (fun c =>
      ((position shift caps false c).all fun ch =>
        character ⟨shift, ctrl, alt, caps, false, true⟩ c = UInt8.ofNat ch.toNat) ==
      (!([55, 74, 78].contains c) && (position shift caps false c).all fun ch => !alt && (!ch.isLower || !ctrl))) := by
    decide +kernel
  have hrow := all_eq_true.mp (hall k.shift k.ctrl k.alt k.caps) c (mem_range.mpr hc)
  rw [beq_iff_eq, Bool.eq_iff_iff] at hrow
  rw [show character k c = character ⟨k.shift, k.ctrl, k.alt, k.caps, false, true⟩ c from rfl]
  generalize character ⟨k.shift, k.ctrl, k.alt, k.caps, false, true⟩ c = x at hrow ⊢
  generalize position k.shift k.caps false c = pos at hrow ⊢
  cases pos with
  | none => simpa using hrow
  | some ch =>
    simp only [Option.some.injEq, forall_eq']
    rw [imp_iff_not_or, Bool.not_eq_true]
    simpa using hrow

/-- **One event.** -/
theorem Reflects.event_iff {t : Typing} (h : Reflects t) (e : Event) : Faithful t e ↔ Fine t e := by
  have hprefixed : t.prefixed e = expected t.held t.locked (t.pending || e.extended) := by
    rw [Typing.prefixed, show t.keyboard = _ from h]
    cases e.extended
    · rw [Bool.or_false]
      rfl
    · rw [Bool.or_true]
      rfl
  have hanswer := (congrArg (fun k => (keyboardPoll k (some (scan e.code e.released))).2) hprefixed).trans
    (keyboardPoll_scan_snd rfl e)
  change t.answer e = _ at hanswer
  have halone := keyboardPoll_scan_snd (k := expected t.held t.locked e.extended) rfl e
  have hrest : (t.answer e = (keyboardPoll { t.keyboard with extended := e.extended } (some (scan e.code e.released))).2 ∧
      ∀ ch, e.released = false → position (t.held (false, 42) || t.held (false, 54)) t.locked e.extended e.code = some ch →
        t.answer e = UInt8.ofNat ch.toNat) ↔
      (e.early = false → e.released = false → KeyFine (expected t.held t.locked t.pending) e) := by
    have hk : { t.keyboard with extended := e.extended } = expected t.held t.locked e.extended := by
      rw [show t.keyboard = _ from h]
      rfl
    rw [hk, halone, hanswer]
    by_cases hzero : e.early = true ∨ e.released = true
    · -- the code has no character, and the key is not printable
      rw [if_pos hzero, if_pos hzero]
      refine iff_of_true ⟨rfl, fun ch hpressed hch => ?_⟩ fun hearly hpressed => ?_
      · have hearly := hzero.resolve_right (by rw [hpressed]; decide)
        have hnone : ∀ shift locked extended, ∀ c ∈ [42, 54, 29, 56, 58], position shift locked extended c = none := by
          decide +kernel
        have hcode : e.code ∈ [42, 54, 29, 56, 58] := by
          simp only [Event.early, Bool.or_eq_true, Bool.and_eq_true, beq_iff_eq, decide_eq_true_eq, mem_cons,
            not_mem_nil, or_false] at hearly ⊢
          tauto
        rw [hnone _ _ _ _ hcode] at hch
        cases hch
      · rcases hzero with hno | hno
        · rw [hearly] at hno
          cases hno
        · rw [hpressed] at hno
          cases hno
    · rw [if_neg hzero, if_neg hzero]
      obtain ⟨hearly, hpressed⟩ := not_or.mp hzero
      rw [Bool.not_eq_true] at hearly hpressed
      simp only [hearly, hpressed, forall_const]
      rw [KeyFine]
      have hchar := character_eq_iff (expected t.held t.locked t.pending) e.lt
      generalize hx : character (expected t.held t.locked t.pending) e.code = x at hchar
      have hx' : ∀ p, character (expected t.held t.locked p) e.code = x := fun _ => hx
      rw [hx', hx']
      cases e.extended with
      | true =>
        simp only [expected, position, if_true, Bool.or_true, true_and]
        by_cases hslash : e.code = 53
        · simp [hslash, show navigation.lookup 53 = none by decide]
        · simp [hslash]
      | false =>
        rw [Bool.or_false]
        simp only [expected, if_false, Bool.false_eq_true] at hchar ⊢
        cases t.pending with
        | false =>
          simp only [if_false, Bool.false_eq_true, true_and, false_implies, and_true]
          exact hchar
        | true =>
          simp only [if_true, forall_const]
          rw [← and_assoc, and_comm]
          refine and_congr_left fun hsame => ?_
          rw [hsame]
          exact hchar
  refine ⟨fun hf => ⟨(h.step e).mp hf.reflects, hrest.mp ⟨hf.alone, hf.types⟩⟩, fun hfine => ?_⟩
  obtain ⟨halone, htypes⟩ := hrest.mpr hfine.2
  exact ⟨(h.step e).mpr hfine.1, halone, htypes⟩

/-- **The decoder follows the keys** exactly as long as every event is fine: whatever keys are pressed and released,
in whatever order. -/
theorem faithful_iff (events : List Event) :
    Runs.Throughout (fun before e => Faithful (before.foldl Typing.step .initial) e) events ↔
      Runs.Throughout (fun before e => Fine (before.foldl Typing.step .initial) e) events := by
  suffices h : _ ∧ (Runs.Throughout (fun before e => Faithful (before.foldl Typing.step .initial) e) events →
      Reflects (events.foldl Typing.step .initial)) from h.1
  induction events using List.reverseRecOn with
  | nil => exact ⟨iff_of_true (Runs.throughout_nil _) (Runs.throughout_nil _), fun _ => rfl⟩
  | append_singleton events e ih =>
    rw [Runs.throughout_concat, Runs.throughout_concat, foldl_append]
    refine ⟨⟨?_, ?_⟩, fun hall => hall.2.reflects⟩
    · rintro ⟨hall, he⟩
      exact ⟨ih.1.mp hall, ((ih.2 hall).event_iff e).mp he⟩
    · rintro ⟨hall, he⟩
      have hbefore := ih.1.mpr hall
      exact ⟨hbefore, ((ih.2 hbefore).event_iff e).mpr he⟩

/-- Both Shift keys are pressed and the left one is released: Shift is off although the right one is held. -/
theorem right_shift_lost :
    let t := [⟨false, 42, false, by decide⟩, ⟨false, 54, false, by decide⟩].foldl Typing.step .initial
    let t' := t.step ⟨false, 42, true, by decide⟩
    t'.held (false, 54) = true ∧ t'.keyboard.shift = false ∧ ¬Faithful t ⟨false, 42, true, by decide⟩ := by
  intro t t'
  refine ⟨by decide +kernel, by decide +kernel, fun h => ?_⟩
  have hshift := congrArg Decoder.shift h.reflects
  revert hshift
  decide +kernel

end OS64.Keyboard
