import OS64.Vfs.Aliases
import OS64.Lib.Slots
import Mathlib.Data.Set.Card

/-!
# Temporary files as a bounded map

The 32 entries of `tmpfs.c` are meant to be a map from paths to files. `IsMap` says
of a state and a map that they are the same thing to every caller: what loads,
what is listed, and that no path has two entries. The map is not computed from the
table; it is the history, that is, what the calls that succeeded were to do
(`TmpCall.apply`).

The search compares whole paths, and a new entry keeps the first 95 characters of
its path. A path of 96 characters can therefore be stored and is not found
afterwards. **The table is a map along a run exactly if no such path goes into
it** (`OS64.Vfs.tmpfs_map_iff`). The paths are those that the rest of the file
system sends to `tmpfs`, which begin with `/tmp/` and can be of any length.
-/

namespace OS64.Vfs

open List Function
open Option (map_some map_eq_some_iff map_eq_none_iff)
open Slots (ofList ofList_eq_some lookup_eq_none find_eq_none)

variable {p : Path} {s : State R} {i : ℕ}

section

variable {R : Type}

/-! ### The rest of `tmpfs.c` -/

theorem length_noNodes : (replicate 32 (none : Option Node)).length = 32 := length_replicate

/-- `tmpfs_init`. -/
def tmpfsInit (s : State R) : State R :=
  { s with nodes := replicate 32 none, nodes_length := length_noNodes }

/-- `tmpfs_stat`: size, mode, owner and group. -/
def tmpfsStat (s : State R) (p : Path) : Option (ℕ × UInt16 × UInt16 × UInt16) :=
  (tmpLookup s p).map fun node => (node.data.length, node.mode, node.uid, node.gid)

/-- The entry of a path gets other attributes. -/
def tmpfsChange (s : State R) (p : Path) (f : Node → Node) : State R × Bool :=
  match tmpFind s.nodes p with
  | some i =>
    match (s.nodes[i]?).join with
    | some node => (s.putNode i (some (f node)), true)
    | none => (s, false)
  | none => (s, false)

/-- `tmpfs_chmod`. -/
def tmpfsChmod (s : State R) (p : Path) (m : UInt16) : State R × Bool :=
  tmpfsChange s p fun node => { node with mode := m &&& 0o777 }

/-- `tmpfs_chown`. -/
def tmpfsChown (s : State R) (p : Path) (u g : UInt16) (su sg : Bool) : State R × Bool :=
  tmpfsChange s p fun node =>
    { node with uid := if su then u else node.uid, gid := if sg then g else node.gid }

/-- `tmpfs_at`: the path, as much of it as fits, and the size. -/
def tmpfsAt (s : State R) (w c : ℕ) : Option (Path × ℕ) :=
  ((s.nodes.filterMap id)[w]?).map fun node => (node.path.take (c - 1), node.data.length)

/-! ### Calls and what they are for -/

/-- A path that is sent to `tmpfs`. -/
abbrev TmpPath := { p : Path // starts p tmpPrefix = true }

/-- The calls that change something. -/
inductive TmpCall where
  | store (p : TmpPath) (d : List UInt8) (m u g : UInt16)
  | chmod (p : TmpPath) (m : UInt16)
  | chown (p : TmpPath) (u g : UInt16) (su sg : Bool)
  | remove (p : TmpPath)

/-- Making a call. -/
def TmpCall.exec (s : State R) : TmpCall → State R × Bool
  | .store p d m u g => tmpfsStore s p d m u g
  | .chmod p m => tmpfsChmod s p m
  | .chown p u g su sg => tmpfsChown s p u g su sg
  | .remove p => tmpfsRemove s p

/-- A file as it is meant: without its path. -/
structure TmpFile where
  data : List UInt8
  mode : UInt16
  uid : UInt16
  gid : UInt16

/-- What is meant to be stored. -/
abbrev TmpMap := Path → Option TmpFile

/-- The path of a call. -/
def TmpCall.path : TmpCall → Path
  | .store p _ _ _ _ => p
  | .chmod p _ => p
  | .chown p _ _ _ _ => p
  | .remove p => p

/-- What is to become of the file when a call succeeds. A file that exists keeps its
attributes when it is stored again. -/
def TmpCall.effect : TmpCall → Option TmpFile → Option TmpFile
  | .store _ d m u g, none => some ⟨d, m, u, g⟩
  | .store _ d _ _ _, some f => some { f with data := d }
  | .chmod _ m, x => x.map fun f => { f with mode := m &&& 0o777 }
  | .chown _ u g su sg, x =>
    x.map fun f => { f with uid := if su then u else f.uid, gid := if sg then g else f.gid }
  | .remove _, _ => none

/-- What a call that succeeds is to do. -/
def TmpCall.apply (M : TmpMap) (c : TmpCall) : TmpMap :=
  update M c.path (c.effect (M c.path))

/-- The table and what is meant to be in it, one call later. -/
def tmpStep (x : State R × TmpMap) (c : TmpCall) : State R × TmpMap :=
  ((c.exec x.1).1, if (c.exec x.1).2 then c.apply x.2 else x.2)

/-- The same after some calls, from the initialisation on. -/
def tmpRun (s : State R) (calls : List TmpCall) : State R × TmpMap :=
  calls.foldl tmpStep (tmpfsInit s, fun _ => none)

/-- **The table is the map**, for everyone who loads, asks or lists. -/
structure IsMap (s : State R) (M : TmpMap) : Prop where
  loads : ∀ p cap, tmpfsLoad s p cap =
    (M p).bind fun f => if f.data.length ≤ cap then some f.data else none
  stats : ∀ p, tmpfsStat s p = (M p).map fun f => (f.data.length, f.mode, f.uid, f.gid)
  once : ∀ (i j : ℕ) (node node' : Node), s.nodes[i]? = some (some node) → s.nodes[j]? = some (some node') →
    node.path = node'.path → i = j
  listed : ∀ p f, M p = some f → ∃! w, tmpfsAt s w 96 = some (p, f.data.length)
  only : ∀ w p n, tmpfsAt s w 96 = some (p, n) → ∃ f, M p = some f ∧ f.data.length = n

/-- A call that fails changes nothing, and a new file fails only for its size or
because there are 32 others. -/
structure Obeys (s : State R) (M : TmpMap) (c : TmpCall) : Prop where
  unchanged : (c.exec s).2 = false → (c.exec s).1 = s
  full : ∀ p d m u g, c = .store p d m u g → d.length ≤ 2048 → M p = none → (c.exec s).2 = false →
    {q | M q ≠ none}.ncard = 32

/-- The call puts no path of more than 95 characters into the table: it is another
one, too long for a file, or finds no free entry. -/
def TmpCall.Fits (s : State R) : TmpCall → Prop
  | .store p d _ _ _ => p.1.length ≤ 95 ∨ 2048 < d.length ∨ none ∉ s.nodes
  | _ => True

/-! ### One call -/

/-- The file of an entry. -/
def Node.file (node : Node) : TmpFile := ⟨node.data, node.mode, node.uid, node.gid⟩

theorem tmpFind_eq (nodes : List (Option Node)) (p : Path) :
    tmpFind nodes p = Slots.find Node.path nodes.length (ofList nodes) p := by
  refine Slots.findIdx?_eq_find fun x => ?_
  cases x with
  | none => rfl
  | some node => simp

theorem tmpLookup_eq (s : State R) (p : Path) :
    tmpLookup s p = Slots.lookup Node.path s.nodes.length (ofList s.nodes) p := by
  rw [tmpLookup, tmpFind_eq]
  rfl

/-- What a search has found. -/
theorem find_of_tmpFind (h : tmpFind s.nodes p = some i) :
    i < s.nodes.length ∧ ∃ node, ofList s.nodes i = some node ∧ node.path = p := by
  rw [tmpFind_eq] at h
  exact Slots.find_eq_some h

/-- The first free entry. -/
theorem free_of_findIdx? {nodes : List (Option Node)}
    (h : nodes.findIdx? Option.isNone = some i) : i < nodes.length ∧ ofList nodes i = none := by
  obtain ⟨hi, hnone, -⟩ := findIdx?_eq_some_iff_getElem.mp h
  exact ⟨hi, (Slots.ofList_of_lt hi).trans (Option.isNone_iff_eq_none.mp hnone)⟩

/-- One entry is changed by a call: the one of its path, or, by a store, a free one
when there is none. -/
inductive Changes (s : State R) (c : TmpCall) (i : ℕ) (x : Option Node) : Prop
  | found (node : Node) (hnode : Slots.ofList s.nodes i = some node) (hpath : node.path = c.path)
      (hx : ∀ node', x = some node' → node'.path = c.path)
  | free (hnone : Slots.ofList s.nodes i = none) (hfind : tmpFind s.nodes c.path = none)
      (hstore : ∃ p d m u g, c = .store p d m u g ∧ d.length ≤ 2048)
      (hx : ∀ node', x = some node' → node'.path = c.path.take 95)

/-- An entry that has been found gets another file. -/
theorem tmpfsChange_cases (s : State R) (p : Path) (f : Node → Node)
    (hf : ∀ node, (f node).path = node.path) :
    (tmpfsChange s p f = (s, false) ∧ tmpFind s.nodes p = none) ∨
    ∃ i node, i < s.nodes.length ∧ ofList s.nodes i = some node ∧ node.path = p ∧
      (f node).path = p ∧ tmpfsChange s p f = (s.putNode i (some (f node)), true) := by
  rw [tmpfsChange]
  cases hfind : tmpFind s.nodes p with
  | none => exact .inl ⟨rfl, rfl⟩
  | some i =>
    obtain ⟨hi, node, hnode, hpath⟩ := find_of_tmpFind hfind
    have hslot : (s.nodes[i]?).join = some node := hnode
    refine .inr ⟨i, node, hi, hnode, hpath, (hf node).trans hpath, ?_⟩
    simp only [hslot]

/-- What has become of a call: nothing, and it has failed, or one entry has
changed. -/
inductive Outcome (s : State R) (c : TmpCall) : Prop
  | failed (hexec : c.exec s = (s, false)) (hfull : ∀ p d m u g, c = .store p d m u g →
      d.length ≤ 2048 → tmpFind s.nodes p = none → none ∉ s.nodes)
  | changed (i : ℕ) (x : Option Node) (hi : i < s.nodes.length)
      (hexec : c.exec s = (s.putNode i x, true))
      (hfile : x.map Node.file = c.effect ((Slots.ofList s.nodes i).map Node.file))
      (hchanges : Changes s c i x)

/-- **What a call can do.** -/
theorem TmpCall.outcome (s : State R) (c : TmpCall) : Outcome s c := by
  -- an entry that exists and is changed in place
  have hfound : ∀ {p : Path} {f : Node → Node}, c.exec s = tmpfsChange s p f → c.path = p →
      (∀ node, (f node).path = node.path) →
      (∀ node : Node, some (f node).file = c.effect (some node.file)) →
      (∀ p d m u g, c ≠ .store p d m u g) → Outcome s c := by
    intro p f hexec hp hf hfile hother
    rcases tmpfsChange_cases s p f hf with ⟨hfail, -⟩ | ⟨i, node, hi, hnode, hpath, hpath', hok⟩
    · exact .failed (hexec.trans hfail) fun p d m u g heq => absurd heq (hother p d m u g)
    · refine .changed i (some (f node)) hi (hexec.trans hok) ?_ (.found node hnode (hpath.trans hp.symm) ?_)
      · rw [hnode]
        exact hfile node
      · rintro node' heq
        rw [← Option.some.inj heq, hpath', hp]
  cases c with
  | store p d m u g =>
    by_cases hlong : d.length ≤ 2048
    · cases hfind : tmpFind s.nodes p with
      | some i =>
        obtain ⟨hi, node, hnode, hpath⟩ := find_of_tmpFind hfind
        have hslot : (s.nodes[i]?).join = some node := hnode
        refine .changed i (some { node with data := d, data_fits := hlong }) hi ?_ ?_
          (.found node hnode hpath ?_)
        · simp only [exec, tmpfsStore, dif_pos hlong, hfind, hslot]
        · rw [hnode]
          rfl
        · rintro node' heq
          rw [← Option.some.inj heq]
          exact hpath
      | none =>
        cases hfree : s.nodes.findIdx? Option.isNone with
        | none =>
          refine .failed (by simp only [exec, tmpfsStore, dif_pos hlong, hfind, hfree]) ?_
          intro _ _ _ _ _ _ _ _ hmem
          have hno := findIdx?_eq_none_iff.mp hfree none hmem
          simp at hno
        | some i =>
          obtain ⟨hi, hnone⟩ := free_of_findIdx? hfree
          refine .changed i (some ⟨p.1.take 95, d, m, u, g, hlong⟩) hi ?_ ?_
            (.free hnone hfind ⟨p, d, m, u, g, rfl, hlong⟩ ?_)
          · simp only [exec, tmpfsStore, dif_pos hlong, hfind, hfree]
          · rw [hnone]
            rfl
          · rintro node' heq
            rw [← Option.some.inj heq]
            rfl
    · refine .failed (by simp only [exec, tmpfsStore, dif_neg hlong]) ?_
      rintro p' d' m' u' g' heq hle
      cases heq
      exact absurd hle hlong
  | chmod p m => exact hfound rfl rfl (fun _ => rfl) (fun _ => rfl) (by simp)
  | chown p u g su sg => exact hfound rfl rfl (fun _ => rfl) (fun _ => rfl) (by simp)
  | remove p =>
    cases hfind : tmpFind s.nodes p with
    | none =>
      refine .failed (by simp only [exec, tmpfsRemove, hfind]) ?_
      rintro _ _ _ _ _ heq
      cases heq
    | some i =>
      obtain ⟨hi, node, hnode, hpath⟩ := find_of_tmpFind hfind
      refine .changed i none hi (by simp only [exec, tmpfsRemove, hfind]) rfl (.found node hnode hpath ?_)
      rintro node' heq
      cases heq

/-! ### The table along a run -/

/-- No entry has a path of more than 95 characters. -/
def Short (s : State R) : Prop := ∀ i node, Slots.ofList s.nodes i = some node → node.path.length ≤ 95

/-- The paths of the entries are different, and looking for one gives the file that
is meant. -/
structure Tabled (s : State R) (M : TmpMap) : Prop where
  unique : Slots.Unique Node.path s.nodes.length (Slots.ofList s.nodes)
  agrees : ∀ p, M p = (tmpLookup s p).map Node.file

theorem ofList_putNode (s : State R) (hi : i < s.nodes.length) (x : Option Node) :
    ofList (s.putNode i x).nodes = update (ofList s.nodes) i x :=
  Slots.ofList_set hi x

theorem length_putNode (s : State R) (i : ℕ) (x : Option Node) : (s.putNode i x).nodes.length = s.nodes.length :=
  length_set

/-- **Paths are cut off** whatever is stored. -/
theorem Short.exec (h : Short s) (c : TmpCall) : Short (c.exec s).1 := by
  rcases c.outcome s with ⟨hexec, -⟩ | ⟨i, x, hi, hexec, -, hchanges⟩
  · rwa [hexec]
  · rw [hexec]
    intro j node hnode
    rw [ofList_putNode s hi, update_apply] at hnode
    split_ifs at hnode with hj
    · rcases hchanges with ⟨old, hold, hpath, hx⟩ | ⟨-, -, -, hx⟩
      · rw [hx node hnode, ← hpath]
        exact h i old hold
      · rw [hx node hnode, length_take]
        exact min_le_left _ _
    · exact h j node hnode

variable {M : TmpMap} {c : TmpCall}

/-- An entry that is free, or the only one of a path, is changed. -/
theorem Tabled.putNode (h : Tabled s M) (hi : i < s.nodes.length)
    {x : Option Node} (hslot : tmpLookup s p = ofList s.nodes i)
    (hold : ∀ a, ofList s.nodes i = some a → a.path = p)
    (hother : ∀ j < s.nodes.length, j ≠ i → ∀ b, ofList s.nodes j = some b → b.path ≠ p)
    (hx : ∀ a, x = some a → a.path = p) {f : Option TmpFile → Option TmpFile}
    (hf : x.map Node.file = f ((ofList s.nodes i).map Node.file)) :
    Tabled (s.putNode i x) (update M p (f (M p))) := by
  constructor
  · rw [length_putNode, ofList_putNode s hi]
    cases x with
    | none => exact h.unique.erase i
    | some a =>
      refine h.unique.insert fun j hj hji b hb => ?_
      rw [hx a rfl]
      exact hother j hj hji b hb
  · intro q
    rw [tmpLookup_eq, length_putNode, ofList_putNode s hi, update_apply]
    split_ifs with hq
    · rw [hq, Slots.lookup_update_self hi hother hx, h.agrees p, hslot, hf]
    · rw [h.agrees q, tmpLookup_eq, Slots.lookup_update]
      · exact fun a ha hk => hq (hk.symm.trans (hold a ha))
      · exact fun a ha hk => hq (hk.symm.trans (hx a ha))

theorem Tabled.tmpFind_none (h : Tabled s M) : tmpFind s.nodes p = none ↔ M p = none := by
  rw [h.agrees, map_eq_none_iff, tmpLookup_eq, lookup_eq_none, tmpFind_eq]

/-- **A call that fits does what it is to do.** -/
theorem Tabled.step (h : Tabled s M) (hfits : c.Fits s) : Tabled (tmpStep (s, M) c).1 (tmpStep (s, M) c).2 := by
  rcases c.outcome s with ⟨hexec, -⟩ | ⟨i, x, hi, hexec, hfile, hchanges⟩
  · simp only [tmpStep, hexec]
    exact h
  · simp only [tmpStep, hexec, if_true, TmpCall.apply]
    rcases hchanges with ⟨node, hnode, hpath, hx⟩ | ⟨hnone, hfind, ⟨p, d, m, u, g, rfl, hd⟩, hx⟩
    · refine h.putNode hi ?_ ?_ ?_ hx hfile
      · rw [tmpLookup_eq, ← hpath, hnode]
        exact h.unique.lookup_eq_some.mpr ⟨i, hi, hnode, rfl⟩
      · intro a ha
        rw [hnode] at ha
        rwa [← Option.some.inj ha]
      · intro j hj hji b hb hk
        exact hji (h.unique j hj i hi b node hb hnode (hk.trans hpath.symm))
    · -- the whole path is kept
      have hlength : p.1.length ≤ 95 := by
        rcases hfits with hle | hlt | hfull
        · exact hle
        · omega
        · rw [Slots.ofList_of_lt hi] at hnone
          exact absurd (hnone ▸ getElem_mem hi) hfull
      have hwhole : p.1.take 95 = p.1 := take_of_length_le hlength
      have hnew : Slots.find Node.path s.nodes.length (ofList s.nodes) p.1 = none := by
        rw [← tmpFind_eq]
        exact hfind
      refine h.putNode hi ?_ ?_ ?_ ?_ hfile
      · rw [tmpLookup_eq, hnone]
        exact lookup_eq_none.mpr hnew
      · intro a ha
        rw [hnone] at ha
        cases ha
      · exact fun j hj _ b hb => find_eq_none.mp hnew j hj b hb
      · exact fun a ha => (hx a ha).trans hwhole

/-- **A longer path is lost**: it is in the map and cannot be found. -/
theorem Short.not_tabled (h : Short s) (hfits : ¬c.Fits s) : ¬Tabled (tmpStep (s, M) c).1 (tmpStep (s, M) c).2 := by
  intro htab
  have hshort := h.exec c
  cases c with
  | store p d m u g =>
    simp only [TmpCall.Fits, not_or, not_le, not_lt, not_not] at hfits
    obtain ⟨hlong, hd, hfree⟩ := hfits
    have hnone : tmpFind s.nodes p.1 = none := by
      rw [tmpFind_eq, find_eq_none]
      rintro i - node hnode hpath
      have := h i node hnode
      rw [hpath] at this
      omega
    rcases (TmpCall.store p d m u g).outcome s with ⟨-, hfull⟩ | ⟨i, x, -, hexec, -, -⟩
    · exact hfull p d m u g rfl hd hnone hfree
    · have hagree := htab.agrees p.1
      simp only [tmpStep, hexec, if_true] at hagree hshort
      rw [TmpCall.apply, TmpCall.path, update_self] at hagree
      have hlookup : tmpLookup (s.putNode i x) p.1 = none := by
        rw [tmpLookup_eq, lookup_eq_none, find_eq_none]
        rintro j - node hnode hpath
        have := hshort j node hnode
        rw [hpath] at this
        omega
      rw [hlookup] at hagree
      cases hM : M p.1 with
      | none =>
        rw [hM] at hagree
        cases hagree
      | some f =>
        rw [hM] at hagree
        cases hagree
  | chmod p m => exact hfits trivial
  | chown p u g su sg => exact hfits trivial
  | remove p => exact hfits trivial

/-! ### What the callers see -/

/-- The paths of the entries, one after the other, are what is listed. -/
theorem Short.tmpfsAt (h : Short s) (w : ℕ) :
    tmpfsAt s w 96 = ((s.nodes.filterMap id)[w]?).map fun node => (node.path, node.data.length) := by
  rw [Vfs.tmpfsAt]
  cases hnode : (s.nodes.filterMap id)[w]? with
  | none => rfl
  | some node =>
    obtain ⟨i, -, hi⟩ := Slots.mem_filterMap_id.mp (mem_of_getElem? hnode)
    rw [map_some, map_some, take_of_length_le (h i node hi)]

theorem Tabled.isMap (h : Tabled s M) (hshort : Short s) : IsMap s M where
  loads p cap := by
    rw [h.agrees, tmpfsLoad]
    cases tmpLookup s p <;> rfl
  stats p := by
    rw [h.agrees, tmpfsStat, Option.map_map]
    rfl
  once i j node node' hi hj hpath := by
    have hlt := (List.getElem?_eq_some_iff.mp hi).1
    have hlt' := (List.getElem?_eq_some_iff.mp hj).1
    exact h.unique i hlt j hlt' node node' (ofList_eq_some.mpr hi) (ofList_eq_some.mpr hj) hpath
  listed p f hf := by
    rw [h.agrees, map_eq_some_iff] at hf
    obtain ⟨node, hnode, rfl⟩ := hf
    rw [tmpLookup_eq, h.unique.lookup_ofList] at hnode
    obtain ⟨hmem, rfl⟩ := hnode
    obtain ⟨w, hw⟩ := mem_iff_getElem?.mp hmem
    refine ⟨w, ?_, fun w' hw' => ?_⟩
    · simp only [hshort.tmpfsAt, hw, map_some]
      rfl
    · -- another index is another path
      simp only [hshort.tmpfsAt] at hw'
      obtain ⟨node', hnode', heq⟩ := map_eq_some_iff.mp hw'
      have hpaths := h.unique.nodup_keys
      refine ((getElem?_inj ?_ hpaths).mp ?_).symm
      · rw [length_map]
        exact (List.getElem?_eq_some_iff.mp hw).1
      · rw [getElem?_map, getElem?_map, hw, hnode', map_some, map_some, (Prod.mk.inj heq).1]
  only w p n hw := by
    rw [hshort.tmpfsAt] at hw
    obtain ⟨node, hnode, heq⟩ := map_eq_some_iff.mp hw
    cases heq
    refine ⟨node.file, ?_, rfl⟩
    rw [h.agrees, tmpLookup_eq, h.unique.lookup_ofList.mpr ⟨mem_of_getElem? hnode, rfl⟩, map_some]

theorem IsMap.tabled (h : IsMap s M) : Tabled s M where
  unique i _ j _ a b ha hb hpath := h.once i j a b (ofList_eq_some.mp ha) (ofList_eq_some.mp hb) hpath
  agrees p := by
    have hload := h.loads p 2048
    have hstat := h.stats p
    rw [tmpfsLoad] at hload
    rw [tmpfsStat] at hstat
    cases hnode : tmpLookup s p with
    | none =>
      rw [hnode] at hstat
      exact map_eq_none_iff.mp hstat.symm
    | some node =>
      rw [hnode, map_some] at hstat
      obtain ⟨f, hf, heq⟩ := map_eq_some_iff.mp hstat.symm
      simp only [hnode, hf, Option.bind_some, if_pos node.data_fits] at hload
      simp only [Prod.mk.injEq] at heq
      obtain ⟨hlen, hmode, huid, hgid⟩ := heq
      rw [if_pos (hlen ▸ node.data_fits)] at hload
      rw [hf, map_some, Node.file, Option.some.inj hload, ← hmode, ← huid, ← hgid]

/-- 32 entries in use are 32 paths. -/
theorem Tabled.ncard (h : Tabled s M) (hfull : none ∉ s.nodes) : {q | M q ≠ none}.ncard = 32 := by
  have hset : {q | M q ≠ none} = {q | q ∈ (s.nodes.filterMap id).map Node.path} := by
    ext q
    rw [Set.mem_ofPred_eq, Set.mem_ofPred_eq, h.agrees, ne_eq, map_eq_none_iff, ← ne_eq,
      Option.ne_none_iff_exists', mem_map]
    refine exists_congr fun node => ?_
    rw [tmpLookup_eq, h.unique.lookup_ofList]
  rw [hset, ← coe_toFinset, Set.ncard_coe_finset, toFinset_card_of_nodup h.unique.nodup_keys,
    length_map, Slots.length_filterMap_id hfull, s.nodes_length]

theorem Tabled.obeys (h : Tabled s M) (c : TmpCall) : Obeys s M c := by
  rcases c.outcome s with ⟨hexec, hfull⟩ | ⟨i, x, -, hexec, -, -⟩
  · refine ⟨fun _ => by rw [hexec], fun p d m u g hc hd hnone _ => ?_⟩
    exact h.ncard (hfull p d m u g hc hd (h.tmpFind_none.mpr hnone))
  · constructor
    · intro hfail
      rw [hexec] at hfail
      cases hfail
    · intro p d m u g _ _ _ hfail
      rw [hexec] at hfail
      cases hfail

theorem ofList_tmpfsInit (s : State R) (i : ℕ) : ofList (tmpfsInit s).nodes i = none := by
  rw [ofList, tmpfsInit, getElem?_replicate]
  split_ifs <;> rfl

theorem short_tmpRun (s : State R) (calls : List TmpCall) : Short (tmpRun s calls).1 := by
  refine Runs.foldl_invariant (I := fun x : State R × TmpMap => Short x.1) ?_ ?_
  · intro i node hnode
    rw [ofList_tmpfsInit] at hnode
    cases hnode
  · exact fun _ c _ _ h => h.exec c

theorem tabled_init (s : State R) : Tabled (tmpfsInit s) fun _ => none := by
  constructor
  · intro i _ j _ a b ha
    rw [ofList_tmpfsInit] at ha
    cases ha
  · intro p
    have hnone : tmpLookup (tmpfsInit s) p = none := by
      rw [tmpLookup_eq, lookup_eq_none, find_eq_none]
      intro i _ a ha
      rw [ofList_tmpfsInit] at ha
      cases ha
    rw [hnone, Option.map_none]

/-- **`tmpfs` is a bounded map as long as no path of more than 95 characters goes
into it**, and not after that: at every point of a run the table is the map, and
every call keeps to what a map of 32 files does. -/
theorem tmpfs_map_iff (s : State R) (calls : List TmpCall) :
    ((∀ before after, calls = before ++ after → IsMap (tmpRun s before).1 (tmpRun s before).2) ∧
      Runs.Throughout (fun before c => Obeys (tmpRun s before).1 (tmpRun s before).2 c) calls) ↔
    Runs.Throughout (fun before c => c.Fits (tmpRun s before).1) calls := by
  have hstep : ∀ x : State R × TmpMap, ∀ c ∈ calls, Tabled x.1 x.2 ∧ Short x.1 →
      ((Tabled (tmpStep x c).1 (tmpStep x c).2 ∧ Short (tmpStep x c).1) ↔ c.Fits x.1) := by
    rintro x c - ⟨htab, hshort⟩
    constructor
    · rintro ⟨htab', -⟩
      by_contra hfits
      exact hshort.not_tabled hfits htab'
    · exact fun hfits => ⟨htab.step hfits, hshort.exec c⟩
  have hstates : (∀ before after, calls = before ++ after →
      Tabled (tmpRun s before).1 (tmpRun s before).2 ∧ Short (tmpRun s before).1) ↔
      Runs.Throughout (fun before c => c.Fits (tmpRun s before).1) calls :=
    Runs.forall_states_iff (I := fun x : State R × TmpMap => Tabled x.1 x.2 ∧ Short x.1)
      (C := fun x (c : TmpCall) => c.Fits x.1) ⟨tabled_init s, short_tmpRun s []⟩ hstep
  constructor
  · rintro ⟨hmaps, -⟩
    exact hstates.mp fun before after hsplit => ⟨(hmaps before after hsplit).tabled, short_tmpRun s before⟩
  · intro hfits
    have hall := hstates.mpr hfits
    refine ⟨fun before after hsplit => ?_, fun before c after hsplit => ?_⟩
    · exact (hall before after hsplit).1.isMap (hall before after hsplit).2
    · exact (hall before (c :: after) hsplit).1.obeys c

end

/-- A path of 96 characters. -/
def longTmpPath : TmpPath := ⟨tmpPrefix ++ replicate 91 97, by decide⟩

/-- A path of 95 characters. -/
def shortTmpPath : TmpPath := ⟨tmpPrefix ++ replicate 90 97, by decide⟩

/-- A path of 95 characters is stored as a map stores it. -/
theorem map_of_shorter_path :
    IsMap (tmpRun aliceAlone [.store shortTmpPath [120] 0 0 0]).1
      (tmpRun aliceAlone [.store shortTmpPath [120] 0 0 0]).2 := by
  refine ((tmpfs_map_iff aliceAlone ([] ++ [_])).mpr ?_).1 [_] [] rfl
  exact Runs.throughout_concat.mpr ⟨Runs.throughout_nil _, .inl (by decide)⟩

/-- `alice` stores one byte under a path of 96 characters, which succeeds, and the
path does not load; stored once more, it takes a second entry of the same name. -/
theorem long_path_lost :
    (vfsWrite quietEnv (tmpfsInit aliceAlone) longTmpPath [120]).2 = .ok 1 ∧
    tmpfsLoad (vfsWrite quietEnv (tmpfsInit aliceAlone) longTmpPath [120]).1 longTmpPath 2048 = none ∧
    (tmpRun aliceAlone [.store longTmpPath [120] 0 0 0, .store longTmpPath [121] 0 0 0]).1.nodes.map
      (fun node => node.map Node.path) =
        some (longTmpPath.1.take 95) :: some (longTmpPath.1.take 95) :: replicate 30 none := by
  decide +kernel

end OS64.Vfs
