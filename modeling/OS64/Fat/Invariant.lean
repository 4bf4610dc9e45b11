import OS64.Fat.Layout
import OS64.Fat.Volume

/-!
# The invariant of the volume

The state of the driver, read as a volume (`OS64.Fat.State.volume`), is sound;
every cluster below the hint is used, and the count is the number of free
clusters (`OS64.Fat.Inv`). The rest of the module is about names: what is found under
them in a volume (`OS64.Fat.Volume.lookup`), and where a list of names leads
(`OS64.Fat.Volume.walk`).
-/

namespace OS64.Fat

open List

/-- The volume of a state. -/
def State.volume (s : State) : Volume := ⟨s.fat, fun d => entry (s.sector d)⟩

theorem volume_dir (s : State) (d : ℕ) : s.volume.dir d = entry (s.sector d) := rfl

theorem volume_fat (s : State) : s.volume.fat = s.fat := rfl

/-- The invariant: `D` holds the directories. -/
structure Inv (s : State) (D : Set ℕ) : Prop where
  layout : Layout s
  sound : Sound s.volume D
  next_ge : 3 ≤ s.nextCluster
  next_le : s.nextCluster ≤ 127008
  hint : ∀ c, 2 ≤ c → c < s.nextCluster → s.fat c ≠ 0
  count : s.freeClusters = freeCount s.fat

variable {s : State} {D : Set ℕ}

theorem Inv.counted (h : Inv s D) : Counted s.fat s.nextCluster s.freeClusters := ⟨h.hint, h.count⟩

/-! ### Looking up -/

/-- The entry called `k` in directory `d`. -/
def Volume.lookup (V : Volume) (d : ℕ) (k : List UInt8) : Option Entry :=
  Slots.lookup Entry.name 16 (V.dir d) k

/-- The directory called `k` in directory `d`. -/
def Volume.child (V : Volume) (d : ℕ) (k : List UInt8) : Option ℕ :=
  match V.lookup d k with
  | some e => if e.isDir then some e.cluster else none
  | none => none

variable {V : Volume} {d : ℕ} {k : List UInt8} {e : Entry} {n : Path}

theorem Volume.child_of_file (hl : V.lookup d k = some e) (hdir : e.isDir = false) : V.child d k = none := by
  rw [Volume.child, hl]
  simp [hdir]

theorem Volume.child_of_none (hl : V.lookup d k = none) : V.child d k = none := by
  rw [Volume.child, hl]

/-- The directory reached from `d` by the names `ks`. -/
def Volume.walk (V : Volume) : ℕ → List (List UInt8) → Option ℕ
  | d, [] => some d
  | d, k :: ks => match V.child d k with
    | none => none
    | some d => V.walk d ks

/-- The names of the directories on a path. -/
def directories (path : Path) : List (List UInt8) :=
  (directoriesOf path).map fun component => name83 (component.take 12)

/-- An entry found by a name that a path can spell is no `.` or `..`. -/
theorem Volume.holds_of_lookup (hd : d ∈ D)
    (h : V.lookup d (name83 n) = some e) : ∃ i, V.Holds D d i e ∧ e.name = name83 n := by
  obtain ⟨i, hi, he, hname⟩ := Slots.exists_of_lookup h
  exact ⟨i, ⟨hd, hi, he, Entry.not_isDots hname⟩, hname⟩

/-- A directory entry leads to a directory. -/
theorem Sound.child_mem (hs : Sound V D) {d d' : ℕ} (hd : d ∈ D) (h : V.child d (name83 n) = some d') : d' ∈ D := by
  rw [Volume.child] at h
  split at h
  · rename_i e he
    obtain ⟨i, hholds, -⟩ := V.holds_of_lookup hd he
    split at h
    · rename_i hdir
      cases h
      by_cases h0 : e.cluster = 0
      · exact absurd hdir (by rw [(hs.empty d i e hholds h0).1]; decide)
      · exact (hs.heads d i e hholds h0).2.2.2.mpr hdir
    · simp at h
  · simp at h

/-- The parts of a split list are made of its elements. -/
theorem subset_of_mem_splitOn {α : Type*} [BEq α] [LawfulBEq α] (a : α) :
    ∀ (xs : List α) {l : List α}, l ∈ xs.splitOn a → l ⊆ xs
  | [], l, hl => by
    rw [splitOn_nil, mem_singleton] at hl
    rw [hl]
    exact List.Subset.refl _
  | x :: xs, l, hl => by
    have ih := fun {l} => subset_of_mem_splitOn a xs (l := l)
    rw [splitOn_cons_eq_if_modifyHead] at hl
    split at hl
    · rcases mem_cons.mp hl with rfl | hl
      · exact nil_subset _
      · exact fun y hy => mem_cons_of_mem x (ih hl hy)
    · rcases hparts : xs.splitOn a with _ | ⟨p, ps⟩
      · exact absurd hparts (splitOn_ne_nil a xs)
      · rw [hparts] at hl ih
        rcases mem_cons.mp hl with rfl | hl
        · exact cons_subset_cons x (ih mem_cons_self)
        · exact fun y hy => mem_cons_of_mem x (ih (mem_cons_of_mem p hl) hy)

/-- The last component is a part of the path. -/
theorem leafOf_subset (path : Path) : leafOf path ⊆ path := by
  have hne := splitOn_ne_nil (47 : UInt8) (rel path)
  have hmem : leafOf path ∈ (rel path).splitOn 47 := by
    rw [leafOf, getLastD_eq_getLast?, List.getLast?_eq_some_getLast hne, Option.getD_some]
    exact getLast_mem hne
  exact fun x hx => rel_subset path (subset_of_mem_splitOn 47 _ hmem hx)

end OS64.Fat
