import OS64.Fat.Ops

/-!
# Making directories

What `disk_create` leaves when it has made a directory (`OS64.Fat.Made`): the new
entry is all that has changed in the old directories, and the new one has nothing
in it. Paths that led somewhere still lead there (`OS64.Fat.Made.walk`). A name
that begins with the byte of deleted entries is the exception: nothing is found
under it afterwards, and the cluster is lost.

`OS64.Fat.MakesDirectory` says when the call gets so far; otherwise it changes
nothing.
-/

namespace OS64.Fat

open Function

variable {s s' : State} {D : Set ℕ} {g : Prop} {d i c : ℕ} {n : Path}

/-- From `s` to `s'` the directory called `n` has been made in `d`, in the cluster
`c`. -/
structure Made (s : State) (D : Set ℕ) (s' : State) (d : ℕ) (n : Path) (c : ℕ) : Prop where
  notDir : c ∉ D
  free : s.fat c = 0
  used : s'.fat c ≠ 0
  inRange : InRange c
  absent : s.volume.lookup d (name83 n) = none
  lookup : ∀ d' ≠ c, ∀ q, (d', name83 q) ≠ (d, name83 n) →
    s'.volume.lookup d' (name83 q) = s.volume.lookup d' (name83 q)
  self : s'.volume.lookup d (name83 n) = created n 0x10 c
  empty : ∀ q, s'.volume.lookup c (name83 q) = none

theorem NewDirectory.made (hnew : NewDirectory s D n s' d i c g) (h : Safe s D g) (hn : 0 ∉ n) :
    Made s D s' d (leafOf n) c := by
  obtain ⟨s₁, dotdot, ha, hdotdot, hup⟩ := hnew.updates
  obtain ⟨hi, hslot⟩ := freeSlot_eq_some hnew.slot
  have hnone := hnew.absent
  rw [findSlot_eq] at hnone
  have hdc : c ≠ d := by
    rintro rfl
    exact ha.fresh.notDir (h.parentDir hnew.parent).1
  have hc32 := ha.inRange.lt_word
  have hname : ∀ e, created (leafOf n) 0x10 c = some e → e.name = name83 (leafOf n) := fun e he => by
    rw [created_eq_some he]
  have hdir : s'.volume.dir d = update (s.volume.dir d) i (created (leafOf n) 0x10 c) := by
    rw [volume_dir, hup.sector, update_self]
    exact entry_newEntry _ i 0x10 (fun h0 => hn (leafOf_subset n h0)) hc32
  refine ⟨ha.fresh.notDir, ha.free, ?_, ha.inRange, Slots.lookup_eq_none.mpr hnone, fun d' hd' q hq => ?_, ?_,
    fun q => ?_⟩
  · rw [hup.fat]
    exact ha.fresh.used
  · rw [Volume.lookup, Volume.lookup]
    by_cases hdd : d' = d
    · subst hdd
      have hne : name83 (leafOf n) ≠ name83 q := fun heq => hq (by rw [heq])
      rw [hdir]
      exact Slots.lookup_update (fun e he => absurd (hslot.symm.trans he) (by simp)) fun e he => hname e he ▸ hne
    · rw [volume_dir, hup.sector, update_of_ne hdd, update_of_ne hd', ha.sector, update_of_ne hd', volume_dir]
  · rw [Volume.lookup, hdir]
    exact Slots.lookup_update_self hi (fun j hj _ => Slots.find_eq_none.mp hnone j hj) hname
  · refine Slots.lookup_eq_none.mpr (Slots.find_eq_none.mpr fun j _ e he hname => ?_)
    rw [volume_dir, hup.sector, update_of_ne hdc, update_self] at he
    exact Entry.not_isDots hname ((dots_of_newDirectory hc32 hdotdot he).imp And.right And.right)

/-- A directory that was there is found as before. -/
theorem Made.child (hm : Made s D s' d n c) {a x : ℕ} (ha : a ∈ D) {q : Path}
    (hchild : s.volume.child a (name83 q) = some x) : s'.volume.child a (name83 q) = some x := by
  have hne : (a, name83 q) ≠ (d, name83 n) := by
    intro heq
    obtain ⟨rfl, hname⟩ := Prod.mk.inj heq
    rw [hname, Volume.child_of_none hm.absent] at hchild
    simp at hchild
  have hac : a ≠ c := by
    rintro rfl
    exact hm.notDir ha
  rwa [Volume.child, hm.lookup a hac q hne, ← Volume.child]

/-- **A path that led to a directory** leads there still. -/
theorem Made.walk (h : Safe s D g) (hm : Made s D s' d n c) : ∀ (cs : List Path) {a x : ℕ}, a ∈ D →
      s.volume.walk a (cs.map fun component => name83 (component.take 12)) = some x →
      s'.volume.walk a (cs.map fun component => name83 (component.take 12)) = some x
  | [], a, x, _, hwalk => hwalk
  | component :: cs, a, x, ha, hwalk => by
    rw [List.map_cons, Volume.walk] at hwalk ⊢
    rcases hchild : s.volume.child a (name83 (component.take 12)) with _ | y
    · rw [hchild] at hwalk
      simp at hwalk
    · rw [hchild] at hwalk
      rw [hm.child ha hchild]
      exact Made.walk h hm cs (h.child_mem ha hchild) hwalk

/-! ### The call -/

/-- `disk_create` gets so far as to make a directory: the path leads to a directory
with a slot left and nothing under the name, and there is a cluster. -/
def MakesDirectory (s : State) (n : Path) : Prop :=
  s.mounted = true ∧ ∃ d, parentDir s n = some (d, leafOf n) ∧
    findSlot (dirRead s d) (leafOf n) = none ∧ freeSlot (dirRead s d) ≠ none ∧ findFree s ≠ none

/-- **`disk_create` makes a directory**, if it gets so far. -/
theorem Safe.diskCreate_makes (h : Safe s D g) (hn : 0 ∉ n) {type : UInt8} (htype : type ≠ 0)
    (hmakes : MakesDirectory s n) : ∃ d c s', Fat.diskCreate s n type = (s', true) ∧
      Fat.parentDir s n = some (d, leafOf n) ∧ Made s D s' d (leafOf n) c := by
  rcases h.diskCreate_directory n htype with ⟨ok, hres, hfound⟩ | ⟨s', d, i, c, hres, hnew⟩
  · -- there would be an entry, or no cluster
    exfalso
    obtain ⟨hm, d, hp, hfind, hslot, hfree⟩ := hmakes
    obtain ⟨i, hi⟩ := Option.ne_none_iff_exists'.mp hslot
    obtain ⟨a, ha⟩ := Option.ne_none_iff_exists'.mp hfree
    obtain ⟨hle, -⟩ := findFree_eq_some ha
    have hge := h.next_ge
    rcases halloc : Fat.allocate s with ⟨t, c⟩
    obtain ⟨hc, -⟩ := allocate_spec h.layout (by omega) ha
    rw [halloc] at hc
    rw [Fat.diskCreate, if_neg (not_not.mpr hm), hp] at hres
    simp only [hfind, hi, if_neg htype, halloc, if_neg (show c ≠ 0 by omega)] at hres
    refine hfound (Prod.mk.inj hres).2.symm ?_
    rw [Fat.findEntry, hp]
    simp only [hfind]
  · exact ⟨d, c, s', hres, hnew.parent, hnew.made h hn⟩

/-- Otherwise it changes nothing. -/
theorem Safe.diskCreate_of_not (h : Safe s D g) {type : UInt8} (htype : type ≠ 0)
    (hmakes : ¬MakesDirectory s n) : (Fat.diskCreate s n type).1 = s := by
  rw [Fat.diskCreate]
  by_cases hm : s.mounted = true
  case neg => rw [if_pos hm]
  rw [if_neg (not_not.mpr hm)]
  rcases hp : Fat.parentDir s n with _ | ⟨d, leaf⟩
  · rfl
  obtain ⟨-, rfl, -⟩ := h.parentDir hp
  simp only
  rcases hfind : Fat.findSlot (Fat.dirRead s d) (leafOf n) with _ | i
  · rcases hslot : freeSlot (Fat.dirRead s d) with _ | i
    · rfl
    · have hfree : findFree s = none := by
        by_contra hne
        exact hmakes ⟨hm, d, hp, hfind, by rw [hslot]; simp, hne⟩
      simp only [if_neg htype, allocate_none hfree]
      rfl
  · rfl

/-- On a new volume there is room for a directory. -/
theorem makesDirectory_diskFormat (s : State) (hroot : directoriesOf n = []) (hleaf : leafOf n ≠ [])
    (hfind : findSlot newRoot (leafOf n) = none) : MakesDirectory (diskFormat s) n := by
  have hsafe := safe_diskFormat s
  have hread : dirRead (diskFormat s) 2 = newRoot := (hsafe.dirRead rfl).trans (diskFormat_root s)
  refine ⟨by rw [diskFormat_eq], 2, ?_, by rw [hread]; exact hfind, ?_, fun hnone => ?_⟩
  · rw [hsafe.parentDir_eq, if_neg hleaf, directories, hroot]
    rfl
  · rw [hread]
    decide +kernel
  · have hnext : (diskFormat s).nextCluster = 3 := by rw [diskFormat_eq]; rfl
    have hrange : InRange 3 := ⟨by decide, by decide⟩
    refine findFree_eq_none hnone (c := 3) hnext.le ?_ ?_
    · rw [hsafe.layout.maxCluster]
      decide
    · rw [hsafe.fatGet hrange, diskFormat_fat s hrange, if_neg (by decide)]

end OS64.Fat
