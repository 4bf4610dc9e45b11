import OS64.Fat.Files

/-!
# Subtrees of the volume

The directories of a sound volume are a forest (`OS64.Fat.Volume.HasDir`), so that what can be reached
through two different names in the root directory is separate
(`OS64.Fat.Sound.subtrees_disjoint`), and whatever happens below one of them leaves the
files below the other as they are. For `disk_store` this was said of names
(`OS64.Fat.Touches.contents`). `disk_remove` may take a directory away, and is the
subject here (`OS64.Fat.Removed.contents`).
-/

namespace OS64.Fat

open Relation Option

variable {e : Entry} {k : List UInt8} {p q : Path} {a b d i : ℕ}

variable {s s' : State} {D D' : Set ℕ} {g : Prop} {V : Volume}

/-! ### The forest of directories -/

/-- What a name leads to. -/
theorem hasDir_of_child (ha : a ∈ D) (h : V.child a (name83 q) = some b) :
    ∃ i e, V.Holds D a i e ∧ e.isDir = true ∧ e.cluster = b ∧ e.name = name83 q := by
  rw [Volume.child] at h
  split at h
  · rename_i e he
    obtain ⟨i, hholds, hname⟩ := V.holds_of_lookup ha he
    split at h
    · rename_i hdir
      exact ⟨i, e, hholds, hdir, some.inj h, hname⟩
    · simp at h
  · simp at h

/-- A path leads down. -/
theorem Sound.reaches_of_walk (hs : Sound V D) : ∀ (cs : List Path) {a b : ℕ}, a ∈ D →
    V.walk a (cs.map fun component => name83 (component.take 12)) = some b →
    ReflTransGen (V.HasDir D) a b
  | [], a, b, _, hwalk => by
    obtain rfl := some.inj hwalk
    exact .refl
  | component :: cs, a, b, ha, hwalk => by
    rw [List.map_cons, Volume.walk] at hwalk
    rcases hchild : V.child a (name83 (component.take 12)) with _ | c
    · rw [hchild] at hwalk
      simp at hwalk
    · rw [hchild] at hwalk
      obtain ⟨i, e, he, hdir, hcluster, -⟩ := hasDir_of_child ha hchild
      exact .head ⟨i, e, he, hdir, hcluster⟩ (hs.reaches_of_walk cs (hs.child_mem ha hchild) hwalk)

/-! ### Below the root -/

/-- The path begins with the directory `component`. -/
def Begins (component p : Path) : Prop := ∃ cs, directoriesOf p = component :: cs

/-- The walk along a path that begins with `component`. -/
theorem walk_of_begins {component : Path} (hp : Begins component p)
    (hwalk : V.walk 2 (directories p) = some d) :
    ∃ a cs, directoriesOf p = component :: cs ∧ V.child 2 (name83 (component.take 12)) = some a ∧
      V.walk a (cs.map fun component => name83 (component.take 12)) = some d := by
  obtain ⟨cs, hcs⟩ := hp
  rw [directories, hcs, List.map_cons, Volume.walk] at hwalk
  rcases hchild : V.child 2 (name83 (component.take 12)) with _ | a
  · rw [hchild] at hwalk
    simp at hwalk
  · rw [hchild] at hwalk
    exact ⟨a, cs, hcs, rfl, hwalk⟩

variable {q' : Path} {x y : ℕ}

/-- Different names in the root are different directories. -/
theorem Sound.child_ne (hs : Sound V D) (ha : V.child 2 (name83 q) = some a)
    (hb : V.child 2 (name83 q') = some b) (hne : name83 q ≠ name83 q') : a ≠ b := by
  obtain ⟨i, e, he, hdir, rfl, hname⟩ := hasDir_of_child hs.root ha
  obtain ⟨j, e', he', -, rfl, hname'⟩ := hasDir_of_child hs.root hb
  intro heq
  obtain ⟨-, rfl⟩ := hs.separate 2 i e 2 j e' he he' heq (hs.cluster_ne_zero he hdir)
  obtain ⟨-, -, hslot, -⟩ := he
  obtain ⟨-, -, hslot', -⟩ := he'
  rw [hslot] at hslot'
  rw [← hname, some.inj hslot', hname'] at hne
  exact hne rfl

/-- **Below two names of the root there is nothing in common**: no directory that one
path goes through, beginning with the one name, can be reached by the other. -/
theorem Sound.subtrees_disjoint (hs : Sound V D)
    (ha : V.child 2 (name83 q) = some a) (hb : V.child 2 (name83 q') = some b)
    (hne : name83 q ≠ name83 q') (hax : ReflTransGen (V.HasDir D) a x) :
    ¬ReflTransGen (V.HasDir D) b x := by
  obtain ⟨i, e, he, hdir, hcluster, -⟩ := hasDir_of_child hs.root ha
  obtain ⟨j, e', he', hdir', hcluster', -⟩ := hasDir_of_child hs.root hb
  exact Forest.disjoint_children hs.hasDir_leftUnique hs.not_hasDir_root ⟨i, e, he, hdir, hcluster⟩
    ⟨j, e', he', hdir', hcluster'⟩ (hs.child_ne ha hb hne) hax

/-- The root is below none of its names. -/
theorem Sound.ne_root (hs : Sound V D) (ha : V.child 2 (name83 q) = some a)
    (hax : ReflTransGen (V.HasDir D) a x) : x ≠ 2 := by
  rintro rfl
  obtain ⟨i, e, he, hdir, hcluster, -⟩ := hasDir_of_child hs.root ha
  rw [Forest.eq_root hs.not_hasDir_root hax] at hcluster
  exact hs.not_hasDir_root 2 ⟨i, e, he, hdir, hcluster⟩

theorem Safe.walk_of_target (h : Safe s D g)
    (ht : target s p = some (d, k)) : s.volume.walk 2 (directories p) = some d := by
  obtain ⟨-, -, hp⟩ := h.target_eq_some ht
  rw [h.parentDir_eq] at hp
  split at hp
  · simp at hp
  · obtain ⟨d', hwalk, heq⟩ := map_eq_some_iff.mp hp
    rw [(Prod.mk.inj heq).1] at hwalk
    exact hwalk

/-- **Paths that begin with different names** lead to different places. -/
theorem Inv.target_ne (h : Inv s D) {c c' p' : Path} (hp : Begins c p) (hp' : Begins c' p')
    (hne : name83 (c.take 12) ≠ name83 (c'.take 12))
    (ht : target s p = some (d, k)) : target s p' ≠ some (d, k) := by
  intro ht'
  obtain ⟨a, cs, -, ha, hwalk⟩ := walk_of_begins hp (h.safe.walk_of_target ht)
  obtain ⟨b, cs', -, hb, hwalk'⟩ := walk_of_begins hp' (h.safe.walk_of_target ht')
  exact h.sound.subtrees_disjoint ha hb hne
    (h.sound.reaches_of_walk cs (h.sound.child_mem h.sound.root ha) hwalk)
    (h.sound.reaches_of_walk cs' (h.sound.child_mem h.sound.root hb) hwalk')

/-! ### Removing -/

/-- A directory other than the one an entry is removed from is as before. -/
theorem Removed.dir_eq (hr : Removed s D s' d i e) (hy : y ≠ d) : s'.volume.dir y = s.volume.dir y := by
  rw [volume_dir, volume_dir, hr.sector, Function.update_of_ne hy]

theorem Volume.child_congr {V' : Volume} (h : V'.dir y = V.dir y) (k : List UInt8) : V'.child y k = V.child y k := by
  rw [Volume.child, Volume.child, Volume.lookup, Volume.lookup, h]

/-- A walk that does not come to the directory is as before. -/
theorem Removed.walk_eq (h : Inv s D) (hr : Removed s D s' d i e) :
    ∀ (cs : List Path) {a : ℕ}, a ∈ D → ¬ReflTransGen (s.volume.HasDir D) a d →
      s'.volume.walk a (cs.map fun component => name83 (component.take 12)) =
        s.volume.walk a (cs.map fun component => name83 (component.take 12))
  | [], a, _, _ => rfl
  | component :: cs, a, ha, had => by
    have hne : a ≠ d := by
      rintro rfl
      exact had .refl
    rw [List.map_cons, Volume.walk, Volume.walk, Volume.child_congr (hr.dir_eq hne)]
    rcases hchild : s.volume.child a (name83 (component.take 12)) with _ | b
    · rfl
    · obtain ⟨j, f, hf, hdir, hcluster, -⟩ := hasDir_of_child ha hchild
      exact Removed.walk_eq h hr cs (h.sound.child_mem ha hchild) fun hbd =>
        had (.head ⟨j, f, hf, hdir, hcluster⟩ hbd)

/-- **Removing something below one name of the root** leaves the files below the
others as they are. -/
theorem Removed.contents (h : Inv s D) (h' : Safe s' D' False)
    (hr : Removed s D s' d i e) {c c' x : Path} (hp : Begins c p) (hx : Begins c' x)
    (hne : name83 (c.take 12) ≠ name83 (c'.take 12))
    (ht : target s p = some (d, k)) : contents s' x = contents s x := by
  obtain ⟨a, cs, -, ha, hwalk⟩ := walk_of_begins hp (h.safe.walk_of_target ht)
  have had := h.sound.reaches_of_walk cs (h.sound.child_mem h.sound.root ha) hwalk
  have hd : d ∈ D := hr.holds.1
  have hroot : 2 ≠ d := (h.sound.ne_root ha had).symm
  -- the path to the file does not go through the directory
  have hapart : ∀ b, s.volume.child 2 (name83 (c'.take 12)) = some b → ¬ReflTransGen (s.volume.HasDir D) b d :=
    fun b hb hbd => h.sound.subtrees_disjoint ha hb hne had hbd
  have hwalk' : s'.volume.walk 2 (directories x) = s.volume.walk 2 (directories x) := by
    obtain ⟨cs', hcs'⟩ := hx
    rw [directories, hcs', List.map_cons, Volume.walk, Volume.walk, Volume.child_congr (hr.dir_eq hroot)]
    rcases hb : s.volume.child 2 (name83 (c'.take 12)) with _ | b
    · rfl
    · exact hr.walk_eq h cs' (h.sound.child_mem h.sound.root hb) (hapart b hb)
  have htarget : target s' x = target s x := by
    rw [target, target, h'.parentDir_eq, h.safe.parentDir_eq, hwalk']
  rw [h'.contents_eq, h.safe.contents_eq, hr.mounted, htarget]
  rcases ht' : target s x with _ | ⟨d', k'⟩
  · rfl
  obtain ⟨b, cs', -, hb, hwalkx⟩ := walk_of_begins hx (h.safe.walk_of_target ht')
  have hne' : d' ≠ d := by
    rintro rfl
    exact hapart b hb (h.sound.reaches_of_walk cs' (h.sound.child_mem h.sound.root hb) hwalkx)
  rw [bind_some, bind_some, Volume.lookup, Volume.lookup, hr.dir_eq hne', ← Volume.lookup]
  rcases hlookup : s.volume.lookup d' k' with _ | f
  · rfl
  rw [bind_some, bind_some]
  cases hdir : f.isDir with
  | true => rfl
  | false =>
    obtain ⟨hd', rfl, -⟩ := h.safe.target_eq_some ht'
    obtain ⟨j, hholds, -⟩ := Volume.holds_of_lookup hd' hlookup
    rw [h.file_bytes hd' hlookup h'.layout fun h0 => ?_]
    rw [hr.sector, Function.update_of_ne]
    rintro rfl
    exact h.sound.file_notMem hholds hdir h0 hd

/-- Two paths with the same keys name the same file. -/
theorem Safe.contents_congr (h : Safe s D g) (hdirs : directories p = directories q)
    (hleaf : leafOf p = leafOf q) : Fat.contents s p = Fat.contents s q := by
  have htarget : target s p = target s q := by
    rw [target, target, h.parentDir_eq, h.parentDir_eq, hdirs, hleaf]
  rw [h.contents_eq, h.contents_eq, htarget]

/-- A file that is there can be removed. -/
theorem Inv.diskRemove_of_contents (h : Inv s D) (hfile : Fat.contents s p ≠ none) :
    ∃ D', Safe (Fat.diskRemove s p).1 D' False ∧ Fat.contents (Fat.diskRemove s p).1 p = none := by
  obtain ⟨D', h', -⟩ := h.safe.diskRemove p
  refine ⟨D', h', ?_⟩
  rcases hres : Fat.diskRemove s p with ⟨t, ok⟩
  rw [hres] at h'
  rcases h.safe.diskRemove_removed hres with ⟨-, rfl⟩ | ⟨-, d, i, e, hp, hname, hr⟩
  · -- it would have been found
    rw [Fat.contents, diskLoad] at hfile
    rw [Fat.diskRemove] at hres
    split at hres
    · rename_i hm
      rw [if_pos hm] at hfile
      exact absurd rfl hfile
    rename_i hm
    rw [if_neg hm, Fat.findEntry] at hfile
    rcases hp : Fat.parentDir s p with _ | ⟨d, leaf⟩
    · rw [hp] at hfile
      exact absurd rfl hfile
    rw [hp] at hfile hres
    simp only at hfile hres
    split at hres
    · rename_i hnone
      rw [hnone] at hfile
      exact absurd rfl hfile
    · exact absurd (Prod.mk.inj hres).2 (by decide)
  · rw [Fat.contents, h'.diskLoad_eq_none (hr.noFile_self h hp hname)]
    rfl

end OS64.Fat
