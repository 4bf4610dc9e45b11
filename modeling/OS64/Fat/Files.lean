import OS64.Fat.Directories
import OS64.Lib.Runs

/-!
# The files of the FAT32 volume

What `disk_load` returns, as a function of the paths (`OS64.Fat.contents`), and how
the other calls change it. Two paths name the same file if they lead to the same
directory and have the same 8.3 name there (`OS64.Fat.target`).

A successful `disk_store` changes the contents at its own name only. After a
successful `disk_remove` there is nothing to load until a call of `disk_store`, or
of `disk_create` for a file, for a path that leads to the same name: the two ways a
file comes into being. The other calls may make the path lead somewhere else, or
nowhere: a directory on it may be removed, or made again. But a new directory
has no files in it (`OS64.Fat.walk_of_step`).
-/

namespace OS64.Fat

open ByteMem Option

variable {e : Entry} {k : List UInt8} {n p : Path} {d i : ℕ}

variable {s s' : State} {D D' : Set ℕ} {g : Prop}

/-- The directory and the 8.3 name a path leads to. -/
def target (s : State) (n : Path) : Option (ℕ × List UInt8) :=
  (parentDir s n).map fun p => (p.1, name83 p.2)

/-- What `disk_load` returns: the size and the first `size` bytes. -/
def contents (s : State) (n : Path) : Option (ℕ × List UInt8) :=
  (diskLoad s n).map fun p => (p.1, bytes p.2 0 p.1)

/-! ### Loading -/

theorem Safe.target_eq_some (h : Safe s D g)
    (ht : target s n = some (d, k)) :
    d ∈ D ∧ k = name83 (leafOf n) ∧ Fat.parentDir s n = some (d, leafOf n) := by
  obtain ⟨⟨d', leaf⟩, hp, heq⟩ := map_eq_some_iff.mp ht
  cases heq
  obtain ⟨hd, rfl, -⟩ := h.parentDir hp
  exact ⟨hd, rfl, hp⟩

/-- The entry `disk_load` finds. -/
theorem Safe.findEntry_eq (h : Safe s D g) (n : Path) : Fat.findEntry s n = (target s n).bind fun t =>
    (Slots.find Entry.name 16 (s.volume.dir t.1) t.2).map fun i => (s.sector t.1, i) := by
  rw [Fat.findEntry, target]
  rcases hp : Fat.parentDir s n with _ | ⟨d, leaf⟩
  · rfl
  · obtain ⟨hd, -⟩ := h.parentDir hp
    simp only [h.findSlot_dirRead hd, map_some, bind_some]
    rw [h.dirRead hd]
    rcases Slots.find Entry.name 16 (s.volume.dir d) (name83 leaf) with _ | i
    · rfl
    · rfl

/-- **What `disk_load` returns**, in terms of the volume. -/
theorem Safe.contents_eq (h : Safe s D g) (n : Path) : contents s n =
    if s.mounted = true then (target s n).bind fun t => (s.volume.lookup t.1 t.2).bind fun e =>
      if e.isDir = true then none else some (e.size, bytes (Fat.dirRead s e.cluster) 0 e.size)
    else none := by
  rw [Fat.contents, diskLoad, h.findEntry_eq]
  by_cases hm : s.mounted = true
  case neg =>
    rw [if_pos hm, if_neg hm]
    rfl
  rw [if_neg (not_not.mpr hm), if_pos hm]
  rcases target s n with _ | ⟨d, k⟩
  · rfl
  rw [bind_some, bind_some, Volume.lookup, Slots.lookup]
  rcases hfind : Slots.find Entry.name 16 (s.volume.dir d) k with _ | i
  · rfl
  obtain ⟨-, e, he, -⟩ := Slots.find_eq_some hfind
  obtain ⟨-, hdir, hcluster, hsize⟩ := entry_eq_some he
  rw [bind_some, he, bind_some, map_some]
  simp only [hdir, hcluster, hsize]
  split
  · rfl
  · rfl

/-! ### Storing -/

theorem target_congr (h : parentDir s' n = parentDir s n) : target s' n = target s n := by
  rw [target, target, h]

/-- The bytes of a file are the same if its cluster is; without a cluster there are none. -/
theorem Inv.file_bytes (h : Inv s D) (hd : d ∈ D) {q : Path}
    (he : s.volume.lookup d (name83 q) = some e) (h' : Layout s')
    (hsame : e.cluster ≠ 0 → s'.sector e.cluster = s.sector e.cluster) :
    bytes (Fat.dirRead s' e.cluster) 0 e.size = bytes (Fat.dirRead s e.cluster) 0 e.size := by
  obtain ⟨i, hholds, -⟩ := Volume.holds_of_lookup hd he
  by_cases h0 : e.cluster = 0
  · rw [(h.sound.empty d i e hholds h0).2]
    rfl
  · obtain ⟨hrange, -⟩ := h.sound.heads d i e hholds h0
    rw [h'.toGeometry.dirRead hrange.1 hrange.2, h.layout.toGeometry.dirRead hrange.1 hrange.2, hsame h0]

/-- Changes at one name are not seen at another. -/
theorem Touches.contents (h : Inv s D) (h' : Safe s' D' False)
    (ht : Touches s s' D d k) {q : Path} (hq : target s q ≠ some (d, k)) : contents s' q = contents s q := by
  rw [h'.contents_eq, h.safe.contents_eq, ht.mounted, target_congr (ht.parentDir h.safe h' q)]
  rcases htarget : target s q with _ | ⟨d', k'⟩
  · rfl
  obtain ⟨hd', rfl, -⟩ := h.safe.target_eq_some htarget
  have hne : (d', name83 (leafOf q)) ≠ (d, k) := fun heq => hq (by rw [htarget, heq])
  rw [bind_some, bind_some, ht.lookup d' hd' _ hne]
  rcases hlookup : s.volume.lookup d' (name83 (leafOf q)) with _ | e
  · rfl
  rw [bind_some, bind_some]
  cases hdir : e.isDir with
  | true => rfl
  | false =>
    rw [h.file_bytes hd' hlookup h'.layout (ht.data d' hd' _ hne e hlookup hdir)]

theorem bytes_fileSector (data : ℕ → UInt8) (size : ℕ) :
    bytes (fileSector data size) 0 size = (List.range size).map data := by
  refine List.map_congr_left fun i hi => ?_
  rw [fileSector, zero_add, if_pos (List.mem_range.mp hi)]

/-- **A successful `disk_store`** is what `disk_load` then returns, and nothing
else changes. -/
theorem Inv.contents_diskStore (h : Inv s D) (hn : 0 ∉ n) {data : ℕ → UInt8} {size : ℕ}
    (hres : Fat.diskStore s n data size = (s', true)) :
    Fat.contents s' n = some (size, (List.range size).map data) ∧
      ∀ q, target s q ≠ target s n → Fat.contents s' q = Fat.contents s q := by
  obtain ⟨D', h', -⟩ := h.safe.diskStore hn data size
  rw [hres] at h'
  rcases h.safe.diskStore_touches hn hres with ⟨-, hfalse⟩ | ⟨d, hd, hp, htouches, hstored⟩
  · cases hfalse
  have htarget : target s n = some (d, name83 (leafOf n)) := by
    rw [target, hp, map_some]
  refine ⟨?_, fun q hq => htouches.contents h h' (htarget ▸ hq)⟩
  obtain ⟨-, e, hlookup, hdir, rfl, hdata⟩ := hstored rfl
  rw [h'.contents_eq, htouches.mounted, if_pos (mounted_of_diskStore hres),
    target_congr (htouches.parentDir h.safe h' n), htarget, bind_some, hlookup, bind_some,
    if_neg (by rw [hdir]; decide)]
  by_cases hsize : e.size = 0
  · rw [hsize]
    rfl
  · obtain ⟨hrange, hsector⟩ := hdata hsize
    rw [h'.layout.toGeometry.dirRead hrange.1 hrange.2, hsector, bytes_fileSector]

/-! ### Removing -/

/-- There is no file where the path leads to. -/
def NoFile (s : State) (p : Path) : Prop :=
  leafOf p ≠ [] → ∀ d, s.volume.walk 2 (directories p) = some d →
    ∀ e, s.volume.lookup d (name83 (leafOf p)) = some e → e.isDir = true

/-- Without a file there is nothing to load. -/
theorem Safe.diskLoad_eq_none (h : Safe s D g) (hp : NoFile s p) : diskLoad s p = none := by
  refine map_eq_none_iff.mp (?_ : Fat.contents s p = none)
  rw [h.contents_eq]
  split
  · rcases htarget : target s p with _ | ⟨d, k⟩
    · rfl
    obtain ⟨hd, rfl, hparent⟩ := h.target_eq_some htarget
    rw [h.parentDir_eq] at hparent
    split at hparent
    · simp at hparent
    · rename_i hleaf
      obtain ⟨d', hwalk, heq⟩ := map_eq_some_iff.mp hparent
      obtain ⟨rfl, -⟩ := Prod.mk.inj heq
      rw [bind_some]
      rcases hlookup : s.volume.lookup d' (name83 (leafOf p)) with _ | e
      · rfl
      · rw [bind_some, if_pos (hp hleaf d' hwalk e hlookup)]
  · rfl

/-- **How a path can change**: if no directory gets a subdirectory except new
ones, which have nothing in them, then a path leads where it led before, or to a
new directory, or nowhere. -/
theorem walk_of_step {V V' : Volume} {N : Set ℕ} (hs : Sound V D)
    (hchild : ∀ d ∈ D, d ∉ N → ∀ q x, V'.child d (name83 q) = some x → x ∈ N ∨ V.child d (name83 q) = some x)
    (hnew : ∀ d ∈ N, ∀ q, V'.lookup d (name83 q) = none) :
    ∀ (cs : List Path) {d x : ℕ}, d ∈ D →
      V'.walk d (cs.map fun component => name83 (component.take 12)) = some x →
      x ∈ N ∨ V.walk d (cs.map fun component => name83 (component.take 12)) = some x
  | [], d, x, _, hwalk => .inr hwalk
  | component :: cs, d, x, hd, hwalk => by
    rw [List.map_cons, Volume.walk] at hwalk ⊢
    rcases hsub : V'.child d (name83 (component.take 12)) with _ | y
    · rw [hsub] at hwalk
      simp at hwalk
    rw [hsub] at hwalk
    by_cases hdN : d ∈ N
    · rw [Volume.child_of_none (hnew d hdN _)] at hsub
      simp at hsub
    · rcases hchild d hd hdN _ y hsub with hy | hy
      · -- a new directory: the path ends here or leads nowhere
        cases cs with
        | nil => exact .inl (some.inj hwalk ▸ hy)
        | cons component' cs =>
          simp only [List.map_cons, Volume.walk, Volume.child_of_none (hnew y hy _)] at hwalk
          simp at hwalk
      · rw [hy]
        exact walk_of_step hs hchild hnew cs (hs.child_mem hd hy) hwalk

/-- A step that makes no file under the name leaves no file there. -/
theorem NoFile.of_step (hp : NoFile s p) {N : Set ℕ} (h : Inv s D)
    (hchild : ∀ d ∈ D, d ∉ N → ∀ q x, s'.volume.child d (name83 q) = some x →
      x ∈ N ∨ s.volume.child d (name83 q) = some x)
    (hnew : ∀ d ∈ N, ∀ q, s'.volume.lookup d (name83 q) = none)
    (hlookup : ∀ d ∈ D, leafOf p ≠ [] → s.volume.walk 2 (directories p) = some d → ∀ e,
      s'.volume.lookup d (name83 (leafOf p)) = some e →
        e.isDir = true ∨ s.volume.lookup d (name83 (leafOf p)) = some e) : NoFile s' p := by
  intro hleaf d hwalk e he
  rcases walk_of_step h.sound hchild hnew (directoriesOf p) h.sound.root hwalk with hN | hold
  · rw [hnew d hN] at he
    simp at he
  · rcases hlookup d (h.safe.walk_mem hold) hleaf hold e he with hdir | hsame
    · exact hdir
    · exact hp hleaf d hold e hsame

theorem Safe.target_of_walk (h : Safe s D g) (hleaf : leafOf p ≠ [])
    (hwalk : s.volume.walk 2 (directories p) = some d) :
    target s p = some (d, name83 (leafOf p)) := by
  rw [target, h.parentDir_eq, if_neg hleaf, hwalk]
  rfl

section

variable (h : Inv s D)
include h

/-- Changes at another name. -/
theorem Touches.noFile (ht : Touches s s' D d k)
    (hne : target s p ≠ some (d, k)) (hp : NoFile s p) : NoFile s' p := by
  refine hp.of_step (N := ∅) h (fun d' hd' _ q x hx => ?_) (fun d' hd' => absurd hd' (by simp))
    fun d' hd' hleaf hwalk e he => ?_
  · rw [ht.child_eq hd'] at hx
    exact .inr hx
  · rw [ht.lookup d' hd' _ fun heq => hne (by rw [h.safe.target_of_walk hleaf hwalk, heq])] at he
    exact .inr he

section

variable (hr : Removed s D s' d i e)
include hr

/-- What is found after a removal was there before. -/
theorem Removed.lookup {d' : ℕ} (hd' : d' ∈ D) {x : Entry} (hx : s'.volume.lookup d' k = some x) :
    s.volume.lookup d' k = some x ∧ (d' = d → k ≠ e.name) := by
  obtain ⟨hd, hi, he, -⟩ := hr.holds
  obtain ⟨j, hj, hdir, hname⟩ := Slots.exists_of_lookup hx
  rw [volume_dir, hr.sector, Function.update_apply] at hdir
  split at hdir
  · rename_i heq
    rw [entry_setDeleted, Function.update_apply] at hdir
    split at hdir
    · simp at hdir
    · rename_i hji
      refine ⟨(h.sound.unique d' hd').lookup_eq_some.mpr ⟨j, hj, heq ▸ hdir, hname⟩, ?_⟩
      rintro - rfl
      exact hji (h.sound.unique d hd j hj i hi x e hdir he hname)
  · rename_i hne
    refine ⟨(h.sound.unique d' hd').lookup_eq_some.mpr ⟨j, hj, hdir, hname⟩, ?_⟩
    exact fun heq => absurd heq hne

theorem Removed.child {d' x : ℕ} (hd' : d' ∈ D) (hx : s'.volume.child d' k = some x) :
    s.volume.child d' k = some x := by
  rw [Volume.child] at hx ⊢
  split at hx
  · rename_i f hf
    rw [(hr.lookup h hd' hf).1]
    exact hx
  · simp at hx

/-- Removing an entry, which may be a directory on the path. -/
theorem Removed.noFile (hp : NoFile s p) : NoFile s' p :=
  hp.of_step (N := ∅) h (fun _ hd' _ _ _ hx => .inr (hr.child h hd' hx))
    (fun _ hd' => absurd hd' (by simp)) fun _ hd' _ _ _ he' => .inr (hr.lookup h hd' he').1

/-- The entry removed is gone. -/
theorem Removed.noFile_self (hp : Fat.parentDir s p = some (d, leafOf p)) (hname : e.name = name83 (leafOf p)) :
    NoFile s' p := by
  intro hleaf x hwalk f hf
  rcases walk_of_step (N := ∅) h.sound (fun _ hd' _ _ _ hc => .inr (hr.child h hd' hc))
    (fun _ hd' => absurd hd' (by simp)) (directoriesOf p) h.sound.root hwalk with hN | hold
  · cases hN
  · have hx := h.safe.walk_mem hold
    rw [h.safe.parentDir_eq, if_neg hleaf, show s.volume.walk 2 (directories p) = some x from hold] at hp
    obtain ⟨hxd, -⟩ := Prod.mk.inj (some.inj hp)
    exact absurd hname.symm ((hr.lookup h hx hf).2 hxd)

end

/-- A new directory on the path, or in place of the file. -/
theorem Made.noFile {c : ℕ} (hm : Made s D s' d n c) (hp : NoFile s p) : NoFile s' p := by
  have hlookup : ∀ d', d' ≠ c → ∀ q e, s'.volume.lookup d' (name83 q) = some e →
      (e.isDir = true ∧ e.cluster = c) ∨ s.volume.lookup d' (name83 q) = some e := by
    intro d' hd' q e he
    by_cases hq : (d', name83 q) = (d, name83 n)
    · obtain ⟨rfl, hname⟩ := Prod.mk.inj hq
      rw [hname, hm.self] at he
      rw [created_eq_some he]
      exact .inl ⟨isDir_directory _ _ _, rfl⟩
    · exact .inr (hm.lookup d' hd' q hq ▸ he)
  refine hp.of_step (N := {c}) h (fun d' _ hd' q x hx => ?_) (fun d' hd' q => ?_)
    fun d' hd' _ _ e he => ?_
  · rw [Volume.child] at hx
    split at hx
    · rename_i e he
      split at hx
      · rename_i hisDir
        cases hx
        rcases hlookup d' hd' q e he with ⟨-, hc⟩ | hold
        · exact .inl hc
        · rw [Volume.child, hold]
          exact .inr (if_pos hisDir)
      · simp at hx
    · simp at hx
  · obtain rfl : d' = c := hd'
    exact hm.empty q
  · by_cases hdc' : d' = c
    · -- a directory that was there before is not the one just made
      exact absurd (hdc' ▸ hd') hm.notDir
    · exact (hlookup d' hdc' _ e he).imp_left And.left

end

/-! ### Runs -/

/-- The calls that work on small files. -/
def Op.IsFileCall : Op → Prop
  | .create _ _ => True
  | .store _ _ _ => True
  | .remove _ => True
  | .storeLarge _ _ _ => False
  | .remount => False

/-- The calls that make a file where the path `p` leads to. -/
def Creates (s : State) (p : Path) : Op → Prop
  | .create n type => type = 0 ∧ ∃ t, target s n = some t ∧ target s p = some t
  | .store n _ _ => ∃ t, target s n = some t ∧ target s p = some t
  | .remove _ => False
  | .storeLarge _ _ _ => False
  | .remount => False

/-- **A call that creates no file under the name of `p`** leaves none there. -/
theorem Inv.noFile_call (h : Inv s D) {op : Op} (hop : op.WellFormed) (hfile : op.IsFileCall)
    (hcreates : ¬Creates s p op) (hp : NoFile s p) : NoFile (Fat.call s op).1 p := by
  have htarget : ∀ {n d}, Fat.parentDir s n = some (d, leafOf n) →
      target s n = some (d, name83 (leafOf n)) := fun hn => by rw [target, hn, map_some]
  cases op with
  | create n type =>
    rw [Fat.call]
    by_cases ht : type = 0
    · subst ht
      rcases hres : Fat.diskCreate s n 0 with ⟨s', ok⟩
      rcases h.safe.diskCreate_touches hop hres with ⟨rfl, -⟩ | ⟨-, d, -, hparent, htouches⟩
      · exact hp
      · exact htouches.noFile h (fun hsame => hcreates ⟨rfl, _, htarget hparent, hsame⟩) hp
    · rcases h.safe.diskCreate_directory n ht with ⟨ok, hres, -⟩ | ⟨s', d, i, c, hres, hnew⟩
      · rw [hres]
        exact hp
      · rw [hres]
        exact (hnew.made h.safe hop).noFile h hp
  | store n data size =>
    rw [Fat.call]
    rcases hres : Fat.diskStore s n data size with ⟨s', ok⟩
    rcases h.safe.diskStore_touches hop hres with ⟨rfl, -⟩ | ⟨d, -, hparent, htouches, -⟩
    · exact hp
    · exact htouches.noFile h (fun hsame => hcreates ⟨_, htarget hparent, hsame⟩) hp
  | remove n =>
    rw [Fat.call]
    rcases hres : Fat.diskRemove s n with ⟨s', ok⟩
    rcases h.safe.diskRemove_removed hres with ⟨rfl, -⟩ | ⟨-, d, i, e, -, -, hremoved⟩
    · exact hp
    · exact hremoved.noFile h hp
  | storeLarge n d size => exact absurd hfile id
  | remount => exact absurd hfile id

end OS64.Fat
