import OS64.Ext2.Loads
import OS64.Vfs.Stat

/-!
# What a file holds, and what is read of it

A path belongs to one backend, told by how it begins, and each backend keeps the bytes
of a file in its own way: as a text made on demand, in a slot of `tmpfs`, in a chain of
clusters, in the blocks of an inode, in the archive. `OS64.Vfs.FileAt` says that a path
leads to a regular file of a backend, and which bytes are in it.

`vfs_read` passes the room in the caller's buffer on to the backend, and the backends do
not agree about it (`OS64.Vfs.delivered`): `/proc` keeps one byte for itself and
cuts the text off, `/home` wants room for a sector and always reads one, and the others
give all or nothing. A file of the volume of `/var` for which there is no room is then
looked for in the archive.
-/

namespace OS64.Vfs

open List Text Auth ByteMem Option Bool

variable {R : Type} {env : Env R} {s : State R} {p : Path} {t : List UInt8}

/-! ### Where a path leads -/

variable {q : Path} {k : Backend}

/-- The character behind the first slash tells a path of one backend from those of another. -/
theorem second_of_starts (h : starts p q = true) (hq : 2 ≤ q.length) : p.getD 1 0 = q.getD 1 0 := by
  obtain ⟨rest, rfl⟩ := isPrefixOf_iff_prefix.mp h
  rw [getD_append _ _ _ _ (by omega)]

theorem starts_of_second (hq : 2 ≤ q.length) (h : p.getD 1 0 ≠ q.getD 1 0) : starts p q = false :=
  eq_false_iff.mpr fun hstarts => h (second_of_starts hstarts hq)

theorem second_of_charDevices (h : p ∈ charDevices) : p.getD 1 0 = 100 :=
  (by decide : ∀ q ∈ charDevices, q.getD 1 0 = 100) p h

theorem second_of_home (h : homePath p = true) : p.getD 1 0 = 104 ∨ p.getD 1 0 = 109 := by
  rcases or_eq_true_iff.mp h with h | h
  · exact .inl (second_of_starts h (by decide))
  · exact .inr (second_of_starts h (by decide))

theorem second_of_native (h : nativePath p = true) : p.getD 1 0 = 118 ∨ p.getD 1 0 = 114 ∨ p.getD 1 0 = 109 := by
  rw [nativePath, or_eq_true, or_eq_true, and_eq_true] at h
  rcases h with (h | h) | ⟨h, -⟩
  · exact .inl (second_of_starts h (by decide))
  · exact .inr (.inl (second_of_starts h (by decide)))
  · exact .inr (.inr (second_of_starts h (by decide)))

/-- A path that is no device's is read as a file. -/
theorem vfsReadRaw_eq (h : p ∉ charDevices) (cap : ℕ) : vfsReadRaw env s p cap = (s, readFile s p cap) := by
  have hne : ∀ q ∈ charDevices, p ≠ q := fun q hq hpq => h (hpq ▸ hq)
  rw [vfsReadRaw, if_neg, if_neg, if_neg]
  · exact not_or.mpr ⟨hne _ (by decide), hne _ (by decide)⟩
  · exact not_or.mpr ⟨hne _ (by decide), hne _ (by decide)⟩
  · exact not_or.mpr ⟨hne _ (by decide), hne _ (by decide)⟩

theorem vfsRead_file_eq (hcheck : vfsCheckPermission env s p accessRead = true) (hproc : starts p procPrefix = false)
    (htmp : starts p tmpPrefix = false) (hdev : p ∉ charDevices) (cap : ℕ) :
    vfsRead env s p cap = (s, readFile s p cap) := by
  rw [vfsRead, if_pos hcheck, hproc, htmp]
  exact vfsReadRaw_eq hdev cap

/-- Files on the volumes are no texts of `/proc`, no temporary files and no devices. -/
theorem apart_of_second (hproc : p.getD 1 0 ≠ 112) (htmp : p.getD 1 0 ≠ 116) (hdev : p.getD 1 0 ≠ 100) :
    starts p procPrefix = false ∧ starts p tmpPrefix = false ∧ p ∉ charDevices :=
  ⟨starts_of_second (by decide) hproc, starts_of_second (by decide) htmp, fun h => hdev (second_of_charDevices h)⟩

theorem apart_of_home (hp : homePath p = true) :
    starts p procPrefix = false ∧ starts p tmpPrefix = false ∧ p ∉ charDevices := by
  rcases second_of_home hp with h | h <;> exact apart_of_second (by rw [h]; decide) (by rw [h]; decide) (by rw [h]; decide)

theorem apart_of_native (hp : nativePath p = true) :
    starts p procPrefix = false ∧ starts p tmpPrefix = false ∧ p ∉ charDevices := by
  rcases second_of_native hp with h | h | h <;>
    exact apart_of_second (by rw [h]; decide) (by rw [h]; decide) (by rw [h]; decide)

theorem vfsRead_home (hp : homePath p = true) (hcheck : vfsCheckPermission env s p accessRead = true) (cap : ℕ) :
    vfsRead env s p cap = (s, readFile s p cap) := by
  obtain ⟨hproc, htmp, hdev⟩ := apart_of_home hp
  exact vfsRead_file_eq hcheck hproc htmp hdev cap

theorem vfsRead_native (hp : nativePath p = true) (hcheck : vfsCheckPermission env s p accessRead = true) (cap : ℕ) :
    vfsRead env s p cap = (s, readFile s p cap) := by
  obtain ⟨hproc, htmp, hdev⟩ := apart_of_native hp
  exact vfsRead_file_eq hcheck hproc htmp hdev cap

/-- No path is on both volumes. -/
theorem homePath_of_native (hp : nativePath p = true) : homePath p = false := by
  rw [homePath, or_eq_false_iff]
  have hsecond := second_of_native hp
  refine ⟨starts_of_second (by decide) ?_, ?_⟩
  · rcases hsecond with h | h | h <;> rw [h] <;> decide
  · rw [nativePath, or_eq_true, or_eq_true, and_eq_true, not_eq_true'] at hp
    rcases hp with (h | h) | ⟨-, h⟩
    · exact starts_of_second (by decide) (by rw [second_of_starts h (by decide)]; decide)
    · exact starts_of_second (by decide) (by rw [second_of_starts h (by decide)]; decide)
    · exact h

/-! ### Contents -/

/-- The path leads to a file on the volume of `/home`, and its chain holds `t`. -/
def HomeFile (fat : Fat.State) (p : Path) (t : List UInt8) : Prop :=
  fat.mounted = true ∧ ∃ r i l, Fat.findEntry fat p = some (r, i) ∧ Fat.entryIsDir r i = false ∧
    Fat.Heads fat (Fat.entryCluster r i) l ∧ Fat.entrySize r i ≤ 512 * l.length ∧
    t = (l.flatMap fun c => (Fat.dirRead fat c).bytes 0 512).take (Fat.entrySize r i)

/-- The path leads to a regular file of the backend, and the file holds `t`. -/
inductive FileAt (env : Env R) (s : State R) (p : Path) : Backend → List UInt8 → Prop
  /-- A text of `/proc`. -/
  | proc {t : List UInt8} (hp : starts p procPrefix = true) (ht : env.procText p = some t) : FileAt env s p .procfs t
  /-- A file of `tmpfs`. -/
  | tmp {node : Node} (hp : starts p tmpPrefix = true) (hnode : tmpLookup s p = some node) :
      FileAt env s p .tmpfs node.data
  /-- A file on the volume of `/home`. -/
  | home {t : List UInt8} (hp : homePath p = true) (ht : HomeFile s.fat p t) : FileAt env s p .fat32 t
  /-- A file on the volume of `/var`, which can be read if there is room for it. -/
  | native {t : List UInt8} (hp : nativePath p = true)
      (ht : ((Ext2.ext2Load p t.length).run s.ext2).1 = some t) : FileAt env s p .ext2 t
  /-- A file of the archive, where nothing else is. -/
  | archive {e : Entry} (hproc : starts p procPrefix = false) (htmp : starts p tmpPrefix = false)
      (hhome : homePath p = false) (hdev : p ∉ charDevices ∧ p ∉ blockDevices)
      (hnative : nativePath p = true → ∀ cap, ((Ext2.ext2Load p cap).run s.ext2).1 = none)
      (he : fsFind s p = some e) (hfile : e.isDir = false) : FileAt env s p .initramfs e.data

/-! ### Reading -/

/-- The bytes that `vfs_read` puts into the buffer, and the number that it returns. -/
def delivered (env : Env R) (s : State R) (p : Path) (cap : ℕ) : Option (List UInt8 × ℕ) :=
  (vfsRead env s p cap).2.map fun r => (r.data, r.n)

/-- A text of `/proc` and a file of `tmpfs` have attributes. -/
theorem vfsStatPath_ne_none (hcheck : vfsCheckPermission env s p accessRead = true)
    (h : (starts p tmpPrefix = true ∧ tmpLookup s p ≠ none) ∨
      (starts p procPrefix = true ∧ env.procText p ≠ none)) : vfsStatPath env s p ≠ none := by
  have hfixed : statFixed env s p ≠ none := by
    rw [statFixed]
    by_cases hchar : p ∈ charDevices
    · rw [if_pos hchar]
      exact some_ne_none _
    rw [if_neg hchar]
    by_cases hblock : p ∈ blockDevices
    · rw [if_pos hblock]
      exact some_ne_none _
    rw [if_neg hblock]
    split
    · exact some_ne_none _
    split
    · exact some_ne_none _
    case h_2 hnode =>
      rcases h with ⟨hp, hne⟩ | ⟨hp, hne⟩
      · rw [if_pos hp] at hnode
        exact absurd hnode hne
      · obtain ⟨text, htext⟩ := ne_none_iff_exists'.mp hne
        rw [if_pos hp, htext]
        exact some_ne_none _
  obtain ⟨st, hst⟩ := ne_none_iff_exists'.mp hfixed
  have hraw : statRaw env s p = some st := by rw [statRaw, hst]; rfl
  simp only [vfsStatPath, hraw, hcheck, if_true]
  exact some_ne_none _

theorem withStat_map (hne : vfsStatPath env s p ≠ none) (data : Option (List UInt8)) :
    (withStat env s p data).map (fun r => (r.data, r.n)) = data.map fun d => (d, d.length) := by
  obtain ⟨st, hst⟩ := ne_none_iff_exists'.mp hne
  cases data with
  | none => rfl
  | some d => simp only [withStat, hst, map_some]

/-- What the archive delivers. -/
theorem readArchive_map {e : Entry} (he : fsFind s p = some e) (hfile : e.isDir = false) (cap : ℕ) :
    (readArchive s p cap).map (fun r => (r.data, r.n)) =
      if e.data.length ≤ cap then some (e.data, e.data.length) else none := by
  rw [readArchive, he]
  by_cases hcap : e.data.length ≤ cap
  · simp [hfile, hcap, Reading.whole]
  · simp [hcap]

/-- The first sector is what `disk_load` gives. -/
theorem HomeFile.diskLoad {fat : Fat.State} (h : HomeFile fat p t) :
    ∃ b : Sector, Fat.diskLoad fat p = some (t.length, b) ∧ (b.bytes 0 512).take t.length = t.take 512 := by
  obtain ⟨hm, r, i, l, hfind, hdir, hl, hsize, rfl⟩ := h
  have hlen : ((l.flatMap fun c => (Fat.dirRead fat c).bytes 0 512).take (Fat.entrySize r i)).length =
      Fat.entrySize r i := by
    rw [length_take, length_flatMap, map_congr_left fun c _ => length_bytes (Fat.dirRead fat c) 0 512,
      map_const', sum_replicate_nat]
    omega
  refine ⟨Fat.dirRead fat (Fat.entryCluster r i), ?_, ?_⟩
  · rw [Fat.diskLoad, if_neg (not_not.mpr hm), hfind, hlen]
    simp only [hdir]
    rfl
  · rw [hlen]
    rcases hl with ⟨-, rfl⟩ | hl
    · rw [Nat.le_zero.mp hsize]
      rfl
    · obtain ⟨l', rfl⟩ := hl.exists_cons
      rw [flatMap_cons, take_take, take_append_of_le_length (by rw [length_bytes]; exact min_le_left _ _), ← take_take]
      refine (take_of_length_le ?_).symm
      rw [length_take, length_bytes]
      exact min_le_right _ _

section

variable (hcheck : vfsCheckPermission env s p accessRead = true) (cap : ℕ)
include hcheck

/-- Of a text of `/proc` one byte less than there is room for. -/
theorem delivered_proc (hp : starts p procPrefix = true) (ht : env.procText p = some t) :
    vfsRead env s p cap = (s, (vfsRead env s p cap).2) ∧
      delivered env s p cap = some (t.take (cap - 1), (t.take (cap - 1)).length) := by
  have hstat := vfsStatPath_ne_none hcheck (.inr ⟨hp, ht.symm ▸ some_ne_none t⟩)
  rw [delivered, vfsRead, if_pos hcheck, if_pos hp, ht]
  exact ⟨rfl, withStat_map hstat _⟩

/-- Of a file of `tmpfs` all or nothing. -/
theorem delivered_tmp {node : Node} (hp : starts p tmpPrefix = true) (hnode : tmpLookup s p = some node) :
    vfsRead env s p cap = (s, (vfsRead env s p cap).2) ∧
      delivered env s p cap = if node.data.length ≤ cap then some (node.data, node.data.length) else none := by
  have hstat := vfsStatPath_ne_none hcheck (.inl ⟨hp, hnode.symm ▸ some_ne_none node⟩)
  have hproc : starts p procPrefix = false :=
    starts_of_second (by decide) (by rw [second_of_starts hp (by decide)]; decide)
  rw [delivered, vfsRead, if_pos hcheck, hproc, if_neg Bool.false_ne_true, if_pos hp]
  refine ⟨rfl, (withStat_map hstat _).trans ?_⟩
  simp only [tmpfsLoad, hnode]
  by_cases hcap : node.data.length ≤ cap
  · rw [if_pos hcap, if_pos hcap, map_some]
  · rw [if_neg hcap, if_neg hcap, map_none]

/-- Of a file on the volume of `/home` the first sector, if there is room for one; the
number returned is the size of the file. -/
theorem delivered_home (hp : homePath p = true) (ht : HomeFile s.fat p t) :
    vfsRead env s p cap = (s, (vfsRead env s p cap).2) ∧
      if cap < 512 then delivered env s p cap = none
      else ∃ b : Sector, delivered env s p cap = some (b.bytes 0 512, t.length) ∧
        (b.bytes 0 512).take t.length = t.take 512 := by
  rw [delivered, vfsRead_home hp hcheck cap]
  refine ⟨rfl, ?_⟩
  obtain ⟨b, hload, hb⟩ := ht.diskLoad
  rw [readFile, if_pos hp]
  by_cases hcap : cap < 512
  · rw [if_pos hcap, if_pos hcap, map_none]
  · rw [if_neg hcap, if_neg hcap, hload]
    exact ⟨b, by simp only [map_some], hb⟩

/-- Of a file on the volume of `/var` all, if there is room for it; otherwise it is the
archive that is asked. -/
theorem delivered_native (hp : nativePath p = true) (ht : ((Ext2.ext2Load p t.length).run s.ext2).1 = some t) :
    vfsRead env s p cap = (s, (vfsRead env s p cap).2) ∧ delivered env s p cap =
      if t.length ≤ cap then some (t, t.length)
      else (readArchive s p cap).map fun r => (r.data, r.n) := by
  rw [delivered, vfsRead_native hp hcheck cap]
  refine ⟨rfl, ?_⟩
  rw [readFile, if_neg (by rw [homePath_of_native hp]; exact Bool.false_ne_true), if_pos hp]
  rcases Ext2.ext2Load_capacity p s.ext2 with hnone | ⟨t', ht'⟩
  · rw [hnone] at ht
    simp at ht
  · obtain rfl : t' = t := by
      rw [ht'] at ht
      split_ifs at ht
      exact some.inj ht
    rw [ht']
    by_cases hcap : t'.length ≤ cap
    · rw [if_pos hcap, if_pos hcap]
      rfl
    · rw [if_neg hcap, if_neg hcap]

/-- Of a file of the archive all or nothing. -/
theorem delivered_archive {e : Entry} (hproc : starts p procPrefix = false) (htmp : starts p tmpPrefix = false)
    (hhome : homePath p = false) (hdev : p ∉ charDevices)
    (hnative : nativePath p = true → ∀ cap, ((Ext2.ext2Load p cap).run s.ext2).1 = none)
    (he : fsFind s p = some e) (hfile : e.isDir = false) :
    vfsRead env s p cap = (s, (vfsRead env s p cap).2) ∧
      delivered env s p cap = if e.data.length ≤ cap then some (e.data, e.data.length) else none := by
  rw [delivered, vfsRead_file_eq hcheck hproc htmp hdev cap]
  refine ⟨rfl, ?_⟩
  rw [readFile, if_neg (by rw [hhome]; exact Bool.false_ne_true)]
  have hload : (if nativePath p then ((Ext2.ext2Load p cap).run s.ext2).1 else none) = none := by
    split_ifs with hp
    · exact hnative hp cap
    · rfl
  rw [hload]
  exact readArchive_map he hfile cap

end

/-- Reading a regular file changes nothing. -/
theorem FileAt.vfsRead_eq (h : FileAt env s p k t) (hcheck : vfsCheckPermission env s p accessRead = true) (cap : ℕ) :
    vfsRead env s p cap = (s, (vfsRead env s p cap).2) := by
  cases h with
  | proc hp ht => exact (delivered_proc hcheck cap hp ht).1
  | tmp hp hnode => exact (delivered_tmp hcheck cap hp hnode).1
  | home hp ht => exact (delivered_home hcheck cap hp ht).1
  | native hp ht => exact (delivered_native hcheck cap hp ht).1
  | archive hproc htmp hhome hdev hnative he hfile =>
    exact (delivered_archive hcheck cap hproc htmp hhome hdev.1 hnative he hfile).1

/-- Nor does an attempt that is not allowed. -/
theorem FileAt.vfsRead_state (h : FileAt env s p k t) (cap : ℕ) :
    vfsRead env s p cap = (s, (vfsRead env s p cap).2) := by
  by_cases hcheck : vfsCheckPermission env s p accessRead = true
  · exact h.vfsRead_eq hcheck cap
  · rw [vfsRead, if_neg hcheck]

end OS64.Vfs
