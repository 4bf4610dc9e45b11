import OS64.Fat.Files

/-!
# What is stored is found again

`disk_store` looks a file up, changes the cluster and the size in its entry and writes the
directory back. Every path leads where it led (`OS64.Fat.Touches.parentDir`), and
the path of the file to the new entry. Behind that there is a chain whose first cluster
holds the bytes (`OS64.Fat.Safe.readback`). Nothing is assumed of the path: the
file may be in any directory and have been there before.
-/

namespace OS64.Fat

open List ByteMem Chains

variable {s s' : State} {D : Set ℕ} {n : Path} {size : ℕ}

/-- The path leads to a file with the bytes `t`: they are in its chain, from the beginning. -/
structure Keeps (s : State) (n : Path) (r : Sector) (i : ℕ) (l : List ℕ) (t : List UInt8) : Prop where
  found : findEntry s n = some (r, i)
  file : entryIsDir r i = false
  chain : Heads s (entryCluster r i) l
  fits : entrySize r i ≤ 512 * l.length
  bytes : t = (l.flatMap fun c => (dirRead s c).bytes 0 512).take (entrySize r i)

/-- The bytes of a small file are in its first sector. -/
theorem take_sectors {b : Sector} {bs : List UInt8} (hsize : size ≤ 512) :
    (b.bytes 0 512 ++ bs).take size = b.bytes 0 size := by
  rw [take_append_of_le_length (by rw [length_bytes]; exact hsize), take_bytes, min_eq_left hsize]

/-- **A small file that has been stored is found again**, with the bytes that were stored. -/
theorem Safe.readback (h : Safe s D) (hn : 0 ∉ n) {data : ℕ → UInt8}
    (hres : Fat.diskStore s n data size = (s', true)) :
    s'.mounted = true ∧ ∃ r i l, Keeps s' n r i l ((List.range size).map data) := by
  obtain ⟨D', h', -⟩ := h.diskStore hn data size
  rw [hres] at h'
  rcases h.diskStore_touches hn hres with ⟨-, hfalse⟩ | ⟨d, -, hp, ht, hstored⟩
  · cases hfalse
  refine ⟨ht.mounted.trans (mounted_of_diskStore hres), ?_⟩
  obtain ⟨hle, e, hlookup, hfile, rfl, hdata⟩ := hstored rfl
  obtain ⟨i, hfind, hslot⟩ := Option.bind_eq_some_iff.mp hlookup
  obtain ⟨-, hdir, hcluster, hsize⟩ := entry_eq_some hslot
  have hfound : Fat.findEntry s' n = some (s'.sector d, i) := by
    rw [h'.findEntry_eq, target, ht.parentDir h h', hp, Option.map_some, Option.bind_some, hfind, Option.map_some]
  -- behind every entry there is a chain
  obtain ⟨d', e', hr, hf⟩ := h'.found hfound
  obtain ⟨l, hl⟩ := h'.exists_heads hf.holds
  rw [← (listing_eq_some hf.holds.2.2.1).2.2.1, ← hr, hcluster] at hl
  refine ⟨_, i, l, hfound, hdir.trans hfile, hcluster.symm ▸ hl, ?_, ?_⟩
  · rcases hl with ⟨h0, rfl⟩ | hl
    · -- there is no cluster, and nothing to store
      by_contra hne
      have := (hdata (by omega)).1.1
      omega
    · have := length_pos_iff.mpr hl.ne_nil
      omega
  · rw [hsize]
    by_cases h0 : e.size = 0
    · rw [h0, range_zero, map_nil, take_zero]
    obtain ⟨hrange, hsector⟩ := hdata h0
    rcases hl with ⟨hzero, -⟩ | hl
    · exact absurd (hzero ▸ hrange.1) (by decide)
    obtain ⟨l', rfl⟩ := hl.exists_cons
    rw [flatMap_cons, take_sectors hle, h'.layout.toGeometry.dirRead hrange.1 hrange.2, hsector, bytes_fileSector]

end OS64.Fat
