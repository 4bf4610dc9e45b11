import OS64.Ext2.Directories

/-!
# Reading files

`ext2_load` gives a file as a whole or not at all: it compares the size in the inode
with the room in the caller's buffer before it reads. So for every path there is
nothing to be read, or some bytes that are read whenever there is room for them
(`OS64.Ext2.ext2Load_capacity`), whatever is on the disk.

On a sound volume these are the contents of the regular file that the path leads to
(`OS64.Ext2.Good.run_ext2Load`).
-/

namespace OS64.Ext2

open List ByteMem Fallible

/-! ### Any volume -/

theorem length_loadBlocks {n : Inode} : ∀ {is : List ℕ} {s s' : State} {bs : List ByteMem},
    (loadBlocks n is).run s = (some bs, s') → bs.length = is.length
  | [], s, s', bs, h => by
    obtain ⟨h, -⟩ := Prod.mk.inj h
    rw [← Option.some.inj h]
    rfl
  | i :: is, s, s', bs, h => by
    rw [loadBlocks] at h
    rcases hblk : (fileBlock n i).run s with ⟨_ | blk, s₁⟩
    · rw [run_bind_none hblk] at h
      simp at h
    rw [run_bind_some hblk] at h
    by_cases hne : blk ≠ 0
    case neg =>
      rw [run_bind_none (run_require_neg hne s₁)] at h
      simp at h
    rw [run_bind_some (run_require_pos hne s₁)] at h
    rcases hread : (bread blk).run s₁ with ⟨_ | b, s₂⟩
    · rw [run_bind_none hread] at h
      simp at h
    rw [run_bind_some hread] at h
    rcases hrest : (loadBlocks n is).run s₂ with ⟨_ | bs', s₃⟩
    · rw [run_bind_none hrest] at h
      simp at h
    rw [run_bind_some hrest, run_pure] at h
    obtain ⟨h, -⟩ := Prod.mk.inj h
    rw [← Option.some.inj h, length_cons, length_cons, length_loadBlocks hrest]

theorem length_take_blocks (size : ℕ) {bs : List ByteMem} (h : bs.length = (size + 4095) / 4096) :
    ((bs.flatMap fun b => bytes b 0 4096).take size).length = size := by
  have hlen : (bs.flatMap fun b => bytes b 0 4096).length = bs.length * 4096 := by
    rw [length_flatMap, map_congr_left fun b _ => length_bytes b 0 4096, map_const', sum_replicate_nat]
  rw [length_take, hlen, h]
  omega

/-- **A file is read as a whole or not at all.** -/
theorem ext2Load_capacity (path : Path) (s : State) :
    (∀ cap, ((ext2Load path cap).run s).1 = none) ∨
      ∃ t : List UInt8, ∀ cap, ((ext2Load path cap).run s).1 = if t.length ≤ cap then some t else none := by
  by_cases hm : s.mounted = true
  case neg =>
    refine .inl fun cap => ?_
    rw [ext2Load, run_bind_some (run_gets State.mounted s), run_bind_none (run_require_neg hm s)]
  have hstart : ∀ cap, (ext2Load path cap).run s = (locate path >>= fun ino => do
      let n ← inodeGet ino
      require (n.isDir = false ∧ n.size ≤ cap ∧ n.size ≤ maxFileSize)
      let bs ← loadBlocks n (List.range ((n.size + 4095) / 4096))
      pure ((bs.flatMap fun b => bytes b 0 4096).take n.size) : M (List UInt8)).run s := by
    intro cap
    rw [ext2Load, run_bind_some (run_gets State.mounted s), run_bind_some (run_require_pos hm s)]
  simp only [hstart]
  rcases hino : (locate path).run s with ⟨_ | ino, s₁⟩
  · exact .inl fun cap => by rw [run_bind_none hino]
  rcases hinode : (inodeGet ino).run s₁ with ⟨_ | n, s₂⟩
  · exact .inl fun cap => by rw [run_bind_some hino, run_bind_none hinode]
  simp only [run_bind_some hino, run_bind_some hinode]
  by_cases hfile : n.isDir = false ∧ n.size ≤ maxFileSize
  case neg =>
    refine .inl fun cap => ?_
    rw [run_bind_none (run_require_neg (fun hand => hfile ⟨hand.1, hand.2.2⟩) s₂)]
  -- from here on only the size and the room are compared
  rcases hblocks : (loadBlocks n (List.range ((n.size + 4095) / 4096))).run s₂ with ⟨_ | bs, s₃⟩
  · refine .inl fun cap => ?_
    by_cases hcap : n.isDir = false ∧ n.size ≤ cap ∧ n.size ≤ maxFileSize
    · rw [run_bind_some (run_require_pos hcap s₂), run_bind_none hblocks]
    · rw [run_bind_none (run_require_neg hcap s₂)]
  · have hlen := length_take_blocks n.size ((length_loadBlocks hblocks).trans length_range)
    refine .inr ⟨(bs.flatMap fun b => bytes b 0 4096).take n.size, fun cap => ?_⟩
    rw [hlen]
    by_cases hcap : n.size ≤ cap
    · rw [run_bind_some (run_require_pos ⟨hfile.1, hcap, hfile.2⟩ s₂), run_bind_some hblocks, if_pos hcap]
      rfl
    · rw [run_bind_none (run_require_neg (fun hand => hcap hand.2.1) s₂), if_neg hcap]

/-! ### A sound volume -/

variable {s : State} {P : ℕ → ℕ}

theorem Good.data_eq (h : Good s P) {b : ℕ} (hb : 260 ≤ b) (hb' : b < 16384) :
    (bread b).run s = (some (s.view.data b), s) := by
  have hdata : s.view.data b = s.block b := if_pos ⟨hb, hb'⟩
  rw [run_bread h.toLayout hb', hdata]

/-- **`file_block`** finds the blocks of a file. -/
theorem Good.run_fileBlock (h : Good s P) {i j : ℕ} (hne : s.view.ptr i (place j) ≠ 0) :
    (fileBlock (s.view.inode i) j).run s = (some (s.view.ptr i (place j)), s) := by
  rw [fileBlock]
  by_cases hj : j < 12
  · have hplace : place j = j := if_pos hj
    rw [if_pos hj, run_pure, hplace, View.ptr_of_lt _ (by omega)]
  · have hplace : place j = j + 1 := if_neg hj
    rw [hplace, View.ptr, pointer, if_neg (by omega : ¬j + 1 < 13)] at hne ⊢
    have hcond : j + 1 < 1037 ∧ (s.view.inode i).block 12 ≠ 0 := by
      by_contra hnot
      exact hne (if_neg hnot)
    have hblock : s.view.ptr i 12 = (s.view.inode i).block 12 := View.ptr_of_lt _ (by decide)
    obtain ⟨hlow, hhigh, -⟩ := h.sound.ptr_allocated (hblock ▸ hcond.2)
    rw [hblock] at hlow hhigh
    have hbread : (recover (bread ((s.view.inode i).block 12))).run s =
        (some (some (s.view.data ((s.view.inode i).block 12))), s) := by
      rw [run_recover, h.data_eq hlow hhigh]
    rw [if_neg hj, if_neg (by omega), run_bind_some hbread, if_pos hcond, show j + 1 - 13 = j - 12 by omega]
    rfl

/-- The loop of `ext2_load` reads the blocks of a file. -/
theorem Good.run_loadBlocks (h : Good s P) {i : ℕ} : ∀ {js : List ℕ},
    (∀ j ∈ js, s.view.ptr i (place j) ≠ 0) → (loadBlocks (s.view.inode i) js).run s =
      (some (js.map fun j => s.view.data (s.view.ptr i (place j))), s)
  | [], _ => rfl
  | j :: js, hne => by
    have hj := hne j mem_cons_self
    obtain ⟨hlow, hhigh, -⟩ := h.sound.ptr_allocated hj
    have ih := Good.run_loadBlocks h fun k hk => hne k (mem_cons_of_mem j hk)
    rw [loadBlocks, run_bind_some (h.run_fileBlock hj), run_bind_some (run_require_pos hj s),
      run_bind_some (h.data_eq hlow hhigh), run_bind_some ih]
    rfl

/-- The blocks of a file, one behind the other. -/
theorem content_blocks (v : View) (i : ℕ) (js : List ℕ) :
    (js.map fun j => v.data (v.ptr i (place j))).flatMap (fun b => bytes b 0 4096) =
      js.flatMap fun j => bytes (v.data (v.ptr i (place j))) 0 4096 := by
  rw [flatMap_map]

theorem length_content (v : View) (i : ℕ) : (v.content i).length = (v.inode i).size := by
  rw [View.content, ← content_blocks]
  exact length_take_blocks _ (by rw [length_map, length_range])

/-- **On a sound volume `ext2_load` reads the file under the path**, if there is room
for it. -/
theorem Good.run_ext2Load (h : Good s P) (path : Path) (cap : ℕ) : (ext2Load path cap).run s =
    ((s.view.fileAt (components path)).bind fun f => if f.bytes.length ≤ cap then some f.bytes else none, s) := by
  rw [ext2Load, run_bind_some (run_gets State.mounted s), run_bind_some (run_require_pos h.mounted s)]
  have hlocate := h.run_locate path
  cases hi : Tree.resolve s.view.look rootIno (components path) with
  | none =>
    rw [hi] at hlocate
    rw [run_bind_none hlocate, View.fileAt, hi]
    rfl
  | some i =>
    rw [hi] at hlocate
    have hused : s.view.Used i := h.sound.tree.resolve_used hi
    rw [run_bind_some hlocate, run_bind_some (h.run_inodeGet hused), View.fileAt_of_resolve hi]
    by_cases hdir : (s.view.inode i).isDir = true
    · rw [run_bind_none (run_require_neg (fun hand => Bool.false_ne_true (hand.1.symm.trans hdir)) s), if_pos hdir]
      rfl
    obtain ⟨hmax, hwhole⟩ := h.sound.whole i hdir
    rw [if_neg hdir, Option.bind_some, View.file, length_content]
    by_cases hcap : (s.view.inode i).size ≤ cap
    · have hload := @Good.run_loadBlocks s P h i (List.range (((s.view.inode i).size + 4095) / 4096)) fun j hj =>
        hwhole j (by have := mem_range.mp hj; omega)
      rw [run_bind_some (run_require_pos ⟨Bool.eq_false_iff.mpr hdir, hcap, hmax⟩ s), run_bind_some hload, if_pos hcap,
        content_blocks]
      rfl
    · rw [run_bind_none (run_require_neg (fun hand => hcap hand.2.1) s), if_neg hcap]

end OS64.Ext2
