import OS64.Ext2.Regions

/-!
# The fields of an inode

The fields of the record are disjoint, so that assigning one leaves the others
alone. An inode has a further set of pointers in its indirect block: `pointer`
counts them all, the direct ones, the indirect block itself, and its entries.
-/

namespace OS64

namespace Ext2

open ByteMem

namespace Inode

variable (n : Inode) (i j v : ℕ)

/-! ### Assigning fields -/

@[simp] theorem mode_setBlock : (n.setBlock i v).mode = n.mode := readLE_writeLE_of_disjoint _ (by omega)

@[simp] theorem uid_setBlock : (n.setBlock i v).uid = n.uid := readLE_writeLE_of_disjoint _ (by omega)

@[simp] theorem gid_setBlock : (n.setBlock i v).gid = n.gid := readLE_writeLE_of_disjoint _ (by omega)

@[simp] theorem size_setBlock : (n.setBlock i v).size = n.size := readLE_writeLE_of_disjoint _ (by omega)

@[simp] theorem links_setBlock : (n.setBlock i v).links = n.links := readLE_writeLE_of_disjoint _ (by omega)

@[simp] theorem mode_setSectors : (n.setSectors v).mode = n.mode := readLE_writeLE_of_disjoint _ (by omega)

@[simp] theorem uid_setSectors : (n.setSectors v).uid = n.uid := readLE_writeLE_of_disjoint _ (by omega)

@[simp] theorem gid_setSectors : (n.setSectors v).gid = n.gid := readLE_writeLE_of_disjoint _ (by omega)

@[simp] theorem size_setSectors : (n.setSectors v).size = n.size := readLE_writeLE_of_disjoint _ (by omega)

@[simp] theorem links_setSectors : (n.setSectors v).links = n.links := readLE_writeLE_of_disjoint _ (by omega)

@[simp] theorem block_setSectors : (n.setSectors v).block i = n.block i := readLE_writeLE_of_disjoint _ (by omega)

@[simp] theorem mode_setSize : (n.setSize v).mode = n.mode := readLE_writeLE_of_disjoint _ (by omega)

@[simp] theorem uid_setSize : (n.setSize v).uid = n.uid := readLE_writeLE_of_disjoint _ (by omega)

@[simp] theorem gid_setSize : (n.setSize v).gid = n.gid := readLE_writeLE_of_disjoint _ (by omega)

@[simp] theorem links_setSize : (n.setSize v).links = n.links := readLE_writeLE_of_disjoint _ (by omega)

@[simp] theorem block_setSize : (n.setSize v).block i = n.block i := readLE_writeLE_of_disjoint _ (by omega)

@[simp] theorem mode_setLinks : (n.setLinks v).mode = n.mode := readLE_writeLE_of_disjoint _ (by omega)

@[simp] theorem size_setLinks : (n.setLinks v).size = n.size := readLE_writeLE_of_disjoint _ (by omega)

@[simp] theorem block_setLinks : (n.setLinks v).block i = n.block i := readLE_writeLE_of_disjoint _ (by omega)

@[simp] theorem uid_setMode : (n.setMode v).uid = n.uid := readLE_writeLE_of_disjoint _ (by omega)

@[simp] theorem gid_setMode : (n.setMode v).gid = n.gid := readLE_writeLE_of_disjoint _ (by omega)

@[simp] theorem size_setMode : (n.setMode v).size = n.size := readLE_writeLE_of_disjoint _ (by omega)

@[simp] theorem block_setMode : (n.setMode v).block i = n.block i := readLE_writeLE_of_disjoint _ (by omega)

@[simp] theorem mode_setUid : (n.setUid v).mode = n.mode := readLE_writeLE_of_disjoint _ (by omega)

@[simp] theorem gid_setUid : (n.setUid v).gid = n.gid := readLE_writeLE_of_disjoint _ (by omega)

@[simp] theorem size_setUid : (n.setUid v).size = n.size := readLE_writeLE_of_disjoint _ (by omega)

@[simp] theorem block_setUid : (n.setUid v).block i = n.block i := readLE_writeLE_of_disjoint _ (by omega)

@[simp] theorem mode_setGid : (n.setGid v).mode = n.mode := readLE_writeLE_of_disjoint _ (by omega)

@[simp] theorem uid_setGid : (n.setGid v).uid = n.uid := readLE_writeLE_of_disjoint _ (by omega)

@[simp] theorem size_setGid : (n.setGid v).size = n.size := readLE_writeLE_of_disjoint _ (by omega)

@[simp] theorem block_setGid : (n.setGid v).block i = n.block i := readLE_writeLE_of_disjoint _ (by omega)

variable {n i j v}

theorem mode_setMode (h : v < 2 ^ 16) : (n.setMode v).mode = v := readLE_writeLE_of_lt _ h

theorem uid_setUid (h : v < 2 ^ 16) : (n.setUid v).uid = v := readLE_writeLE_of_lt _ h

theorem gid_setGid (h : v < 2 ^ 16) : (n.setGid v).gid = v := readLE_writeLE_of_lt _ h

theorem size_setSize (h : v < 2 ^ 32) : (n.setSize v).size = v := readLE_writeLE_of_lt _ h

theorem block_setBlock (h : v < 2 ^ 32) : (n.setBlock i v).block j = if j = i then v else n.block j := by
  by_cases hj : j = i
  · rw [if_pos hj, hj]
    exact readLE_writeLE_of_lt _ h
  · rw [if_neg hj]
    exact readLE_writeLE_of_disjoint _ (by omega)

/-- All pointers are cleared. -/
theorem block_clearBlocks (h : i < 15) : n.clearBlocks.block i = 0 := by
  have hfold : ∀ k, ((List.range k).foldl (fun n i => setBlock n i 0) n).block i = if i < k then 0 else n.block i := by
    intro k
    induction k with
    | zero => rfl
    | succ k ih =>
      rw [List.range_succ, List.foldl_append, List.foldl_cons, List.foldl_nil, block_setBlock (by decide), ih]
      by_cases hik : i = k
      · rw [if_pos hik, if_pos (by omega)]
      · rw [if_neg hik]
        by_cases hlt : i < k
        · rw [if_pos hlt, if_pos (by omega)]
        · rw [if_neg hlt, if_neg (by omega)]
  rw [clearBlocks, hfold, if_pos h]

/-- A field that assigning a pointer leaves alone is left alone by clearing them
all. -/
theorem of_clearBlocks {α : Type} {f : Inode → α} (hf : ∀ n i, f (setBlock n i 0) = f n) (n : Inode) :
    f n.clearBlocks = f n := by
  have hfold : ∀ (l : List ℕ) (n : Inode), f (l.foldl (fun n i => setBlock n i 0) n) = f n := by
    intro l
    induction l with
    | nil => exact fun _ => rfl
    | cons i l ih =>
      intro n
      rw [List.foldl_cons, ih, hf]
  exact hfold _ n

/-! ### Kinds -/

theorem isDir_eq (n : Inode) : n.isDir = n.mode.testBit 14 := by
  rw [isDir, ext2Dir, show 0x4000 = 2 ^ 14 from rfl, Nat.and_two_pow]
  cases n.mode.testBit 14 with
  | true => rfl
  | false => rfl

theorem isDir_congr {m : Inode} (h : m.mode = n.mode) : m.isDir = n.isDir := by
  rw [isDir_eq, isDir_eq, h]

end Inode

/-! ### Records -/

section

variable (n : Inode)

theorem readLE_clipRecord {k a : ℕ} (h : a + k ≤ 128) : readLE (clipRecord n) k a = readLE n k a :=
  readLE_congr fun x _ hx => if_pos (by omega)

@[simp] theorem mode_clipRecord : (clipRecord n).mode = n.mode := readLE_clipRecord n (by decide)

@[simp] theorem uid_clipRecord : (clipRecord n).uid = n.uid := readLE_clipRecord n (by decide)

@[simp] theorem gid_clipRecord : (clipRecord n).gid = n.gid := readLE_clipRecord n (by decide)

@[simp] theorem size_clipRecord : (clipRecord n).size = n.size := readLE_clipRecord n (by decide)

@[simp] theorem links_clipRecord : (clipRecord n).links = n.links := readLE_clipRecord n (by decide)

@[simp] theorem isDir_clipRecord : (clipRecord n).isDir = n.isDir := Inode.isDir_congr (mode_clipRecord n)

variable {n}

theorem block_clipRecord {i : ℕ} (h : i < 15) : (clipRecord n).block i = n.block i := readLE_clipRecord n (by omega)

@[simp] theorem block_zero (i : ℕ) : Inode.block zero i = 0 := readLE_eq_zero fun _ _ _ => rfl

@[simp] theorem isDir_zero : Inode.isDir zero = false := rfl

@[simp] theorem clipRecord_zero : clipRecord zero = zero := by
  funext i
  rw [clipRecord]
  split
  · rfl
  · rfl

end

/-! ### New inodes -/

theorem isDir_directoryInode (blk : ℕ) : (directoryInode blk).isDir = true := by
  rw [Inode.isDir_congr (m := directoryInode blk) (n := Inode.setMode zero (ext2Dir ||| 0o755))]
  · decide
  · simp only [directoryInode, Inode.mode_setBlock, Inode.mode_setSectors, Inode.mode_setSize, Inode.mode_setLinks]

variable {blk : ℕ} {data : ℕ → ByteMem} {n : Inode}

theorem block_directoryInode (h : blk < 2 ^ 32) (i : ℕ) : (directoryInode blk).block i = if i = 0 then blk else 0 := by
  rw [directoryInode, Inode.block_setBlock h]
  simp only [Inode.block_setSectors, Inode.block_setSize, Inode.block_setLinks, Inode.block_setMode, block_zero]

theorem mode_fileInode (mode uid gid : ℕ) : (fileInode mode uid gid).mode = ext2File ||| (mode &&& 0o777) := by
  simp only [fileInode, Inode.mode_setLinks, Inode.mode_setGid, Inode.mode_setUid]
  refine Inode.mode_setMode (Nat.or_lt_two_pow (by decide) ?_)
  exact lt_of_le_of_lt Nat.and_le_right (by decide)

theorem isDir_fileInode (mode uid gid : ℕ) : (fileInode mode uid gid).isDir = false := by
  rw [Inode.isDir_eq, mode_fileInode, Nat.testBit_or, Nat.testBit_and, show Nat.testBit 0o777 14 = false from rfl,
    show ext2File.testBit 14 = false from rfl, Bool.and_false, Bool.or_false]

@[simp] theorem block_fileInode (mode uid gid i : ℕ) : (fileInode mode uid gid).block i = 0 := by
  simp only [fileInode, Inode.block_setLinks, Inode.block_setGid, Inode.block_setUid, Inode.block_setMode, block_zero]

/-! ### Pointers -/

/-- The pointers of an inode: twelve direct ones, the one to the indirect block,
and the entries of that block. -/
def pointer (data : ℕ → ByteMem) (n : Inode) (k : ℕ) : ℕ :=
  if k < 13 then n.block k
  else if k < 1037 ∧ n.block 12 ≠ 0 then r32 (data (n.block 12)) ((k - 13) * 4)
  else 0

theorem pointer_of_lt {k : ℕ} (h : k < 13) : pointer data n k = n.block k := if_pos h

/-- Inodes with the same block numbers have the same pointers. -/
theorem pointer_congr {m n : Inode} (h : ∀ i < 13, m.block i = n.block i) : pointer data m = pointer data n := by
  funext k
  rw [pointer, pointer, h 12 (by decide)]
  split
  · exact h k ‹_›
  · rfl

/-- The pointers depend on the indirect block only. -/
theorem pointer_congr_data {data data' : ℕ → ByteMem} (h : n.block 12 ≠ 0 → data' (n.block 12) = data (n.block 12)) :
    pointer data' n = pointer data n := by
  funext k
  rw [pointer, pointer]
  split
  · rfl
  · split
    · rename_i hk
      rw [h hk.2]
    · rfl

@[simp] theorem pointer_clipRecord (data : ℕ → ByteMem) (n : Inode) : pointer data (clipRecord n) = pointer data n :=
  pointer_congr fun i hi => block_clipRecord (by omega)

@[simp] theorem pointer_zero (data : ℕ → ByteMem) : pointer data zero = fun _ => 0 := by
  funext k
  rw [pointer]
  simp

/-- A new directory has one block. -/
theorem pointer_directoryInode (data : ℕ → ByteMem) (h : blk < 2 ^ 32) :
    pointer data (directoryInode blk) = Function.update (fun _ => 0) 0 blk := by
  funext k
  have hdirect := block_directoryInode h
  rw [Function.update_apply]
  by_cases hk : k < 13
  · rw [pointer_of_lt hk, hdirect]
  · -- there is no indirect block
    rw [pointer, if_neg hk, hdirect, if_neg (by decide : ¬12 = 0), if_neg fun hand => hand.2 rfl, if_neg (by omega)]

/-- The position of the pointer to block `j` of the contents. -/
def place (j : ℕ) : ℕ := if j < 12 then j else j + 1

end Ext2

end OS64
