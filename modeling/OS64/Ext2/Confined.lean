import OS64.Ext2.Run
import OS64.Lib.Store

/-!
# The driver of `/var` writes its own partition only

`bwrite` compares the number of the block with the number of blocks of the volume, so
no call of the driver writes outside of its partition, whatever the pointers on the disk
are (`OS64.Ext2.Stays`, `OS64.Ext2.respects_exec`). Nothing need be known of the volume
for this; it follows the programs line by line.
-/

namespace OS64.Ext2

open Fallible

/-- The sectors of the partition. -/
def InVar (lba : ℕ) : Prop := Fat.varStart ≤ lba ∧ lba < Fat.varStart + Fat.varSectors

instance (lba : ℕ) : Decidable (InVar lba) := inferInstanceAs (Decidable (_ ∧ _))

/-- The volume is where it belongs, with no more blocks than there is room for. -/
def State.Placed (s : State) : Prop := s.base = 131072 ∧ s.blocks ≤ 16384

/-- Only the disk has changed, and if the volume is where it belongs then by writes to
the partition. -/
structure Stays (s s' : State) : Prop where
  base : s'.base = s.base
  blocks : s'.blocks = s.blocks
  mounted : s'.mounted = s.mounted
  writes : s.Placed → Store.Writes InVar s.disk s'.disk

variable {s s' : State} {n : ℕ}

theorem Stays.placed (h : Stays s s') (hs : s.Placed) : s'.Placed := by
  rw [State.Placed, h.base, h.blocks]
  exact hs

instance : IsPreorder State Stays where
  refl _ := ⟨rfl, rfl, rfl, fun _ => .refl⟩
  trans _ _ _ h h' := ⟨h'.base.trans h.base, h'.blocks.trans h.blocks, h'.mounted.trans h.mounted,
    fun hs => (h.writes hs).trans (h'.writes (h.placed hs))⟩

/-! ### Primitives -/

theorem writes_writeAt (disk : Disk) (hn : n < 16384) (b : ByteMem) :
    Store.Writes InVar disk (writeAt disk 131072 n b) := by
  refine Store.Writes.foldl (List.range 8) disk fun i hi => ?_
  have hlt := List.mem_range.mp hi
  rw [InVar, Fat.varStart, Fat.varSectors]
  omega

theorem respects_bread (n : ℕ) : Respects Stays (bread n) :=
  .bind (respects_gets _) fun _ => .bind (respects_require _) fun _ => respects_gets _

theorem respects_bwrite (n : ℕ) (b : ByteMem) : Respects Stays (bwrite n b) := by
  intro s
  by_cases hn : n < s.blocks
  · rw [run_bwrite_of_lt hn]
    refine ⟨rfl, rfl, rfl, fun hs => ?_⟩
    have hwrites := writes_writeAt s.disk (show n < 16384 by have := hs.2; omega) b
    rwa [← hs.1] at hwrites
  · rw [bwrite, run_bind_some (run_gets _ _), run_bind_none (run_require_neg hn s)]
    exact refl_of Stays s

theorem respects_inodeGet (ino : ℕ) : Respects Stays (inodeGet ino) :=
  .bind (respects_require _) fun _ => .bind (respects_bread _) fun _ => respects_pure _

theorem respects_inodePut (ino : ℕ) (n : Inode) : Respects Stays (inodePut ino n) :=
  .bind (respects_bread _) fun _ => respects_bwrite _ _

theorem respects_counters (db di dd : ℤ) : Respects Stays (counters db di dd) :=
  .bind (respects_bread _) fun _ => .bind (respects_bwrite _ _) fun _ => .bind (respects_bread _) fun _ =>
    respects_bwrite _ _

theorem respects_allocBit (bitmap first limit : ℕ) (inode : Bool) :
    Respects Stays (allocBit bitmap first limit inode) := by
  refine .bind (respects_bread _) fun b => ?_
  split
  · exact respects_fail
  · exact .bind (respects_bwrite _ _) fun _ => .bind (respects_counters _ _ _) fun _ => respects_pure _

theorem respects_freeBit (bitmap number : ℕ) (inode : Bool) : Respects Stays (freeBit bitmap number inode) :=
  .bind (respects_require _) fun _ => .bind (respects_bread _) fun _ => .bind (respects_bwrite _ _) fun _ =>
    respects_counters _ _ _

theorem respects_allocBlock : Respects Stays allocBlock :=
  .bind (respects_gets _) fun _ => .bind (respects_allocBit _ _ _ _) fun _ => respects_pure _

theorem respects_allocInode : Respects Stays allocInode := respects_allocBit _ _ _ _

/-! ### Directories -/

theorem respects_dirFind (dir : ℕ) (name : Path) : Respects Stays (dirFind dir name) := by
  refine .bind (respects_inodeGet _) fun n => .bind (respects_require _) fun _ => .bind (respects_require _) fun _ =>
    .bind (respects_bread _) fun b => ?_
  split
  · exact respects_fail
  · exact respects_pure _

theorem respects_dirAdd (dir : ℕ) (name : Path) (ino : ℕ) (type : UInt8) :
    Respects Stays (dirAdd dir name ino type) := by
  refine .bind (respects_require _) fun _ => .bind (respects_inodeGet _) fun n => .bind (respects_require _) fun _ =>
    .bind (respects_bread _) fun b => ?_
  split
  · exact respects_fail
  · exact respects_bwrite _ _

theorem respects_makeDir (parent : ℕ) (name : Path) : Respects Stays (makeDir parent name) := by
  refine .bind respects_allocInode.recover fun ino => .bind respects_allocBlock.recover fun blk => ?_
  split
  · refine .bind (respects_bwrite _ _) fun _ => .bind (respects_inodePut _ _) fun _ =>
      .bind (respects_dirAdd _ _ _ _) fun _ => .bind (respects_counters _ _ _) fun _ =>
      .bind (respects_inodeGet _).recover fun n => ?_
    split
    · exact .bind (respects_inodePut _ _).recover fun _ => respects_pure _
    · exact respects_pure _
  · exact respects_fail

theorem respects_walkFrom (create : Bool) : ∀ (names : List Path) (cur : ℕ), Respects Stays (walkFrom create cur names)
  | [], cur => respects_pure _
  | [name], cur => .bind (respects_dirFind _ _).recover fun _ => respects_pure _
  | name :: name' :: names, cur => by
    rw [walkFrom]
    refine .bind (respects_dirFind _ _).recover fun found => ?_
    split
    · exact respects_walkFrom create (name' :: names) _
    · split
      · exact .bind (respects_makeDir _ _) fun next => respects_walkFrom create (name' :: names) next
      · exact respects_fail

theorem respects_walk (create : Bool) (path : Path) : Respects Stays (walk create path) := respects_walkFrom create _ _

theorem respects_locate (path : Path) : Respects Stays (locate path) :=
  .bind (respects_walk _ _) fun _ => .bind (respects_require _) fun _ => respects_pure _

/-! ### Files -/

theorem respects_releaseAll : ∀ blks : List ℕ, Respects Stays (releaseAll blks)
  | [] => respects_pure _
  | blk :: blks => by
    rw [releaseAll]
    split
    · exact .bind (respects_freeBit _ _ _).recover fun _ => .bind (respects_releaseAll blks) fun _ => respects_pure _
    · exact respects_releaseAll blks

theorem respects_releaseBlocks (n : Inode) : Respects Stays (releaseBlocks n) := by
  refine .bind (respects_releaseAll _) fun direct => ?_
  split
  · refine .bind (respects_bread _).recover fun indirect => ?_
    split
    · exact .bind (respects_pure _) fun _ => .bind (respects_freeBit _ _ _).recover fun _ => respects_pure _
    · exact .bind (respects_releaseAll _) fun _ => .bind (respects_freeBit _ _ _).recover fun _ => respects_pure _
  · exact respects_pure _

theorem respects_ensureIndirect (n : Inode) (indirect : ByteMem) (blk : ℕ) :
    Respects Stays (ensureIndirect n indirect blk) := by
  rw [ensureIndirect]
  split
  · exact respects_pure _
  · refine .bind respects_allocBlock.recover fun ind => ?_
    split
    · exact .bind (respects_freeBit _ _ _).recover fun _ => respects_pure _
    · exact .bind (respects_bwrite _ _).recover fun _ => respects_pure _

theorem respects_attach (n : Inode) (indirect : ByteMem) (index blk : ℕ) :
    Respects Stays (attach n indirect index blk) := by
  rw [attach]
  split
  · exact respects_pure _
  · refine .bind (respects_ensureIndirect _ _ _) fun r => ?_
    split
    split
    · exact .bind (respects_bwrite _ _).recover fun _ => respects_pure _
    · exact respects_pure _

theorem respects_writeBlocks : ∀ (contents : List ByteMem) (n : Inode) (indirect : ByteMem) (index : ℕ),
    Respects Stays (writeBlocks n indirect index contents)
  | [], _, _, _ => respects_pure _
  | c :: contents, n, indirect, index => by
    rw [writeBlocks]
    refine .bind respects_allocBlock.recover fun blk => ?_
    split
    · exact respects_pure _
    · refine .bind (respects_attach _ _ _ _) fun r => ?_
      split
      split
      · refine .bind (respects_bwrite _ _).recover fun written => ?_
        split
        · exact respects_pure _
        · exact respects_writeBlocks contents _ _ _
      · exact respects_pure _

theorem respects_writeNewBlocks (n : Inode) (data : ℕ → UInt8) (size : ℕ) :
    Respects Stays (writeNewBlocks n data size) := by
  refine .bind (respects_writeBlocks _ _ _ _) fun r => ?_
  split
  split
  · exact respects_pure _
  · exact .bind (respects_releaseBlocks _) fun _ => respects_fail

theorem respects_finishStore (w : Walked) (old : Option Inode) (ino : ℕ) (next : Inode) :
    Respects Stays (finishStore w old ino next) := by
  cases old with
  | some old => exact .bind (respects_releaseBlocks _) fun _ => respects_pure _
  | none =>
    refine .bind (respects_dirAdd _ _ _ _).recover fun added => ?_
    split
    · exact respects_pure _
    · exact .bind (respects_releaseBlocks _) fun _ => .bind (respects_inodePut _ _).recover fun _ =>
        .bind (respects_freeBit _ _ _).recover fun _ => respects_fail

theorem respects_abandon (old : Option Inode) (ino : ℕ) : Respects Stays (abandon old ino) := by
  rw [abandon]
  split
  · exact .bind (respects_freeBit _ _ _).recover fun _ => respects_fail
  · exact respects_fail

theorem respects_storeInode (w : Walked) (old : Option Inode) (ino : ℕ) (next : Inode) (data : ℕ → UInt8)
    (size : ℕ) : Respects Stays (storeInode w old ino next data size) := by
  refine .bind (respects_writeNewBlocks _ _ _).recover fun next => ?_
  split
  · exact respects_abandon _ _
  · refine .bind (respects_inodePut _ _).recover fun put => ?_
    split
    · exact .bind (respects_releaseBlocks _) fun _ => respects_abandon _ _
    · exact respects_finishStore _ _ _ _

/-! ### Calls -/

theorem respects_ext2Store (path : Path) (data : ℕ → UInt8) (size mode uid gid : ℕ) :
    Respects Stays (ext2Store path data size mode uid gid) := by
  refine .bind (respects_gets _) fun _ => .bind (respects_require _) fun _ => .bind (respects_walk _ _) fun w => ?_
  split
  · exact .bind (respects_inodeGet _) fun _ => .bind (respects_require _) fun _ => respects_storeInode _ _ _ _ _ _
  · exact .bind respects_allocInode fun _ => respects_storeInode _ _ _ _ _ _

theorem respects_ext2Remove (path : Path) : Respects Stays (ext2Remove path) := by
  refine .bind (respects_walk _ _) fun w => .bind (respects_require _) fun _ => .bind (respects_inodeGet _) fun n =>
    .bind (respects_require _) fun _ => .bind (respects_inodeGet _) fun d => .bind (respects_bread _) fun b => ?_
  have hrest : Respects Stays (do
      let ok ← releaseBlocks n
      require (ok = true)
      inodePut w.found zero
      freeBit inodeBitmap w.found true : M Unit) :=
    .bind (respects_releaseBlocks _) fun _ => .bind (respects_require _) fun _ => .bind (respects_inodePut _ _) fun _ =>
      respects_freeBit _ _ _
  split
  · exact .bind (respects_bwrite _ _) fun _ => hrest
  · exact hrest

/-- **No call of the driver writes outside of the partition.** -/
theorem respects_exec (call : Call) : Respects Stays call.exec := by
  cases call with
  | store path data size mode uid gid => exact respects_ext2Store _ _ _ _ _ _
  | remove path => exact respects_ext2Remove path
  | chmod path m => exact .bind (respects_locate _) fun _ => .bind (respects_inodeGet _) fun _ => respects_inodePut _ _
  | chown path u g su sg =>
    exact .bind (respects_locate _) fun _ => .bind (respects_inodeGet _) fun _ => respects_inodePut _ _

/-! ### Formatting -/

/-- From a state in which the volume is where it belongs, by writes to the partition to
another one. -/
def Within (s s' : State) : Prop := s.Placed → s'.Placed ∧ Store.Writes InVar s.disk s'.disk

instance : IsPreorder State Within where
  refl _ hs := ⟨hs, .refl⟩
  trans _ _ _ h h' hs := ⟨(h' (h hs).1).1, (h hs).2.trans (h' (h hs).1).2⟩

theorem Stays.within (h : Stays s s') : Within s s' := fun hs => ⟨h.placed hs, h.writes hs⟩

theorem within_bwrite (n : ℕ) (b : ByteMem) : Respects Within (bwrite n b) :=
  (respects_bwrite n b).mono fun _ _ => Stays.within

theorem within_rd (n : ℕ) : Respects Within (rd n) := respects_gets _

theorem within_wr (hn : n < 16384) (b : ByteMem) : Respects Within (wr n b) :=
  respects_modify fun s hs => ⟨hs, writes_writeAt s.disk hn b⟩

theorem within_zeroBlocks {write : ℕ → ByteMem → M Unit} : ∀ {ns : List ℕ},
    (∀ n ∈ ns, Respects Within (write n zero)) → Respects Within (zeroBlocks write ns)
  | [], _ => respects_pure _
  | n :: _, h => .bind (h n List.mem_cons_self) fun _ =>
      within_zeroBlocks fun m hm => h m (List.mem_cons_of_mem n hm)

theorem within_addJournal : Respects Within addJournal := by
  have hzero : ∀ n ∈ List.range' (journalFirst + 1) (journalBlocks - 1), Respects Within (wr n zero) := by
    intro n hn
    refine within_wr ?_ zero
    have hlt := (List.mem_range'_1.mp hn).2
    rw [journalFirst, journalBlocks] at hlt
    omega
  exact .bind (within_rd _) fun _ => .bind (within_wr (by decide) _) fun _ => .bind (within_rd _) fun _ =>
    .bind (within_wr (by decide) _) fun _ => .bind (within_rd _) fun _ => .bind (within_wr (by decide) _) fun _ =>
    .bind (within_rd _) fun _ => .bind (within_wr (by decide) _) fun _ => .bind (within_wr (by decide) _) fun _ =>
    .bind (within_wr (by decide) _) fun _ => within_zeroBlocks hzero

/-- After the first step of `ext2_format` the volume is where it belongs. -/
theorem within_ext2Format (s : State) :
    (ext2Format.run s).2.Placed ∧ Store.Writes InVar s.disk (ext2Format.run s).2.disk := by
  rw [ext2Format, run_bind_some (run_modify _ s)]
  generalize hs₁ : ({ s with base := Fat.varStart, blocks := Fat.varSectors / 8 } : State) = s₁
  have hplaced : s₁.Placed := by
    rw [← hs₁]
    exact ⟨rfl, le_rfl⟩
  have hdisk : s.disk = s₁.disk := by rw [← hs₁]
  rw [hdisk]
  refine Respects.bind (r := Within) (respects_gets _) (fun blocks => ?_) s₁ hplaced
  refine .bind (respects_require _) fun _ => ?_
  refine .bind (within_bwrite _ _) fun _ => .bind (within_bwrite _ _) fun _ => ?_
  refine .bind (within_bwrite _ _) fun _ => .bind (within_bwrite _ _) fun _ => ?_
  refine .bind (within_zeroBlocks fun n _ => within_bwrite n _) fun _ => ?_
  refine .bind ((respects_inodePut _ _).mono fun _ _ => Stays.within) fun _ => ?_
  refine .bind (within_bwrite _ _).recover fun written => ?_
  exact .bind (respects_modify fun s hs => ⟨hs, .refl⟩) fun _ => respects_require _

/-- **`ext_variant_format` writes the partition only**, wherever the volume was before. -/
theorem writes_extVariantFormat (level : ℕ) (s : State) :
    Store.Writes InVar s.disk ((extVariantFormat level).run s).2.disk := by
  rw [extVariantFormat]
  by_cases hlevel : 2 ≤ level ∧ level ≤ 4
  case neg =>
    rw [run_bind_none (run_require_neg hlevel s)]
    exact .refl
  rw [run_bind_some (run_require_pos hlevel s)]
  obtain ⟨hplaced, hwrites⟩ := within_ext2Format s
  rcases hrun : ext2Format.run s with ⟨_ | u, s₁⟩
  · rw [hrun] at hwrites
    rw [run_bind_none hrun]
    exact hwrites
  rw [hrun] at hplaced hwrites
  rw [run_bind_some hrun]
  have hlast : Respects Within (if level = 4 then do
      let b ← rd 0
      wr 0 (w32 b 1120 (r32 b 1120 ||| 0x40)) else pure () : M Unit) := by
    split
    · exact .bind (within_rd _) fun _ => within_wr (by decide) _
    · exact respects_pure _
  by_cases hthree : level ≥ 3
  · rw [if_pos hthree]
    obtain ⟨hplaced₂, hwrites₂⟩ := within_addJournal s₁ hplaced
    rcases hjournal : addJournal.run s₁ with ⟨_ | u, s₂⟩
    · rw [hjournal] at hwrites₂
      rw [run_bind_none hjournal]
      exact hwrites.trans hwrites₂
    · rw [hjournal] at hplaced₂ hwrites₂
      rw [run_bind_some hjournal]
      exact (hwrites.trans hwrites₂).trans (hlast s₂ hplaced₂).2
  · rw [if_neg hthree]
    exact hwrites.trans (hlast s₁ hplaced).2

end OS64.Ext2
