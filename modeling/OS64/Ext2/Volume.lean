import OS64.Ext2.Records
import OS64.Ext2.Inodes
import OS64.Lib.Pointers
import OS64.Lib.Tree

/-!
# Sound volumes

What holds of the tables of a volume between two calls, and, with the blocks that
the driver holds in memory meanwhile, within one:

* **the blocks are owned** (`OS64.Ext2.Owned`): whatever a pointer leads to is a
  block of the data region whose bit is set, and no two pointers lead to the same
  block; the pointers are those of all inodes and those held in memory;
* **the directories are a tree** (`OS64.Ext2.Sound.tree`), in the sense of
  `Tree.IsTree`, with `.` and `..` as its special names and inode 2 as the root, and
  tell files from directories (`OS64.Ext2.View.Kinds`);
* **the files are whole** (`OS64.Ext2.Sound.whole`): there is a block for every byte
  below the size.

The second part of this file goes through the changes a driver makes, one table at
a time, and says what becomes of a sound volume.
-/

namespace OS64

namespace Ext2

open Function ByteMem Bits Pointers List
open Sum (inl inr)
open Tree (Dirs Plain)

namespace View

variable (v : View)

/-- The pointers of inode `i`. -/
def ptr (i k : ℕ) : ℕ := pointer v.data (v.inode i) k

/-- Inode `i` is in use. -/
def Used (i : ℕ) : Prop := 1 ≤ i ∧ i ≤ 8192 ∧ v.inodeBit (i - 1) = true

/-- Inode `i` is a directory. -/
def IsDir (i : ℕ) : Prop := (v.inode i).isDir = true

/-- The entry of a directory. -/
def look (d : ℕ) (name : Path) : Option ℕ :=
  if (v.inode d).isDir then dirSearch (v.data ((v.inode d).block 0)) name else none

/-- The table of directories. -/
def dirs : Tree.Dirs ℕ Path := ⟨v.Used, v.IsDir, v.look⟩

theorem ptr_of_lt {i k : ℕ} (h : k < 13) : v.ptr i k = (v.inode i).block k := pointer_of_lt h

end View

/-- The names `.` and `..`. -/
abbrev dotName : Path := [46]

/-- The name `..`. -/
abbrev dotdotName : Path := [46, 46]

/-- Every pointer, of an inode or held in memory, owns its block. -/
structure Owned (v : View) (P : ℕ → ℕ) : Prop where
  exclusive : Exclusive (all v.ptr P)
  allocated : ∀ x, all v.ptr P x ≠ 0 →
    260 ≤ all v.ptr P x ∧ all v.ptr P x < 16384 ∧ v.blockBit (all v.ptr P x) = true

/-- The kinds in some entries are those of the inodes. -/
def View.Kinds (v : View) (es : List Entry) : Prop :=
  ∀ e ∈ es, Tree.Plain dotName dotdotName e.name → (e.kind = 2 ↔ v.IsDir e.ino)

/-- A sound volume, while `P` is held in memory. -/
structure Sound (v : View) (P : ℕ → ℕ) : Prop extends Owned v P where
  unused : ∀ i, ¬v.Used i → v.inode i = zero
  listing : ∀ d, v.IsDir d → v.ptr d 0 ≠ 0 ∧ ∃ es, Listing (v.data (v.ptr d 0)) es ∧ v.Kinds es
  tree : Tree.IsTree dotName dotdotName rootIno v.dirs
  whole : ∀ i, ¬v.IsDir i → (v.inode i).size ≤ maxFileSize ∧
    ∀ j, j * 4096 < (v.inode i).size → v.ptr i (place j) ≠ 0

variable {v v' : View} {P : ℕ → ℕ}

variable {i k d j : ℕ} {es : List Entry} {n : Inode}

theorem Sound.ptr_allocated (h : Sound v P) (hne : v.ptr i k ≠ 0) :
    260 ≤ v.ptr i k ∧ v.ptr i k < 16384 ∧ v.blockBit (v.ptr i k) = true :=
  h.allocated (inl (i, k)) hne

theorem Sound.held_allocated (h : Sound v P) (hne : P k ≠ 0) : 260 ≤ P k ∧ P k < 16384 ∧ v.blockBit (P k) = true :=
  h.allocated (inr k) hne

/-- The entries of a directory. -/
theorem View.look_iff (hd : v.IsDir d) (hes : Listing (v.data (v.ptr d 0)) es) {name : Path} :
    v.look d name = some i ↔ ∃ e ∈ es, e.name = name ∧ e.ino = i := by
  rw [View.IsDir] at hd
  rw [View.look, if_pos hd, ← v.ptr_of_lt (by decide), hes.dirSearch]

theorem View.look_of_mem (hd : v.IsDir d)
    (hes : Listing (v.data (v.ptr d 0)) es) {e : Entry} (he : e ∈ es) : v.look d e.name = some e.ino :=
  (View.look_iff hd hes).2 ⟨e, he, rfl, rfl⟩

theorem View.look_of_not_isDir (hd : ¬v.IsDir d) (name : Path) : v.look d name = none := if_neg hd

/-! ### Changes that touch nothing -/

/-- The inodes are the same, and so is every block that one of them points to. -/
structure Untouched (v v' : View) : Prop where
  inode : v'.inode = v.inode
  inodeBit : v'.inodeBit = v.inodeBit
  data : ∀ i k, v.ptr i k ≠ 0 → v'.data (v.ptr i k) = v.data (v.ptr i k)

namespace Untouched

theorem refl (v : View) : Untouched v v := ⟨rfl, rfl, fun _ _ _ => rfl⟩

variable (h : Untouched v v')

include h

theorem ptr : v'.ptr = v.ptr := by
  funext i k
  rw [View.ptr, h.inode]
  refine congrFun (pointer_congr_data fun hne => ?_) k
  exact h.data i 12 hne

theorem trans {v'' : View} (h' : Untouched v' v'') : Untouched v v'' where
  inode := h'.inode.trans h.inode
  inodeBit := h'.inodeBit.trans h.inodeBit
  data i k hne := by
    have hne' : v'.ptr i k ≠ 0 := by rwa [h.ptr]
    have hdata := h'.data i k hne'
    rw [h.ptr] at hdata
    rw [hdata, h.data i k hne]

theorem dirs (hs : Sound v P) : v'.dirs = v.dirs := by
  have hused : v'.Used = v.Used := by
    funext i
    rw [View.Used, View.Used, h.inodeBit]
  have hdir : v'.IsDir = v.IsDir := by
    funext i
    rw [View.IsDir, View.IsDir, h.inode]
  have hlook : v'.look = v.look := by
    funext d name
    rw [View.look, View.look, h.inode]
    by_cases hd : (v.inode d).isDir = true
    · have hne := (hs.listing d hd).1
      have hdata := h.data d 0 hne
      rw [v.ptr_of_lt (by decide)] at hdata
      rw [if_pos hd, if_pos hd, hdata]
    · rw [if_neg hd, if_neg hd]
  rw [View.dirs, View.dirs, hused, hdir, hlook]

/-- **The volume is sound** afterwards if its blocks are owned. -/
theorem sound {P' : ℕ → ℕ} (hs : Sound v P) (ho : Owned v' P') : Sound v' P' := by
  have hdirs := h.dirs hs
  have hused : v'.Used = v.Used := congrArg Dirs.used hdirs
  have hdir : v'.IsDir = v.IsDir := congrArg Dirs.dir hdirs
  refine ⟨ho, ?_, ?_, ?_, ?_⟩
  · intro i hi
    rw [h.inode]
    exact hs.unused i (by rwa [← hused])
  · intro d hd
    rw [hdir] at hd
    obtain ⟨hne, es, hes, hkinds⟩ := hs.listing d hd
    refine ⟨by rwa [h.ptr], es, ?_, ?_⟩
    · rw [h.ptr, h.data d 0 hne]
      exact hes
    · rw [View.Kinds, hdir]
      exact hkinds
  · rw [hdirs]
    exact hs.tree
  · intro i hi
    rw [hdir] at hi
    rw [h.ptr, h.inode]
    exact hs.whole i hi

end Untouched

/-! ### Blocks -/

/-- The view with the blocks that `P` points to given back. -/
def View.release (v : View) (P : ℕ → ℕ) : View :=
  v.withBlockBits fun b => v.blockBit b && !decide (b ≠ 0 ∧ b ∈ (range 1037).map P)

theorem untouched_withBlockBits (v : View) (bits : ℕ → Bool) : Untouched v (v.withBlockBits bits) :=
  ⟨rfl, rfl, fun _ _ _ => rfl⟩

/-- **A block is taken**: one that is free, to be held at a place in memory that
is. -/
theorem Sound.takeBlock (h : Sound v P) {b k : ℕ} (hb : 260 ≤ b) (hb' : b < 16384)
    (hfree : v.blockBit b = false) : Sound (v.setBlockBit b true) (update P k b) := by
  have hne : ∀ x, all v.ptr P x ≠ b := by
    intro x heq
    have hbit := (h.allocated x (by omega)).2.2
    rw [heq, hfree] at hbit
    exact Bool.noConfusion hbit
  refine (untouched_withBlockBits v _).sound h ⟨?_, ?_⟩
  · exact h.exclusive.updateMem (fun _ i j => hne (inl (i, j))) fun _ j _ => hne (inr j)
  · -- a pointer leads to the new block or to one that was in use before
    have hbit : ∀ c, 260 ≤ c ∧ c < 16384 ∧ v.blockBit c = true →
        260 ≤ c ∧ c < 16384 ∧ (v.setBlockBit b true).blockBit c = true := by
      rintro c ⟨hc, hc', hset⟩
      refine ⟨hc, hc', ?_⟩
      change update v.blockBit b true c = true
      rw [update_apply, hset, ite_self]
    rintro (⟨i, j⟩ | j) hx
    · exact hbit _ (h.allocated (inl (i, j)) hx)
    · by_cases hj : j = k
      · subst hj
        rw [all_inr, update_self]
        exact ⟨hb, hb', update_self _ _ _⟩
      · rw [all_inr, update_of_ne hj] at hx ⊢
        exact hbit _ (h.allocated (inr j) hx)

/-- **A block in memory is written.** -/
theorem Sound.untouched_setData (h : Sound v P) (hne : P k ≠ 0) (c : ByteMem) : Untouched v (v.setData (P k) c) :=
  ⟨rfl, rfl, fun _ _ _ => update_of_ne (h.exclusive.ptr_ne_mem hne) _ _⟩

theorem Sound.setData (h : Sound v P) (hne : P k ≠ 0) (c : ByteMem) : Sound (v.setData (P k) c) P := by
  have hu := h.untouched_setData hne c
  refine hu.sound h ⟨?_, ?_⟩
  · rw [hu.ptr]
    exact h.exclusive
  · rw [hu.ptr]
    exact h.allocated

/-- **A block in memory is given back.** -/
theorem Sound.freeBlock (h : Sound v P) (hne : P k ≠ 0) : Sound (v.setBlockBit (P k) false) (update P k 0) := by
  refine (untouched_withBlockBits v _).sound h ⟨?_, ?_⟩
  · exact h.exclusive.updateMem (fun hzero => absurd rfl hzero) fun hzero => absurd rfl hzero
  · have hbit : ∀ x, all v.ptr P x ≠ 0 → x ≠ inr k → 260 ≤ all v.ptr P x ∧ all v.ptr P x < 16384 ∧
        (v.setBlockBit (P k) false).blockBit (all v.ptr P x) = true := by
      intro x hx hxk
      obtain ⟨hb, hb', hset⟩ := h.allocated x hx
      refine ⟨hb, hb', ?_⟩
      change update v.blockBit (P k) false (all v.ptr P x) = true
      have hne' : all v.ptr P x ≠ P k := fun heq => hxk (h.exclusive x (inr k) heq hx)
      rw [update_of_ne hne', hset]
    rintro (⟨i, j⟩ | j) hx
    · exact hbit (inl (i, j)) hx (by simp)
    · by_cases hj : j = k
      · subst hj
        exact absurd (update_self j 0 P) hx
      · rw [all_inr, update_of_ne hj] at hx ⊢
        exact hbit (inr j) hx (by simpa using hj)

/-- **All blocks in memory are given back.** -/
theorem Sound.release (h : Sound v P) : Sound (v.release P) fun _ => 0 := by
  refine (untouched_withBlockBits v _).sound h ⟨?_, ?_⟩
  · rintro (⟨i, j⟩ | j) (⟨i', j'⟩ | j') heq hne
    · exact congrArg inl (Prod.ext_iff.2 (h.exclusive.ptr_inj heq hne))
    · exact absurd heq hne
    · exact absurd rfl hne
    · exact absurd rfl hne
  · rintro (⟨i, j⟩ | j) hx
    · obtain ⟨hb, hb', hset⟩ := h.allocated (inl (i, j)) hx
      refine ⟨hb, hb', ?_⟩
      have hkeep : ¬(v.ptr i j ≠ 0 ∧ v.ptr i j ∈ (range 1037).map P) := by
        rintro ⟨hne, hmem⟩
        obtain ⟨k, -, hk⟩ := mem_map.1 hmem
        exact h.exclusive.ptr_ne_mem (hk ▸ hne) hk.symm
      change (v.blockBit (v.ptr i j) && !decide (v.ptr i j ≠ 0 ∧ v.ptr i j ∈ (range 1037).map P)) = true
      rw [decide_eq_false hkeep]
      simpa using hset
    · exact absurd rfl hx

/-! ### Inodes -/

theorem inode_setInode_self (v : View) (i : ℕ) (n : Inode) : (v.setInode i n).inode i = n := by
  change update v.inode i n i = n
  rw [update_self]

theorem inode_setInode_of_ne (v : View) (h : j ≠ i) (n : Inode) : (v.setInode i n).inode j = v.inode j := by
  change update v.inode i n j = v.inode j
  rw [update_of_ne h]

/-- Another record for inode `i` has other pointers. -/
theorem ptr_setInode (v : View) (i : ℕ) (n : Inode) : (v.setInode i n).ptr = update v.ptr i (pointer v.data n) := by
  funext j k
  rw [View.ptr]
  by_cases hj : j = i
  · subst hj
    rw [inode_setInode_self, update_self]
    rfl
  · rw [inode_setInode_of_ne v hj, update_of_ne hj]
    rfl

/-- The blocks of a record that is put in the place of another one: those of the
new one are no longer held in memory, and those of the old one are. -/
theorem Owned.setInode (h : Owned v P) (hn : pointer v.data n = P) : Owned (v.setInode i n) (v.ptr i) := by
  have hall : ∀ x, ∃ y, all (v.setInode i n).ptr (v.ptr i) x = all v.ptr P y := by
    rintro (⟨j, k⟩ | k)
    · by_cases hj : j = i
      · refine ⟨inr k, ?_⟩
        rw [all_inl, ptr_setInode, hj, update_self, hn]
        rfl
      · refine ⟨inl (j, k), ?_⟩
        rw [all_inl, ptr_setInode, update_of_ne hj]
        rfl
    · exact ⟨inl (i, k), rfl⟩
  refine ⟨?_, ?_⟩
  · rw [ptr_setInode, hn]
    exact h.exclusive.swap i
  · intro x hx
    obtain ⟨y, hy⟩ := hall x
    rw [hy] at hx ⊢
    exact h.allocated y hx

section

variable (h : Sound v P)
include h

/-- The parts of `Sound` about one inode, when the record of another one is put in
place. -/
theorem Sound.listing_setInode (hd : (v.setInode i n).IsDir d)
    (hne : d ≠ i) (hkind : ∀ name j, v.look d name = some j → Plain dotName dotdotName name →
      ((v.setInode i n).IsDir j ↔ v.IsDir j)) : (v.setInode i n).ptr d 0 ≠ 0 ∧
      ∃ es, Listing ((v.setInode i n).data ((v.setInode i n).ptr d 0)) es ∧ (v.setInode i n).Kinds es := by
  rw [View.IsDir, inode_setInode_of_ne v hne] at hd
  rw [ptr_setInode, update_of_ne hne]
  obtain ⟨hptr, es, hes, hkinds⟩ := h.listing d hd
  refine ⟨hptr, es, hes, fun e he hplain => ?_⟩
  rw [hkinds e he hplain, hkind e.name e.ino (View.look_of_mem hd hes he) hplain]

theorem Sound.whole_setInode (hj : ¬(v.setInode i n).IsDir j)
    (hne : j ≠ i) : ((v.setInode i n).inode j).size ≤ maxFileSize ∧
      ∀ k, k * 4096 < ((v.setInode i n).inode j).size → (v.setInode i n).ptr j (place k) ≠ 0 := by
  rw [View.IsDir, inode_setInode_of_ne v hne] at hj
  rw [ptr_setInode, update_of_ne hne, inode_setInode_of_ne v hne]
  exact h.whole j hj

theorem Sound.unused_setInode (hi : v.Used i) (j : ℕ)
    (hj : ¬(v.setInode i n).Used j) : (v.setInode i n).inode j = zero := by
  have hne : j ≠ i := fun heq => hj (heq ▸ hi)
  rw [inode_setInode_of_ne v hne]
  exact h.unused j hj

/-- **The record of a file is put in place**, with the blocks held in memory. -/
theorem Sound.putFile (hi : v.Used i) (hold : ¬v.IsDir i)
    (hn : pointer v.data n = P) (hfile : n.isDir = false) (hsize : n.size ≤ maxFileSize)
    (hwhole : ∀ j, j * 4096 < n.size → P (place j) ≠ 0) :
    Sound (v.setInode i n) (v.ptr i) ∧ (v.setInode i n).dirs = v.dirs := by
  have hdir : (v.setInode i n).IsDir = v.IsDir := by
    funext j
    by_cases hj : j = i
    · subst hj
      rw [View.IsDir, inode_setInode_self, hfile]
      exact propext (iff_of_false Bool.false_ne_true hold)
    · rw [View.IsDir, View.IsDir, inode_setInode_of_ne v hj]
  have hlook : (v.setInode i n).look = v.look := by
    funext d name
    by_cases hd : d = i
    · subst hd
      rw [View.look_of_not_isDir hold, View.look_of_not_isDir (by rwa [hdir])]
    · rw [View.look, View.look, inode_setInode_of_ne v hd]
      rfl
  have hdirs : (v.setInode i n).dirs = v.dirs := by
    rw [View.dirs, hdir, hlook]
    rfl
  refine ⟨⟨h.toOwned.setInode hn, h.unused_setInode hi, ?_, ?_, ?_⟩, hdirs⟩
  · intro d hd
    refine h.listing_setInode hd (fun heq => hold (by rwa [heq, hdir] at hd)) fun _ _ _ _ => ?_
    rw [hdir]
  · rw [hdirs]
    exact h.tree
  · intro j hj
    by_cases hne : j = i
    · subst hne
      rw [inode_setInode_self, ptr_setInode, update_self, hn]
      exact ⟨hsize, hwhole⟩
    · exact h.whole_setInode hj hne

/-- **The record of a new directory is put in place.** -/
theorem Sound.putDirectory {i p : ℕ} (hi : v.Used i) (hroot : i ≠ rootIno) (hold : ¬v.IsDir i)
    (hnew : ∀ d name, Plain dotName dotdotName name → v.look d name ≠ some i)
    (hn : pointer v.data n = P) (hdir : n.isDir = true) (hblock : n.block 0 ≠ 0)
    (hes : Listing (v.data (n.block 0)) [⟨dotName, i, 2⟩, ⟨dotdotName, p, 2⟩]) :
    Sound (v.setInode i n) (v.ptr i) ∧ (v.setInode i n).dirs = v.dirs.mkdir dotName dotdotName i p := by
  have hself : (v.setInode i n).IsDir i := by
    rw [View.IsDir, inode_setInode_self]
    exact hdir
  have hptr : (v.setInode i n).ptr i 0 = n.block 0 := by
    rw [View.ptr_of_lt _ (by decide), inode_setInode_self]
  have hes' : Listing ((v.setInode i n).data ((v.setInode i n).ptr i 0)) [⟨dotName, i, 2⟩, ⟨dotdotName, p, 2⟩] := by
    rw [hptr]
    exact hes
  have hdirs : (v.setInode i n).dirs = v.dirs.mkdir dotName dotdotName i p := by
    have hdirs' : (v.setInode i n).IsDir = fun j => j = i ∨ v.IsDir j := by
      funext j
      by_cases hj : j = i
      · exact propext (iff_of_true (hj ▸ hself) (.inl hj))
      · rw [View.IsDir, inode_setInode_of_ne v hj]
        exact propext (or_iff_right hj).symm
    have hlook : (v.setInode i n).look = (v.dirs.mkdir dotName dotdotName i p).look := by
      funext d name
      by_cases hd : d = i
      · subst hd
        ext j
        rw [View.look_iff hself hes']
        simp only [Dirs.mkdir, if_true, mem_cons, not_mem_nil, or_false, exists_eq_or_imp, exists_eq_left]
        by_cases hdot : name = dotName
        · simp [hdot, eq_comm]
        · by_cases hdotdot : name = dotdotName
          · simp [hdotdot, eq_comm]
          · simp [hdot, hdotdot, Ne.symm hdot, Ne.symm hdotdot]
      · rw [View.look, inode_setInode_of_ne v hd]
        exact (if_neg hd).symm
    rw [View.dirs, hdirs', hlook]
    rfl
  refine ⟨⟨h.toOwned.setInode hn, h.unused_setInode hi, ?_, ?_, ?_⟩, hdirs⟩
  · intro d hd
    by_cases hne : d = i
    · subst hne
      refine ⟨by rwa [hptr], _, hes', fun e he hplain => ?_⟩
      rcases mem_cons.1 he with rfl | he
      · exact absurd rfl hplain.1
      · rw [mem_singleton.1 he] at hplain
        exact absurd rfl hplain.2
    · refine h.listing_setInode hd hne fun name j hlook hplain => ?_
      have hj : j ≠ i := fun heq => hnew d name hplain (heq ▸ hlook)
      rw [View.IsDir, inode_setInode_of_ne v hj]
      exact Iff.rfl
  · rw [hdirs]
    exact h.tree.mkdir (by decide) hi hroot hold hnew
  · intro j hj
    exact h.whole_setInode hj fun heq => hj (heq ▸ hself)

/-- **Attributes are assigned**: neither the kind, the size nor the blocks. -/
theorem Sound.putAttributes (hi : v.Used i)
    (hblock : ∀ k < 13, n.block k = (v.inode i).block k) (hdir : n.isDir = (v.inode i).isDir)
    (hsize : n.size = (v.inode i).size) :
    Sound (v.setInode i n) P ∧ (v.setInode i n).dirs = v.dirs ∧ (v.setInode i n).ptr = v.ptr := by
  have hptr : (v.setInode i n).ptr = v.ptr := by
    rw [ptr_setInode, pointer_congr hblock]
    exact update_eq_self i v.ptr
  have hdirs : (v.setInode i n).dirs = v.dirs := by
    have hdir' : ∀ j, ((v.setInode i n).inode j).isDir = (v.inode j).isDir := by
      intro j
      by_cases hj : j = i
      · rw [hj, inode_setInode_self, hdir]
      · rw [inode_setInode_of_ne v hj]
    have hblock' : ∀ j, ((v.setInode i n).inode j).block 0 = (v.inode j).block 0 := by
      intro j
      rw [← View.ptr_of_lt _ (by decide), hptr, View.ptr_of_lt _ (by decide)]
    have hlook : (v.setInode i n).look = v.look := by
      funext d name
      rw [View.look, View.look, hdir', hblock']
      rfl
    have hisDir : (v.setInode i n).IsDir = v.IsDir := by
      funext j
      rw [View.IsDir, View.IsDir, hdir']
    rw [View.dirs, hisDir, hlook]
    rfl
  have hisDir : (v.setInode i n).IsDir = v.IsDir := congrArg Dirs.dir hdirs
  refine ⟨⟨⟨?_, ?_⟩, h.unused_setInode hi, ?_, ?_, ?_⟩, hdirs, hptr⟩
  · rw [hptr]
    exact h.exclusive
  · rw [hptr]
    exact h.allocated
  · intro d hd
    rw [hisDir] at hd
    obtain ⟨hne, es, hes, hkinds⟩ := h.listing d hd
    refine ⟨by rwa [hptr], es, by rwa [hptr], ?_⟩
    rw [View.Kinds, hisDir]
    exact hkinds
  · rw [hdirs]
    exact h.tree
  · intro j hj
    rw [hisDir] at hj
    rw [hptr]
    by_cases hne : j = i
    · subst hne
      rw [inode_setInode_self, hsize]
      exact h.whole j hj
    · rw [inode_setInode_of_ne v hne]
      exact h.whole j hj

/-- **The inode bitmap changes**, but not for what has a name or is a directory. -/
theorem Sound.withInodeBits {bits : ℕ → Bool} (hunused : ∀ i, ¬(v.withInodeBits bits).Used i → v.inode i = zero)
    (hdir : ∀ d, v.IsDir d → (v.withInodeBits bits).Used d)
    (hnamed : ∀ d name i, v.look d name = some i → Plain dotName dotdotName name →
      (v.withInodeBits bits).Used i) : Sound (v.withInodeBits bits) P where
  exclusive := h.exclusive
  allocated := h.allocated
  unused := hunused
  listing := h.listing
  tree := h.tree.withUsed hdir hnamed
  whole := h.whole

end

theorem used_setInodeBit (v : View) (hi : 1 ≤ i) (x : Bool) (j : ℕ) :
    (v.setInodeBit i x).Used j ↔ if j = i then i ≤ 8192 ∧ x = true else v.Used j := by
  change (1 ≤ j ∧ j ≤ 8192 ∧ update v.inodeBit (i - 1) x (j - 1) = true) ↔ _
  by_cases hj : j = i
  · subst hj
    rw [if_pos rfl, update_self]
    exact and_iff_right hi
  · rw [if_neg hj]
    refine and_congr_right fun hj' => ?_
    rw [update_of_ne (by omega)]

/-- **An inode is taken.** -/
theorem Sound.takeInode (h : Sound v P) (hi : 1 ≤ i) (hi' : i ≤ 8192) : Sound (v.setInodeBit i true) P := by
  have hused : ∀ j, v.Used j → (v.setInodeBit i true).Used j := by
    intro j hj
    rw [used_setInodeBit v hi]
    split_ifs
    · exact ⟨hi', rfl⟩
    · exact hj
  exact h.withInodeBits (fun j hj => h.unused j fun hj' => hj (hused j hj'))
    (fun d hd => hused d (h.tree.dir_used hd)) fun d name j hlook hn => hused j (h.tree.named hlook hn).1

/-- **An inode is given back**, one that has been cleared and has no name. -/
theorem Sound.freeInode (h : Sound v P) (hi : 1 ≤ i) (hzero : v.inode i = zero)
    (hnew : ∀ d name, Plain dotName dotdotName name → v.look d name ≠ some i) :
    Sound (v.setInodeBit i false) P := by
  have hused : ∀ j, j ≠ i → v.Used j → (v.setInodeBit i false).Used j := by
    intro j hj hu
    rwa [used_setInodeBit v hi, if_neg hj]
  refine h.withInodeBits ?_ ?_ ?_
  · intro j hj
    by_cases hne : j = i
    · rw [hne, hzero]
    · exact h.unused j fun hu => hj (hused j hne hu)
  · intro d hd
    refine hused d (fun heq => ?_) (h.tree.dir_used hd)
    rw [View.IsDir, heq, hzero] at hd
    exact Bool.noConfusion hd
  · intro d name j hlook hn
    exact hused j (fun heq => hnew d name hn (heq ▸ hlook)) (h.tree.named hlook hn).1

/-! ### First blocks -/

section First

variable (h : Sound v P) {d : ℕ} (hfirst : v.ptr d 0 ≠ 0)

include h hfirst

variable {i k : ℕ}

/-- The first block of an inode is not one that another pointer leads to. -/
theorem Sound.ptr_ne_first (hne : ¬(i = d ∧ k = 0)) : v.ptr i k ≠ v.ptr d 0 :=
  fun heq => hne (h.exclusive.ptr_inj heq (heq ▸ hfirst))

theorem Sound.ptr_setFirst (c : ByteMem) : (v.setData (v.ptr d 0) c).ptr = v.ptr := by
  funext i k
  refine congrFun (pointer_congr_data fun _ => ?_) k
  change update v.data (v.ptr d 0) c _ = _
  rw [update_of_ne]
  change (v.inode i).block 12 ≠ v.ptr d 0
  rw [← v.ptr_of_lt (by decide)]
  exact h.ptr_ne_first hfirst fun heq => absurd heq.2 (by decide)

theorem Sound.data_setFirst (c : ByteMem) (hne : ¬(i = d ∧ k = 0)) :
    (v.setData (v.ptr d 0) c).data (v.ptr i k) = v.data (v.ptr i k) := by
  change update v.data (v.ptr d 0) c _ = _
  rw [update_of_ne (h.ptr_ne_first hfirst hne)]

omit h hfirst in
theorem data_setFirst_self (v : View) (d : ℕ) (c : ByteMem) : (v.setData (v.ptr d 0) c).data (v.ptr d 0) = c := by
  change update v.data (v.ptr d 0) c _ = _
  rw [update_self]

/-- The entries of the other directories are the same. -/
theorem Sound.look_setFirst (c : ByteMem) {d' : ℕ} (hd' : d' ≠ d) : (v.setData (v.ptr d 0) c).look d' = v.look d' := by
  funext name
  rw [View.look, View.look]
  change (if (v.inode d').isDir = true then _ else none) = _
  by_cases hdir : (v.inode d').isDir = true
  · have hblock := h.data_setFirst hfirst c (k := 0) fun heq => hd' heq.1
    rw [if_pos hdir, if_pos hdir]
    exact congrArg (dirSearch · name) hblock
  · rw [if_neg hdir, if_neg hdir]

/-- **The first block of a file is written**, whatever with. -/
theorem Sound.setFirst (hfile : ¬v.IsDir d) (c : ByteMem) :
    Sound (v.setData (v.ptr d 0) c) P ∧ (v.setData (v.ptr d 0) c).dirs = v.dirs := by
  have hptr := h.ptr_setFirst hfirst c
  have hlook : (v.setData (v.ptr d 0) c).look = v.look := by
    funext d'
    by_cases hd' : d' = d
    · funext name
      have hfile' : ¬(v.setData (v.ptr d 0) c).IsDir d := hfile
      rw [hd', View.look_of_not_isDir hfile, View.look_of_not_isDir hfile']
    · exact h.look_setFirst hfirst c hd'
  have hdirs : (v.setData (v.ptr d 0) c).dirs = v.dirs := by
    rw [View.dirs, hlook]
    rfl
  refine ⟨⟨⟨?_, ?_⟩, h.unused, ?_, ?_, ?_⟩, hdirs⟩
  · rw [hptr]
    exact h.exclusive
  · rw [hptr]
    exact h.allocated
  · intro d' hd'
    obtain ⟨hne, es, hes, hkinds⟩ := h.listing d' hd'
    have hd : d' ≠ d := fun heq => hfile (heq ▸ hd')
    rw [hptr, h.data_setFirst hfirst c fun heq => hd heq.1]
    exact ⟨hne, es, hes, hkinds⟩
  · rw [hdirs]
    exact h.tree
  · rw [hptr]
    exact h.whole

end First

/-! ### Directories -/

section Directory

variable (h : Sound v P) {d : ℕ} (hd : v.IsDir d)

include h hd

variable {c : ByteMem} {es es' : List Entry}

/-- **The block of a directory is written**, with the entries that make another
tree. -/
theorem Sound.setDirectory (hes : Listing c es) (hkinds : v.Kinds es) (look : ℕ → Path → Option ℕ)
    (hself : ∀ name i, look d name = some i ↔ ∃ e ∈ es, e.name = name ∧ e.ino = i)
    (hother : ∀ d', d' ≠ d → look d' = v.look d')
    (ht : Tree.IsTree dotName dotdotName rootIno { v.dirs with look := look }) :
    Sound (v.setData (v.ptr d 0) c) P ∧ (v.setData (v.ptr d 0) c).dirs = { v.dirs with look := look } := by
  have hfirst := (h.listing d hd).1
  have hptr := h.ptr_setFirst hfirst c
  have hdata := data_setFirst_self v d c
  have hlook : (v.setData (v.ptr d 0) c).look = look := by
    funext d'
    by_cases hd' : d' = d
    · subst hd'
      ext name i
      rw [View.look_iff (v := v.setData (v.ptr d' 0) c) hd (by rw [hptr, hdata]; exact hes), hself]
    · rw [hother d' hd']
      exact h.look_setFirst hfirst c hd'
  have hdirs : (v.setData (v.ptr d 0) c).dirs = { v.dirs with look := look } := by
    rw [View.dirs, hlook]
    rfl
  refine ⟨⟨⟨?_, ?_⟩, h.unused, ?_, ?_, ?_⟩, hdirs⟩
  · rw [hptr]
    exact h.exclusive
  · rw [hptr]
    exact h.allocated
  · intro d' hd'
    rw [hptr]
    obtain ⟨hne, es', hes', hkinds'⟩ := h.listing d' hd'
    refine ⟨hne, ?_⟩
    by_cases heq : d' = d
    · subst heq
      exact ⟨es, by rwa [hdata], hkinds⟩
    · rw [h.data_setFirst hfirst c fun hand => heq hand.1]
      exact ⟨es', hes', hkinds'⟩
  · rw [hdirs]
    exact ht
  · rw [hptr]
    exact h.whole

variable {name : Path} {i : ℕ}

/-- **An entry is added.** -/
theorem Sound.link {kind : UInt8} (hes : Listing (v.data (v.ptr d 0)) es) (hkinds : v.Kinds es) (hc : Listing c es')
    (hmem : ∀ e, e ∈ es' ↔ e ∈ es ∨ e = ⟨name, i, kind⟩) (hkind : kind = 2 ↔ v.IsDir i)
    (hn : Plain dotName dotdotName name) (hnone : v.look d name = none) (hi : v.Used i)
    (hroot : i ≠ rootIno)
    (hnew : ∀ d' name', Plain dotName dotdotName name' → v.look d' name' ≠ some i)
    (hup : v.IsDir i → v.look i dotdotName = some d) :
    Sound (v.setData (v.ptr d 0) c) P ∧ (v.setData (v.ptr d 0) c).dirs = v.dirs.link d name i := by
  have hkinds' : v.Kinds es' := by
    intro e he hplain
    rcases (hmem e).1 he with he | rfl
    · exact hkinds e he hplain
    · exact hkind
  refine h.setDirectory hd hc hkinds' (v.dirs.link d name i).look ?_ ?_
    (h.tree.link hd hn hi hroot hnew hup)
  · intro name' j
    have hold : v.look d name' = some j ↔ ∃ e ∈ es, e.name = name' ∧ e.ino = j := View.look_iff hd hes
    simp only [Dirs.link, true_and]
    by_cases hname : name' = name
    · subst hname
      have hno : ¬∃ e ∈ es, e.name = name' ∧ e.ino = j := by
        rw [← hold, hnone]
        simp
      rw [if_pos rfl]
      constructor
      · intro hij
        exact ⟨⟨name', i, kind⟩, (hmem _).2 (.inr rfl), rfl, Option.some.inj hij⟩
      · rintro ⟨e, he, hename, heino⟩
        rcases (hmem e).1 he with he | rfl
        · exact absurd ⟨e, he, hename, heino⟩ hno
        · exact congrArg some heino
    · rw [if_neg hname]
      refine hold.trans ?_
      constructor
      · rintro ⟨e, he, hename, heino⟩
        exact ⟨e, (hmem e).2 (.inl he), hename, heino⟩
      · rintro ⟨e, he, hename, heino⟩
        rcases (hmem e).1 he with he | rfl
        · exact ⟨e, he, hename, heino⟩
        · exact absurd hename.symm hname
  · intro d' hd'
    funext name'
    exact if_neg fun heq => hd' heq.1

/-- **An entry is taken off.** -/
theorem Sound.unlink {e : Entry} (hes : Listing (v.data (v.ptr d 0)) es) (hkinds : v.Kinds es) (hc : Listing c es')
    (hmem : ∀ e', e' ∈ es' ↔ e' ∈ es ∧ e' ≠ e) (hn : Plain dotName dotdotName e.name) (he : e ∈ es) :
    Sound (v.setData (v.ptr d 0) c) P ∧ (v.setData (v.ptr d 0) c).dirs = v.dirs.unlink d e.name := by
  have hkinds' : v.Kinds es' := fun e' he' => hkinds e' ((hmem e').1 he').1
  refine h.setDirectory hd hc hkinds' (v.dirs.unlink d e.name).look ?_ ?_ (h.tree.unlink hn)
  · intro name' j
    simp only [Dirs.unlink, true_and]
    by_cases hname : name' = e.name
    · rw [if_pos hname]
      refine iff_of_false (by simp) ?_
      rintro ⟨e', he', hename, -⟩
      obtain ⟨he', hne⟩ := (hmem e').1 he'
      exact hne (hes.eq_of_name he' he (hename.trans hname))
    · rw [if_neg hname]
      refine (View.look_iff hd hes).trans ?_
      constructor
      · rintro ⟨e', he', hename, heino⟩
        exact ⟨e', (hmem e').2 ⟨he', fun heq => hname (heq ▸ hename.symm)⟩, hename, heino⟩
      · rintro ⟨e', he', hename, heino⟩
        exact ⟨e', ((hmem e').1 he').1, hename, heino⟩
  · intro d' hd'
    funext name'
    exact if_neg fun heq => hd' heq.1

end Directory

end Ext2

end OS64
