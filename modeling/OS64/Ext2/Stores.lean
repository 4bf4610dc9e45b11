import OS64.Ext2.Operations
import OS64.Ext2.Walks

/-!
# Storing files

`ext2_store` writes all blocks of the new contents before it touches an inode or a
directory, and has an exit for everything that can go wrong from there on. This file
goes through them (`OS64.Ext2.Storing`):

* **a file that exists** gets the new blocks, and its old ones are given back after
  that (`OS64.Ext2.Replaced`); if there are not blocks enough, the volume is what it
  was (`OS64.Ext2.Restored`);
* **a new file** gets an inode, blocks and an entry (`OS64.Ext2.Created`); if one of
  the three is not to be had, the others are given back.

So the end of `ext2_store` leaves nothing behind when it fails. Its beginning, the
walk, is another matter: the directories it has made stay.
-/

namespace OS64.Ext2

open Function ByteMem Bits Fallible Pointers
open Tree (Dirs)

variable {Q : Unit → State → Prop}

variable {v v' : View} {s : State} {E : State → Prop}

/-- Nothing of the tables and of what they point to has changed. -/
structure Restored (v v' : View) : Prop extends Untouched v v' where
  blockBit : v'.blockBit = v.blockBit

theorem Restored.refl (v : View) : Restored v v := ⟨Untouched.refl v, rfl⟩

/-! ### The record is put in place -/

/-- Inode `i` has got a record like `n`, with `size` and blocks for the bytes of
`data`. The blocks that it had before are held in memory. -/
structure Written (v : View) (s : State) (i : ℕ) (n : Inode) (data : ℕ → UInt8) (size : ℕ) : Prop
    extends Regular s where
  sound : Sound s.view (v.ptr i)
  dirs : s.view.dirs = v.dirs
  inodeBit : s.view.inodeBit = v.inodeBit
  same : ∀ {j}, j ≠ i → Same v s.view j
  old : ∀ {k}, v.ptr i k ≠ 0 → s.view.data (v.ptr i k) = v.data (v.ptr i k)
  mode : (s.view.inode i).mode = n.mode
  uid : (s.view.inode i).uid = n.uid
  gid : (s.view.inode i).gid = n.gid
  links : (s.view.inode i).links = n.links
  content : s.view.content i = bytes data 0 size
  fresh : ∀ k, s.view.ptr i k ≠ 0 → v.blockBit (s.view.ptr i k) = false
  bits : ∀ b, s.view.blockBit b = true ↔ v.blockBit b = true ∨ b ≠ 0 ∧ ∃ k, s.view.ptr i k = b
  count : s.view.freeBlocks + demand ((size + 4095) / 4096) = v.freeBlocks
  size : (s.view.inode i).size = size

/-- There is a part of the contents for every block below the size. -/
theorem getElem?_chunks (data : ℕ → UInt8) {size j : ℕ} (h : j * 4096 < size) :
    ∃ c, (chunks data size)[j]? = some c := by
  have hlength : j < (chunks data size).length := by
    rw [chunks, List.length_map, List.length_range]
    omega
  exact ⟨_, List.getElem?_eq_getElem hlength⟩

/-- The record with the new blocks is put in place. -/
theorem Holding.written {m i size : ℕ} {n n' : Inode} {data : ℕ → UInt8} {s₁ s₂ : State}
    (hh : Holding v s₁ (pointer s₁.view.data n') m) (hm : m = demand ((size + 4095) / 4096))
    (hplaced : ∀ j c, (chunks data size)[j]? = some c → pointer s₁.view.data n' (place j) ≠ 0 ∧
      s₁.view.data (pointer s₁.view.data n' (place j)) = clip c)
    (hsame : SameAttr ((n.setSize size).setSectors 0) n') (hsize : size ≤ maxFileSize)
    (hi : v.Used i) (hfile : ¬v.IsDir i) (hdir : n.isDir = false) (hv : Sound v fun _ => 0)
    (hreg : Regular s₂) (hview : s₂.view = s₁.view.setInode i (clipRecord n')) :
    Written v s₂ i n data size := by
  have hlt : size < 2 ^ 32 := by
    rw [maxFileSize] at hsize
    omega
  have hn'size : n'.size = size := by
    rw [hsame.size, Inode.size_setSectors, Inode.size_setSize hlt]
  have hn'mode : n'.mode = n.mode := by rw [hsame.mode, Inode.mode_setSectors, Inode.mode_setSize]
  have hn'dir : n'.isDir = false := (Inode.isDir_congr hn'mode).trans hdir
  have hdirs := hh.untouched.dirs hv
  have hi₁ : s₁.view.Used i := by rwa [View.Used, hh.untouched.inodeBit]
  have hfile₁ : ¬s₁.view.IsDir i := by rwa [View.IsDir, hh.untouched.inode]
  obtain ⟨hsound, hdirs'⟩ := hh.sound.putFile (n := clipRecord n') hi₁ hfile₁ (pointer_clipRecord _ _)
    ((isDir_clipRecord n').trans hn'dir) (by rw [size_clipRecord, hn'size]; exact hsize) fun j hj => by
      rw [size_clipRecord, hn'size] at hj
      obtain ⟨c, hc⟩ := getElem?_chunks data hj
      exact (hplaced j c hc).1
  have hinode : s₂.view.inode i = clipRecord n' := by rw [hview, inode_setInode_self]
  have hptr : s₂.view.ptr i = pointer s₁.view.data n' := by
    rw [hview, ptr_setInode, update_self, pointer_clipRecord]
  have hdata : s₂.view.data = s₁.view.data := by rw [hview]; rfl
  refine ⟨hreg, ?_, ?_, ?_, ?_, ?_, ?_, ?_, ?_, ?_, ?_, ?_, ?_, ?_, ?_⟩
  · rw [hview, ← hh.untouched.ptr]
    exact hsound
  · rw [hview, hdirs', hdirs]
  · rw [hview]
    exact hh.untouched.inodeBit
  · intro j hj
    refine ⟨?_, fun {k} hk => ?_⟩
    · rw [hview, inode_setInode_of_ne _ hj, hh.untouched.inode]
    · rw [hdata]
      exact hh.untouched.data j k hk
  · intro k hk
    rw [hdata]
    exact hh.untouched.data i k hk
  · rw [hinode, mode_clipRecord, hn'mode]
  · rw [hinode, uid_clipRecord, hsame.uid, Inode.uid_setSectors, Inode.uid_setSize]
  · rw [hinode, gid_clipRecord, hsame.gid, Inode.gid_setSectors, Inode.gid_setSize]
  · rw [hinode, links_clipRecord, hsame.links, Inode.links_setSectors, Inode.links_setSize]
  · have hsize₂ : (s₂.view.inode i).size = size := by rw [hinode, size_clipRecord, hn'size]
    rw [← hsize₂]
    refine content_eq fun j c hc => ?_
    rw [hsize₂] at hc
    rw [hptr, hdata]
    exact (hplaced j c hc).2
  · intro k hk
    rw [hptr] at hk ⊢
    exact (hh.fresh k hk).2
  · intro b
    rw [hptr, hview]
    exact hh.bits b
  · rw [← hm, hview]
    exact hh.count
  · rw [hinode, size_clipRecord, hn'size]

variable {i size : ℕ}

/-- **The middle of `ext2_store`**: the blocks are written and the record is put in
place, or there are not blocks enough. -/
theorem Good.wp_storeInode (h : Good s fun _ => 0) (hi : s.view.Used i)
    (hfile : ¬s.view.IsDir i) {n : Inode} (hn : ∀ k < 13, n.block k = 0) (hdir : n.isDir = false)
    (w : Walked) (old : Option Inode) (data : ℕ → UInt8) (hsize : size ≤ maxFileSize)
    (hQ : ∀ next s', Written s.view s' i n data size → pointer s'.view.data next = s'.view.ptr i →
      wp (finishStore w old i next) Q E s')
    (hE : ∀ s', Good s' (fun _ => 0) → Restored s.view s'.view →
      s.view.freeBlocks < demand ((size + 4095) / 4096) → wp (abandon old i) Q E s') :
    wp (storeInode w old i n data size) Q E s := by
  rw [storeInode, wp_bind, wp_recover]
  have hblocks : ∀ k < 13, ((n.setSize size).setSectors 0).block k = 0 := by
    intro k hk
    rw [Inode.block_setSectors, Inode.block_setSize, hn k hk]
  refine h.wp_writeNewBlocks hblocks data hsize ?_ ?_
  · intro n' s₁ hh hplaced hsame
    rw [wp_bind, wp_recover]
    refine wp_inodePut hh.toRegular hi.1 hi.2.1 n' ?_
    intro s₂ hreg hview
    refine hQ n' s₂ (hh.written rfl hplaced hsame hsize hi hfile hdir h.sound hreg hview) ?_
    rw [hview, ptr_setInode, update_self, pointer_clipRecord]
    rfl
  · exact fun s' h' hu hbits hshort => hE s' h' ⟨hu, hbits⟩ hshort

/-! ### A file that exists -/

/-- File `i` has got other contents, and nothing else has changed. -/
structure Replaced (v v' : View) (i : ℕ) (data : ℕ → UInt8) (size : ℕ) : Prop where
  enough : demand ((size + 4095) / 4096) ≤ v.freeBlocks
  dirs : v'.dirs = v.dirs
  same : ∀ {j}, j ≠ i → Same v v' j
  links : (v'.inode i).links = (v.inode i).links
  file : v'.file i = { v.file i with bytes := bytes data 0 size }

/-- **A file that exists** gets the new contents, if there are blocks enough. -/
theorem Good.wp_replace (h : Good s fun _ => 0) (hi : s.view.Used i)
    (hfile : ¬s.view.IsDir i) (w : Walked) (data : ℕ → UInt8) (hsize : size ≤ maxFileSize)
    (hQ : ∀ s', Good s' (fun _ => 0) → Replaced s.view s'.view i data size → Q () s')
    (hE : ∀ s', Good s' (fun _ => 0) → Restored s.view s'.view →
      s.view.freeBlocks < demand ((size + 4095) / 4096) → E s') :
    wp (storeInode w (some (s.view.inode i)) i (s.view.inode i).clearBlocks data size) Q E s := by
  have hmode : (s.view.inode i).clearBlocks.mode = (s.view.inode i).mode :=
    Inode.of_clearBlocks (fun n k => Inode.mode_setBlock n k 0) _
  have hdir : (s.view.inode i).clearBlocks.isDir = false := by
    exact Bool.eq_false_iff.2 hfile
  refine h.wp_storeInode hi hfile (fun k hk => Inode.block_clearBlocks (by omega)) hdir w _ data hsize ?_ hE
  intro next s₁ hw _
  rw [finishStore, wp_bind]
  have hptr : pointer s₁.view.data (s.view.inode i) = s.view.ptr i := by
    -- the old blocks have not been written to
    refine pointer_congr_data fun hne => ?_
    rw [← s.view.ptr_of_lt (by decide)] at hne ⊢
    exact hw.old hne
  refine wp_releaseBlocks hw.toRegular hptr (fun _ hne => hw.sound.held_allocated hne)
    (fun _ _ heq hne => hw.sound.exclusive.mem_inj heq hne) ?_
  intro s₂ hreg hview
  refine hQ s₂ ⟨hreg, ?_⟩ ⟨hw.count ▸ Nat.le_add_left _ _, ?_, ?_, ?_, ?_⟩
  · rw [hview]
    exact hw.sound.release
  · rw [hview]
    exact hw.dirs
  · intro j hj
    rw [hview]
    exact ⟨(hw.same hj).inode, (hw.same hj).data⟩
  · rw [hview]
    exact hw.links.trans (Inode.of_clearBlocks (fun n k => Inode.links_setBlock n k 0) _)
  · have huid : (s.view.inode i).clearBlocks.uid = (s.view.inode i).uid :=
      Inode.of_clearBlocks (fun n k => Inode.uid_setBlock n k 0) _
    have hgid : (s.view.inode i).clearBlocks.gid = (s.view.inode i).gid :=
      Inode.of_clearBlocks (fun n k => Inode.gid_setBlock n k 0) _
    rw [hview]
    change s₁.view.file i = _
    rw [View.file, hw.content, hw.mode, hw.uid, hw.gid, hmode, huid, hgid]
    rfl

/-! ### A new file -/

/-- File `i` is new, with an entry in `d` or, if this is a file, in its first
block. -/
structure Created (v v' : View) (d : ℕ) (leaf : Path) (i : ℕ) (data : ℕ → UInt8) (size mode uid gid : ℕ) :
    Prop where
  free : v.FreeInode i
  count : v'.freeBlocks + demand ((size + 4095) / 4096) = v.freeBlocks
  room : ∃ p, v.room d leaf = some p ∧
    v'.data (v.ptr d 0) = clip (addRecord (v.data (v.ptr d 0)) p leaf i 1)
  dirs_of_directory : v.IsDir d → v'.dirs = (v.dirs.withUsed (v.setInodeBit i true).Used).link d leaf i
  dirs_of_file : ¬v.IsDir d → v'.dirs = v.dirs.withUsed (v.setInodeBit i true).Used
  inode : v'.inode d = v.inode d
  same : ∀ {j}, v.Used j → j ≠ d → Same v v' j
  isFile : ¬v'.IsDir i
  file : v'.file i = ⟨bytes data 0 size, mode &&& 0o777, (fileInode mode uid gid).uid,
    (fileInode mode uid gid).gid⟩

/-- An inode has been taken and is given back. -/
theorem setInodeBit_setInodeBit (hi : v.FreeInode i) {bits : ℕ → Bool}
    (hbits : bits = (v.setInodeBit i true).inodeBit) : update bits (i - 1) false = v.inodeBit := by
  rw [hbits]
  change update (update v.inodeBit (i - 1) true) (i - 1) false = v.inodeBit
  rw [update_idem, ← hi.2.2, update_eq_self]

theorem fileInode_mode_and (mode uid gid : ℕ) : (fileInode mode uid gid).mode &&& 0o777 = mode &&& 0o777 := by
  rw [mode_fileInode, Nat.and_or_distrib_right, show ext2File &&& 0o777 = 0 from rfl, Nat.zero_or,
    Nat.and_assoc, Nat.and_self]

section New

variable {i d : ℕ} {leaf : Path} {data : ℕ → UInt8} {size mode uid gid : ℕ}

section

variable (hw : Written (v.setInodeBit i true) s i (fileInode mode uid gid) data size)
include hw

/-- Where the record of a new file is put in place, the volume is sound. -/
theorem Written.good (hv : Sound v fun _ => 0) (hi : v.FreeInode i) : Good s fun _ => 0 := by
  refine ⟨hw.toRegular, ?_⟩
  have hzero : (v.setInodeBit i true).ptr i = fun _ => 0 := by
    funext k
    change pointer v.data (v.inode i) k = 0
    rw [hv.unused i hi.not_used, pointer_eq_zero fun k _ => block_zero k]
  rw [← hzero]
  exact hw.sound

/-- What is left of a new file when it gets no entry: nothing. -/
theorem Written.restored (hv : Sound v fun _ => 0) (hi : v.FreeInode i) : Restored v (s.view.without i) where
  inode := by
    funext j
    change (s.view.setInode i zero).inode j = v.inode j
    by_cases hj : j = i
    · rw [hj, inode_setInode_self, hv.unused i hi.not_used]
    · rw [inode_setInode_of_ne _ hj]
      exact (hw.same hj).inode
  inodeBit := setInodeBit_setInodeBit hi hw.inodeBit
  data j k hk := by
    have hj : j ≠ i := fun heq => hi.not_used (heq ▸ hv.used_of_ptr hk)
    exact (hw.same hj).data hk
  blockBit := bits_release hw.bits hw.fresh

/-- Other inodes in use are the same as before the inode was taken. -/
theorem Written.spared (hi : v.FreeInode i) : Spared v s.view where
  used {j} hj := (congrFun (congrArg Dirs.used hw.dirs) j).mpr (hi.used.2 (.inr hj))
  same {j} hj := by
    have hne : j ≠ i := fun heq => hi.not_used (heq ▸ hj)
    exact ⟨(hw.same hne).inode, (hw.same hne).data⟩

end

theorem Written.isFile (hw : Written v s i (fileInode mode uid gid) data size) : ¬s.view.IsDir i := by
  rw [View.IsDir, Inode.isDir_congr hw.mode, isDir_fileInode]
  exact Bool.false_ne_true

/-- **A new file has got its entry.** -/
theorem Written.created {p : ℕ} (hw : Written (v.setInodeBit i true) s i (fileInode mode uid gid) data size)
    (hv : Sound v fun _ => 0) (hi : v.FreeInode i) (hd : v.Used d) (hnone : v.look d leaf = none)
    (hroom : v.room d leaf = some p) :
    Sound (s.view.withEntry d p leaf i 1) (fun _ => 0) ∧
      Created v (s.view.withEntry d p leaf i 1) d leaf i data size mode uid gid := by
  have hspared := hw.spared hi
  have hsound := (hw.good hv hi).sound
  have hdi : i ≠ d := fun heq => hi.not_used (heq ▸ hd)
  have hroom' : s.view.room d leaf = some p := ((hspared.same hd).room leaf).trans hroom
  have hfirst := first_ne_zero_of_room hroom'
  have hlook : s.view.look = v.look := congrArg Dirs.look hw.dirs
  have hisDir : s.view.IsDir d ↔ v.IsDir d := (hspared.same hd).isDir
  have hused : s.view.Used i := (congrFun (congrArg Dirs.used hw.dirs) i).mpr (hi.used.2 (.inl rfl))
  have hnew : ∀ d' name', PlainName name' → s.view.look d' name' ≠ some i := by
    intro d' name' hname'
    rw [hlook]
    exact hi.no_name hv hname'
  have hfile : (s.view.withEntry d p leaf i 1).file i = ⟨bytes data 0 size, mode &&& 0o777,
      (fileInode mode uid gid).uid, (fileInode mode uid gid).gid⟩ := by
    rw [View.withEntry, hsound.file_setFirst hfirst _ hdi, View.file, hw.content, hw.mode, hw.uid, hw.gid,
      fileInode_mode_and]
  have hsame : ∀ {j}, v.Used j → j ≠ d → Same v (s.view.withEntry d p leaf i 1) j := by
    intro j hj hne
    exact (hspared.same hj).trans ⟨rfl, fun _ => hsound.data_setFirst hfirst _ fun heq => hne heq.1⟩
  have hdirs : (v.IsDir d → Sound (s.view.withEntry d p leaf i 1) (fun _ => 0) ∧
      (s.view.withEntry d p leaf i 1).dirs = (v.dirs.withUsed (v.setInodeBit i true).Used).link d leaf i) ∧
      (¬v.IsDir d → Sound (s.view.withEntry d p leaf i 1) (fun _ => 0) ∧
        (s.view.withEntry d p leaf i 1).dirs = v.dirs.withUsed (v.setInodeBit i true).Used) := by
    refine ⟨fun hdir => ?_, fun hdir => ?_⟩
    · obtain ⟨hsound', hdirs'⟩ := hsound.withEntry (hisDir.2 hdir) hroom'
        (show (1 : UInt8) = 2 ↔ _ from iff_of_false (by decide) hw.isFile) (hv.plain_of_look_none hdir hnone) (by rw [hlook, hnone]) hused
        hi.ne_root hnew fun hdir' => absurd hdir' hw.isFile
      rw [hw.dirs] at hdirs'
      exact ⟨hsound', hdirs'⟩
    · obtain ⟨hsound', hdirs'⟩ := hsound.setFirst hfirst (mt hisDir.1 hdir)
        (clip (addRecord (s.view.data (s.view.ptr d 0)) p leaf i 1))
      rw [hw.dirs] at hdirs'
      exact ⟨hsound', hdirs'⟩
  have hdata : (s.view.withEntry d p leaf i 1).data (v.ptr d 0) =
      clip (addRecord (v.data (v.ptr d 0)) p leaf i 1) := by
    have hptr : s.view.ptr d 0 = v.ptr d 0 := congrFun (hspared.same hd).ptr 0
    rw [← (hspared.same hd).data (hptr ▸ hfirst), ← hptr]
    exact update_self _ _ _
  refine ⟨?_, hi, hw.count, ⟨p, hroom, hdata⟩, fun h => (hdirs.1 h).2, fun h => (hdirs.2 h).2,
    (hspared.same hd).inode, hsame, hw.isFile, hfile⟩
  by_cases hdir : v.IsDir d
  · exact (hdirs.1 hdir).1
  · exact (hdirs.2 hdir).1

end New

/-- Why there is no new file. -/
def Refused (v : View) (d : ℕ) (leaf : Path) (size : ℕ) : Prop :=
  (∀ i, ¬v.FreeInode i) ∨ v.freeBlocks < demand ((size + 4095) / 4096) ∨ v.room d leaf = none

/-- **A new file** gets an inode, blocks and an entry, or nothing is left of it. -/
theorem Good.wp_storeNew (h : Good s fun _ => 0) {d : ℕ} {leaf : Path}
    (hd : s.view.Used d) (hnone : s.view.look d leaf = none) (found : ℕ) (data : ℕ → UInt8)
    (mode uid gid : ℕ) (hsize : size ≤ maxFileSize)
    (hQ : ∀ i s', Good s' (fun _ => 0) → Created s.view s'.view d leaf i data size mode uid gid → Q () s')
    (hE : ∀ s', Good s' (fun _ => 0) → Restored s.view s'.view → Refused s.view d leaf size → E s') :
    wp (do
      let ino ← allocInode
      storeInode ⟨d, leaf, found⟩ none ino (fileInode mode uid gid) data size) Q E s := by
  rw [wp_bind]
  refine Ext2.wp_allocInode h.toRegular ?_ ?_
  · intro i s₁ hfreeInode hreg₁ hview₁
    have h₁ : Good s₁ fun _ => 0 := by
      refine ⟨hreg₁, ?_⟩
      rw [hview₁]
      exact h.sound.takeFreeInode hfreeInode
    have hzero : s₁.view.inode i = zero := by
      rw [hview₁]
      exact h.sound.unused i hfreeInode.not_used
    have hused : s₁.view.Used i := by
      rw [hview₁]
      exact hfreeInode.used.2 (.inl rfl)
    have hnotDir : ¬s₁.view.IsDir i := by
      rw [View.IsDir, hzero]
      exact Bool.false_ne_true
    have hblocks₁ : s₁.view.freeBlocks = s.view.freeBlocks := by
      rw [hview₁]
      rfl
    have hlook₁ : s₁.view.look = s.view.look := by
      rw [hview₁]
      rfl
    refine h₁.wp_storeInode hused hnotDir (fun k _ => block_fileInode _ _ _ _) (isDir_fileInode _ _ _) _ _
      data hsize ?_ ?_
    · intro next s₂ hw hnext
      rw [hview₁] at hw
      have h₂ := hw.good h.sound hfreeInode
      have hroom₂ : s₂.view.room d leaf = s.view.room d leaf := ((hw.spared hfreeInode).same hd).room leaf
      rw [finishStore]
      rw [wp_bind, wp_recover]
      refine h₂.wp_dirAdd d leaf i 1 ?_ ?_
      · intro p s₃ hp hreg₃ hview₃
        rw [hroom₂] at hp
        obtain ⟨hsound, hcreated⟩ := hw.created h.sound hfreeInode hd hnone hp
        rw [← hview₃] at hsound hcreated
        exact hQ i s₃ ⟨hreg₃, hsound⟩ hcreated
      · intro hp
        rw [hroom₂] at hp
        rw [wp_bind]
        refine h₂.wp_releaseInode hnext ?_
        intro s₃ hreg₃ hview₃
        rw [wp_bind, wp_recover]
        have hlook₂ : s₂.view.look = s.view.look := congrArg Dirs.look hw.dirs
        have hused₂ : s₂.view.Used i :=
          (congrFun (congrArg Dirs.used hw.dirs) i).mpr (hfreeInode.used.2 (.inl rfl))
        refine wp_clearInode hreg₃ h₂.sound hview₃ hused₂ hw.isFile ?_
        intro s₄ h₄ hview₄ hdirs₄
        rw [wp_bind, wp_recover]
        refine h₄.wp_freeInode ((congrFun (congrArg Dirs.used hdirs₄) i).mpr hused₂) ?_ ?_ ?_
        · rw [hview₄]
          exact inode_setInode_self s₂.view i zero
        · intro d' name' hname'
          have hlook₄ : s₄.view.look = s₂.view.look := congrArg Dirs.look hdirs₄
          rw [hlook₄, hlook₂]
          exact hfreeInode.no_name h.sound hname'
        · intro s₅ h₅ hview₅
          rw [hview₄] at hview₅
          refine hE s₅ h₅ ?_ (.inr (.inr hp))
          rw [hview₅]
          exact hw.restored h.sound hfreeInode
    · intro s₂ h₂ hr hshort
      rw [hblocks₁] at hshort
      rw [abandon]
      simp only [Option.isNone_none, if_true]
      rw [wp_bind, wp_recover]
      have hused₂ : s₂.view.Used i := by rwa [View.Used, hr.inodeBit]
      refine h₂.wp_freeInode hused₂ (by rw [hr.inode, hzero]) ?_ ?_
      · intro d' name' hname'
        have hlook₂ : s₂.view.look = s₁.view.look := congrArg Dirs.look (hr.dirs h₁.sound)
        rw [hlook₂, hlook₁]
        exact hfreeInode.no_name h.sound hname'
      · intro s₃ h₃ hview₃
        refine hE s₃ h₃ ⟨⟨?_, ?_, ?_⟩, ?_⟩ (.inr (.inl hshort))
        · rw [hview₃]
          change s₂.view.inode = s.view.inode
          rw [hr.inode, hview₁]
          rfl
        · rw [hview₃]
          exact setInodeBit_setInodeBit hfreeInode (hr.inodeBit.trans (congrArg View.inodeBit hview₁))
        · intro j k hk
          have hdata := hr.data j k
          rw [hview₁] at hdata
          rw [hview₃]
          exact hdata hk
        · rw [hview₃]
          change s₂.view.blockBit = s.view.blockBit
          rw [hr.blockBit, hview₁]
          rfl
  · intro hno
    exact hE s h (Restored.refl _) (.inl hno)

/-! ### The whole call -/

section Call

variable (data : ℕ → UInt8) (size mode uid gid : ℕ)

/-- What the end of `ext2_store` does under the name `leaf` in `d`, and whether it
succeeds. -/
inductive Storing (v : View) (d : ℕ) (leaf : Path) : Bool → View → Prop
  /-- There is a directory. -/
  | directory {i : ℕ} (hlook : v.look d leaf = some i) (hdir : v.IsDir i) : Storing v d leaf false v
  /-- There is a file, but there are not blocks enough. -/
  | short {i : ℕ} {v' : View} (hlook : v.look d leaf = some i) (hfile : ¬v.IsDir i)
    (hshort : v.freeBlocks < demand ((size + 4095) / 4096)) (hr : Restored v v') : Storing v d leaf false v'
  /-- There is a file, which gets the contents. -/
  | replaced {i : ℕ} {v' : View} (hlook : v.look d leaf = some i) (hfile : ¬v.IsDir i)
    (hr : Replaced v v' i data size) : Storing v d leaf true v'
  /-- There is nothing, and no new file either. -/
  | refused {v' : View} (hnone : v.look d leaf = none) (hwhy : Refused v d leaf size) (hr : Restored v v') :
    Storing v d leaf false v'
  /-- There is a new file. -/
  | created {i : ℕ} {v' : View} (hnone : v.look d leaf = none)
    (hc : Created v v' d leaf i data size mode uid gid) : Storing v d leaf true v'

/-- What `ext2_store` does, and whether it succeeds. -/
inductive StoreCall (v : View) (path : Path) : Bool → View → Prop
  /-- The contents are too long for a file. -/
  | big (hsize : maxFileSize < size) : StoreCall v path false v
  /-- The path has no components. -/
  | root (hroot : components path = []) : StoreCall v path false v
  /-- A directory on the way cannot be made. -/
  | stuck {names : List Path} {leaf : Path} {m : ℕ} {t v' : View} (hpath : components path = names ++ [leaf])
    (hw : Stuck v rootIno names m t v') : StoreCall v path false v'
  /-- The walk arrives in `d`. -/
  | arrived {names : List Path} {leaf : Path} {m d : ℕ} {t v' : View} {ok : Bool} (hsize : size ≤ maxFileSize)
    (hpath : components path = names ++ [leaf]) (hw : Walk v rootIno names m t d)
    (hst : Storing data size mode uid gid t d leaf ok v') : StoreCall v path ok v'

/-- **`ext2_store`** on a sound volume leaves a sound volume. -/
theorem Good.wp_ext2Store (h : Good s fun _ => 0) (path : Path)
    (hQ : ∀ s', Good s' (fun _ => 0) → StoreCall data size mode uid gid s.view path true s'.view → Q () s')
    (hE : ∀ s', Good s' (fun _ => 0) → StoreCall data size mode uid gid s.view path false s'.view → E s') :
    wp (ext2Store path data size mode uid gid) Q E s := by
  rw [ext2Store, wp_bind, wp_gets, wp_bind, wp_require]
  refine ⟨fun ⟨_, hsize⟩ => ?_, fun hnot => ?_⟩
  · rw [wp_bind]
    refine h.wp_walk ?_ ?_ ?_
    · -- the root is a directory
      intro hroot
      have hused := h.sound.root_used
      rw [if_pos (show rootIno ≠ 0 by decide), wp_bind, wp_of_eq (h.run_inodeGet hused), wp_bind, wp_require]
      refine ⟨fun hfile => ?_, fun _ => hE s h (StoreCall.root hroot)⟩
      exact absurd (hfile.symm.trans h.sound.tree.root_dir) Bool.false_ne_true
    · intro names leaf m d s₁ hpath h₁ hw
      obtain ⟨-, A, hA, hdA⟩ := hw.sound h.sound h.closed_reached Tree.root_mem_reached
      cases hlook : s₁.view.look d leaf with
      | none =>
        refine h₁.wp_storeNew (hA d hdA).1 hlook 0 data mode uid gid hsize ?_ ?_
        · exact fun i s' h' hc => hQ s' h' (StoreCall.arrived hsize hpath hw (Storing.created hlook hc))
        · exact fun s' h' hr hwhy =>
            hE s' h' (StoreCall.arrived hsize hpath hw (Storing.refused hlook hwhy hr))
      | some i =>
        have hi : s₁.view.Used i := (hA i ((hA d hdA).2 leaf i hlook)).1
        rw [Option.getD_some, if_pos (show i ≠ 0 by have := hi.1; omega), wp_bind,
          wp_of_eq (h₁.run_inodeGet hi), wp_bind, wp_require]
        refine ⟨fun hfile => ?_, fun hdir => ?_⟩
        · have hnotDir : ¬s₁.view.IsDir i := Bool.eq_false_iff.1 hfile
          refine h₁.wp_replace hi hnotDir _ data hsize ?_ ?_
          · exact fun s' h' hr => hQ s' h' (StoreCall.arrived hsize hpath hw (Storing.replaced hlook hnotDir hr))
          · exact fun s' h' hr hshort =>
              hE s' h' (StoreCall.arrived hsize hpath hw (Storing.short hlook hnotDir hshort hr))
        · have hisDir : s₁.view.IsDir i := Bool.of_not_eq_false hdir
          exact hE s₁ h₁ (StoreCall.arrived hsize hpath hw (Storing.directory hlook hisDir))
    · exact fun names leaf m t s' hpath h' hw => hE s' h' (StoreCall.stuck hpath hw)
  · exact hE s h (StoreCall.big (Nat.lt_of_not_le fun hle => hnot ⟨h.mounted, hle⟩))

end Call

end OS64.Ext2
