import OS64.Ext2.Directories

/-!
# Making directories

`make_dir` takes an inode and a block, writes an empty directory there, and only
then asks `dir_add` for an entry in the parent. What it has taken it never gives
back. So there are five ways for it to end (`OS64.Ext2.Making`), and only the last
of them is a success:

| inode | block | entry | what stays |
|---|---|---|---|
| – | – | | nothing |
| – | taken | | a block that nothing points to |
| taken | – | | an inode without a name |
| taken | taken | – | a directory without a name |
| taken | taken | made | a directory, and one link more for the parent |

The parent need not be a directory. If `dir_add` finds room in the first block of a
file, then that is where the entry is made (`OS64.Ext2.Making.dirs_of_file`): the new
directory has no name that a path could lead to, and the bytes of the file are
others. In every case the volume stays sound (`OS64.Ext2.Making.sound`).
-/

namespace OS64

namespace Ext2

open Function ByteMem Bits Fallible Pointers

variable {b i : ℕ}

variable {v v' : View} {P : ℕ → ℕ}

/-! ### What is left alone -/

/-- A block is pointed to by inodes in use only. -/
theorem Sound.used_of_ptr (h : Sound v P) {j k : ℕ} (hne : v.ptr j k ≠ 0) : v.Used j := by
  by_contra hj
  refine hne ?_
  rw [View.ptr, h.unused j hj, pointer_eq_zero fun k _ => block_zero k]

/-- Inode `j` and the blocks it points to are as they were. -/
structure Same (v v' : View) (j : ℕ) : Prop where
  inode : v'.inode j = v.inode j
  data : ∀ {k}, v.ptr j k ≠ 0 → v'.data (v.ptr j k) = v.data (v.ptr j k)

namespace Same

variable {j : ℕ} (h : Same v v' j)

include h

theorem ptr : v'.ptr j = v.ptr j := by
  funext k
  rw [View.ptr, h.inode]
  refine congrFun (pointer_congr_data fun hne => ?_) k
  rw [← v.ptr_of_lt (by decide)] at hne ⊢
  exact h.data hne

theorem trans {v'' : View} (h' : Same v' v'' j) : Same v v'' j where
  inode := h'.inode.trans h.inode
  data {k} hne := by
    have hdata := h'.data (k := k) (by rwa [h.ptr])
    rw [h.ptr] at hdata
    rw [hdata, h.data hne]

theorem isDir : v'.IsDir j ↔ v.IsDir j := by
  rw [View.IsDir, View.IsDir, h.inode]

theorem look (hs : Sound v P) (name : Path) : v'.look j name = v.look j name := by
  rw [View.look, View.look, h.inode]
  by_cases hdir : (v.inode j).isDir = true
  · have hne := (hs.listing j hdir).1
    have hdata := h.data hne
    rw [v.ptr_of_lt (by decide)] at hdata
    rw [if_pos hdir, if_pos hdir, hdata]
  · rw [if_neg hdir, if_neg hdir]

/-- `dir_add` finds room where it did before. -/
theorem room (name : Path) : v'.room j name = v.room j name := by
  rw [View.room, View.room, h.ptr]
  by_cases hne : v.ptr j 0 = 0
  · rw [if_neg fun hand => hand.2 hne, if_neg fun hand => hand.2 hne]
  · rw [h.data hne]

end Same

/-- What was in use is as it was. -/
structure Spared (v v' : View) : Prop where
  used : ∀ {j}, v.Used j → v'.Used j
  same : ∀ {j}, v.Used j → Same v v' j

namespace Spared

variable (h : Spared v v')

include h

theorem keeps (hs : Sound v P) : Tree.Keeps v.dirs v'.dirs where
  used := h.used
  dir hj := (h.same hj).isDir
  look hj name := (h.same hj).look hs name

end Spared

/-! ### What can be taken -/

namespace View

variable (v : View)

/-- A new directory below `d`, without a name. -/
def withDirectory (i b d : ℕ) : View :=
  (((v.setInodeBit i true).setBlockBit b true).setData b (clip (newDirectory i d))).setInode i
    (clipRecord (directoryInode b))

/-- One link more for `d`. -/
def countLink (d : ℕ) : View := v.setInode d (clipRecord ((v.inode d).setLinks ((v.inode d).links + 1)))

end View

theorem View.FreeInode.not_used (h : v.FreeInode i) : ¬v.Used i := by
  rintro ⟨-, -, hset⟩
  exact Bool.noConfusion (hset.symm.trans h.2.2)

theorem View.FreeInode.ne_root (h : v.FreeInode i) : i ≠ rootIno := by
  have hlow := h.1
  rw [rootIno]
  omega

theorem View.FreeInode.used (h : v.FreeInode i) {j : ℕ} : (v.setInodeBit i true).Used j ↔ j = i ∨ v.Used j := by
  obtain ⟨hlow, hhigh, -⟩ := h
  rw [used_setInodeBit v (by omega)]
  by_cases hj : j = i
  · rw [if_pos hj]
    exact iff_of_true ⟨hhigh, rfl⟩ (.inl hj)
  · rw [if_neg hj, or_iff_right hj]

/-- Nothing points to a block that is free. -/
theorem View.FreeBlock.ne_ptr (h : v.FreeBlock b) (hs : Sound v P) (j k : ℕ) : v.ptr j k ≠ b := by
  rintro rfl
  have hlow := h.1
  have hset := (hs.ptr_allocated (show v.ptr j k ≠ 0 by omega)).2.2
  rw [h.2.2] at hset
  cases hset

variable {d : ℕ} {name : Path}

/-- Nor does a name lead to an inode that is. -/
theorem View.FreeInode.no_name (h : v.FreeInode i) (hs : Sound v P) (hn : PlainName name) : v.look d name ≠ some i :=
  fun hlook => h.not_used (hs.tree.named hlook hn).1

theorem spared_withDirectory (hs : Sound v P) (hi : v.FreeInode i) (hb : v.FreeBlock b) (d : ℕ) :
    Spared v (v.withDirectory i b d) where
  used hj := hi.used.2 (.inr hj)
  same {j} hj := by
    have hne : j ≠ i := fun heq => hi.not_used (heq ▸ hj)
    refine ⟨?_, fun {k} _ => update_of_ne (hb.ne_ptr hs j k) _ _⟩
    rw [View.withDirectory, inode_setInode_of_ne _ hne]
    rfl

/-! ### The volume stays sound -/

theorem Sound.takeFreeBlock (h : Sound v fun _ => 0) (hb : v.FreeBlock b) : Sound (v.setBlockBit b true) fun _ => 0 :=
  (h.takeBlock (k := 0) (by have := hb.1; omega) hb.2.1 hb.2.2).forget

theorem Sound.takeFreeInode (h : Sound v P) (hi : v.FreeInode i) : Sound (v.setInodeBit i true) P :=
  h.takeInode (by have := hi.1; omega) hi.2.1

/-- **A directory without a name.** -/
theorem Sound.withDirectory (h : Sound v fun _ => 0) (hi : v.FreeInode i) (hb : v.FreeBlock b)
    (hd : v.Used d) : Sound (v.withDirectory i b d) (fun _ => 0) ∧ (v.withDirectory i b d).dirs =
      (v.dirs.withUsed (v.setInodeBit i true).Used).mkdir dotName dotdotName i d := by
  obtain ⟨hblow, hbhigh, hbfree⟩ := id hb
  obtain ⟨hilow, hihigh, -⟩ := id hi
  obtain ⟨hdlow, hdhigh, -⟩ := id hd
  have h₁ := (h.takeFreeInode hi).takeBlock (k := 0) (b := b) (by omega) hbhigh hbfree
  have h₂ := h₁.setData (k := 0) (by rw [update_self]; omega) (clip (newDirectory i d))
  have hu := h₁.untouched_setData (k := 0) (by rw [update_self]; omega) (clip (newDirectory i d))
  rw [update_self] at h₂ hu
  have hdirs := hu.dirs h₁
  have hblock : (clipRecord (directoryInode b)).block 0 = b := by
    rw [block_clipRecord (by decide), block_directoryInode (by omega), if_pos rfl]
  have hnone : v.inode i = zero := h.unused i hi.not_used
  have hfile : ¬(((v.setInodeBit i true).setBlockBit b true).setData b (clip (newDirectory i d))).IsDir i := by
    change ¬(v.inode i).isDir = true
    rw [hnone]
    exact Bool.false_ne_true
  have hnew : ∀ d' name, PlainName name →
      (((v.setInodeBit i true).setBlockBit b true).setData b (clip (newDirectory i d))).look d' name ≠
        some i := by
    intro d' name hname hlook
    have hlook' : (((v.setInodeBit i true).setBlockBit b true).setData b (clip (newDirectory i d))).look =
        v.look := congrArg Tree.Dirs.look hdirs
    rw [hlook'] at hlook
    exact hi.no_name h hname hlook
  have hpointer : pointer (((v.setInodeBit i true).setBlockBit b true).setData b
      (clip (newDirectory i d))).data (clipRecord (directoryInode b)) = update (fun _ => 0) 0 b := by
    rw [pointer_clipRecord]
    exact pointer_directoryInode _ (by omega)
  have hlisting : Listing ((((v.setInodeBit i true).setBlockBit b true).setData b
      (clip (newDirectory i d))).data ((clipRecord (directoryInode b)).block 0))
      [⟨dotName, i, 2⟩, ⟨dotdotName, d, 2⟩] := by
    have hdata : (((v.setInodeBit i true).setBlockBit b true).setData b (clip (newDirectory i d))).data b =
        clip (newDirectory i d) := update_self b _ v.data
    rw [hblock, hdata]
    exact (listing_newDirectory (by omega) (by omega) (by omega) (by omega)).clip
  obtain ⟨hsound, hdirs'⟩ := h₂.putDirectory (hi.used.2 (.inl rfl)) hi.ne_root hfile hnew hpointer
    ((isDir_clipRecord _).trans (isDir_directoryInode b)) (by rw [hblock]; omega) hlisting
  have hzero : (((v.setInodeBit i true).setBlockBit b true).setData b (clip (newDirectory i d))).ptr i =
      fun _ => 0 := by
    funext k
    change pointer _ (v.inode i) k = 0
    rw [hnone, pointer_eq_zero fun k _ => block_zero k]
  rw [hzero] at hsound
  rw [hdirs] at hdirs'
  exact ⟨hsound, hdirs'⟩

theorem Sound.countLink (h : Sound v P) (hd : v.Used d) :
    Sound (v.countLink d) P ∧ (v.countLink d).dirs = v.dirs ∧ (v.countLink d).ptr = v.ptr :=
  h.putAttributes hd (fun k hk => (block_clipRecord (by omega)).trans (Inode.block_setLinks _ _ _))
    ((isDir_clipRecord _).trans (Inode.isDir_congr (Inode.mode_setLinks _ _)))
    ((size_clipRecord _).trans (Inode.size_setLinks _ _))

/-! ### The ways to end -/

/-- What `make_dir` returns for a name in `d`, and what it leaves. -/
inductive Making (v : View) (d : ℕ) (name : Path) : Option ℕ → View → Prop
  /-- There is neither an inode nor a block. -/
  | full (hi : ∀ i, ¬v.FreeInode i) (hb : ∀ b, ¬v.FreeBlock b) : Making v d name none v
  /-- There is no inode, but a block. -/
  | block {b : ℕ} (hi : ∀ i, ¬v.FreeInode i) (hb : v.FreeBlock b) : Making v d name none (v.setBlockBit b true)
  /-- There is an inode, but no block. -/
  | inode {i : ℕ} (hi : v.FreeInode i) (hb : ∀ b, ¬v.FreeBlock b) : Making v d name none (v.setInodeBit i true)
  /-- There is no room for the entry. -/
  | entry {i b : ℕ} (hi : v.FreeInode i) (hb : v.FreeBlock b) (hroom : v.room d name = none) :
    Making v d name none (v.withDirectory i b d)
  /-- The directory is made. -/
  | made {i b p : ℕ} (hi : v.FreeInode i) (hb : v.FreeBlock b) (hroom : v.room d name = some p) :
    Making v d name (some i) (((v.withDirectory i b d).withEntry d p name i 2).countLink d)

section Making

variable {d : ℕ} {name : Path} {r : Option ℕ}

variable {p : ℕ}

/-- The entry of a new directory, in a directory or in a file. -/
theorem Sound.withEntry_made (h : Sound v fun _ => 0) (hi : v.FreeInode i) (hb : v.FreeBlock b)
    (hd : v.Used d) (hnone : v.look d name = none) (hroom : v.room d name = some p) :
    Sound ((v.withDirectory i b d).withEntry d p name i 2) (fun _ => 0) ∧
      (v.IsDir d → ((v.withDirectory i b d).withEntry d p name i 2).dirs =
        ((v.dirs.withUsed (v.setInodeBit i true).Used).mkdir dotName dotdotName i d).link d name i) ∧
      (¬v.IsDir d → ((v.withDirectory i b d).withEntry d p name i 2).dirs =
        (v.dirs.withUsed (v.setInodeBit i true).Used).mkdir dotName dotdotName i d) := by
  obtain ⟨hsound, hdirs⟩ := h.withDirectory hi hb hd
  have hspared := spared_withDirectory h hi hb d
  have hroom' : (v.withDirectory i b d).room d name = some p := ((hspared.same hd).room name).trans hroom
  have hdir : (v.withDirectory i b d).IsDir d ↔ v.IsDir d := (hspared.keeps h).dir hd
  have hself : (v.withDirectory i b d).IsDir i := (congrFun (congrArg Tree.Dirs.dir hdirs) i).mpr (.inl rfl)
  have hlook : ∀ j n, (v.withDirectory i b d).look j n = if j = i then if n = dotName then some i
      else if n = dotdotName then some d else none else v.look j n :=
    fun j n => congrFun (congrFun (congrArg Tree.Dirs.look hdirs) j) n
  by_cases hisDir : v.IsDir d
  · have hnew : ∀ d' name', PlainName name' → (v.withDirectory i b d).look d' name' ≠ some i := by
      intro d' name' hname'
      rw [hlook, if_neg hname'.1, if_neg hname'.2]
      split_ifs
      · simp
      · exact hi.no_name h hname'
    have hup : (v.withDirectory i b d).look i dotdotName = some d := by
      rw [hlook, if_pos rfl, if_neg (by decide), if_pos rfl]
    obtain ⟨hsound', hdirs'⟩ := hsound.withEntry (hdir.2 hisDir) hroom' (iff_of_true rfl hself)
      (h.plain_of_look_none hisDir hnone) (((hspared.same hd).look h name).trans hnone)
      (hi.used.2 (.inl rfl)) hi.ne_root hnew fun _ => hup
    rw [hdirs] at hdirs'
    exact ⟨hsound', fun _ => hdirs', fun hnot => absurd hisDir hnot⟩
  · obtain ⟨hsound', hdirs'⟩ := hsound.setFirst (first_ne_zero_of_room hroom') (mt hdir.1 hisDir)
      (clip (addRecord ((v.withDirectory i b d).data ((v.withDirectory i b d).ptr d 0)) p name i 2))
    rw [hdirs] at hdirs'
    exact ⟨hsound', fun hyes => absurd hyes hisDir, fun _ => hdirs'⟩

/-- The parent is in use still when its links are counted. -/
theorem used_withEntry (hi : v.FreeInode i) (hd : v.Used d) : ((v.withDirectory i b d).withEntry d p name i 2).Used d :=
  hi.used.2 (.inr hd)

/-- **The volume stays sound.** -/
theorem Making.sound (hm : Making v d name r v') (h : Sound v fun _ => 0) (hd : v.Used d)
    (hnone : v.look d name = none) : Sound v' fun _ => 0 := by
  cases hm with
  | full => exact h
  | block hi hb => exact h.takeFreeBlock hb
  | inode hi hb => exact h.takeFreeInode hi
  | entry hi hb hroom => exact (h.withDirectory hi hb hd).1
  | made hi hb hroom =>
    exact ((h.withEntry_made hi hb hd hnone hroom).1.countLink (used_withEntry hi hd)).1

section

variable (hm : Making v d name (some i) v')
include hm

/-- The directories, when one has been made in a directory. -/
theorem Making.dirs_of_directory (h : Sound v fun _ => 0) (hd : v.IsDir d) (hnone : v.look d name = none) : v'.dirs =
      ((v.dirs.withUsed (v.setInodeBit i true).Used).mkdir dotName dotdotName i d).link d name i := by
  have hused := h.tree.dir_used hd
  cases hm with
  | made hi hb hroom =>
    obtain ⟨hsound, hdirs, -⟩ := h.withEntry_made hi hb hused hnone hroom
    rw [(hsound.countLink (used_withEntry hi hused)).2.1]
    exact hdirs hd

/-- The directories, when one has been made in a file. -/
theorem Making.dirs_of_file (h : Sound v fun _ => 0) (hd : v.Used d) (hfile : ¬v.IsDir d) : v'.dirs =
      (v.dirs.withUsed (v.setInodeBit i true).Used).mkdir dotName dotdotName i d := by
  cases hm with
  | made hi hb hroom =>
    obtain ⟨hsound, -, hdirs⟩ := h.withEntry_made hi hb hd (View.look_of_not_isDir hfile name) hroom
    rw [(hsound.countLink (used_withEntry hi hd)).2.1]
    exact hdirs hfile

theorem Making.freeInode : v.FreeInode i := by
  cases hm with
  | made hi hb hroom => exact hi

/-! ### What a success leaves alone -/

/-- **No path leads out of a set** of nodes in use that none has led out of, if the
new directory is added to it. -/
theorem Making.closed (h : Sound v fun _ => 0)
    (hnone : v.look d name = none) {A : Set ℕ} (hA : Tree.Closed v.dirs A) (hd : d ∈ A) :
    Tree.Closed v'.dirs (insert i A) := by
  have hi := hm.freeInode
  have hA' : Tree.Closed (v.dirs.withUsed (v.setInodeBit i true).Used) A :=
    hA.keeps ⟨fun hj => hi.used.2 (.inr hj), fun _ => Iff.rfl, fun _ _ => rfl⟩
  have hmk : Tree.Closed ((v.dirs.withUsed (v.setInodeBit i true).Used).mkdir dotName dotdotName i d)
      (insert i A) := hA'.mkdir (hi.used.2 (.inl rfl)) hd
  by_cases hdir : v.IsDir d
  · rw [hm.dirs_of_directory h hdir hnone]
    exact hmk.link d name (.inl rfl)
  · rw [hm.dirs_of_file h (hA d hd).1 hdir]
    exact hmk

end

end Making

/-! ### The function -/

variable {s : State} {E : State → Prop}

/-- **`make_dir`** ends in one of the five ways, and the volume is sound. -/
theorem Good.wp_makeDir {Q : ℕ → State → Prop} (h : Good s fun _ => 0)
    (hd : s.view.Used d) (hnone : s.view.look d name = none)
    (hQ : ∀ i s', Good s' (fun _ => 0) → Making s.view d name (some i) s'.view → Q i s')
    (hE : ∀ s', Good s' (fun _ => 0) → Making s.view d name none s'.view → E s') :
    wp (makeDir d name) Q E s := by
  -- the volume is sound in whatever way it ends
  have hfail : ∀ s', Regular s' → Making s.view d name none s'.view → E s' :=
    fun s' hreg hm => hE s' ⟨hreg, hm.sound h.sound hd hnone⟩ hm
  rw [makeDir, wp_bind, wp_recover]
  refine Ext2.wp_allocInode h.toRegular ?_ ?_
  · intro i s₁ hfreeInode hreg₁ hview₁
    obtain ⟨hi, hi', -⟩ := id hfreeInode
    have hbits₁ : s₁.view.blockBit = s.view.blockBit := by rw [hview₁]; rfl
    rw [wp_bind, wp_recover]
    refine Ext2.wp_allocBlock hreg₁ ?_ ?_
    · rintro b s₂ ⟨hb, hb', hbfree⟩ hreg₂ hview₂
      have hfreeBlock : s.view.FreeBlock b := ⟨hb, hb', by rw [← hbits₁]; exact hbfree⟩
      rw [wp_bind, Ext2.wp_bwrite hreg₂.toLayout hb', wp_bind]
      refine wp_inodePut (hreg₂.writeBlock (by omega) _) (by omega) hi' _ ?_
      intro s₃ hreg₃ hview₃
      have hview : s₃.view = s.view.withDirectory i b d := by
        rw [hview₃, view_writeData s₂ (by omega) hb', hview₂, hview₁]
        rfl
      have h₃ : Good s₃ fun _ => 0 := by
        refine ⟨hreg₃, ?_⟩
        rw [hview]
        exact (h.sound.withDirectory hfreeInode hfreeBlock hd).1
      have hroom : s₃.view.room d name = s.view.room d name := by
        rw [hview]
        exact ((spared_withDirectory h.sound hfreeInode hfreeBlock d).same hd).room name
      rw [wp_bind]
      refine h₃.wp_dirAdd d name i 2 ?_ ?_
      · intro p s₄ hp hreg₄ hview₄
        rw [hroom] at hp
        rw [hview] at hview₄
        rw [wp_bind]
        refine hreg₄.wp_counters 1 ?_
        intro s₅ hreg₅ hview₅
        obtain ⟨hd₁, hd₂, -⟩ := id hd
        rw [wp_bind, wp_recover, wp_of_eq (Ext2.run_inodeGet hreg₅.toLayout hd₁ hd₂)]
        rw [wp_bind, wp_recover]
        refine wp_inodePut hreg₅ hd₁ hd₂ _ ?_
        intro s₆ hreg₆ hview₆
        rw [hview₅, hview₄] at hview₆
        have hm : Making s.view d name (some i) s₆.view := by
          rw [hview₆]
          exact Making.made hfreeInode hfreeBlock hp
        exact hQ i s₆ ⟨hreg₆, hm.sound h.sound hd hnone⟩ hm
      · intro hp
        rw [hroom] at hp
        refine hfail s₃ hreg₃ ?_
        rw [hview]
        exact Making.entry hfreeInode hfreeBlock hp
    · intro hfull
      refine hfail s₁ hreg₁ ?_
      rw [hview₁]
      refine Making.inode hfreeInode fun b hbfree => hfull b ?_
      rwa [View.FreeBlock, hbits₁]
  · intro hno
    rw [wp_bind, wp_recover]
    refine Ext2.wp_allocBlock h.toRegular ?_ ?_
    · intro b s₁ hfreeBlock hreg₁ hview₁
      refine hfail s₁ hreg₁ ?_
      rw [hview₁]
      exact Making.block hno hfreeBlock
    · intro hfull
      exact hfail s h.toRegular (Making.full hno hfull)

end Ext2

end OS64
