import OS64.Ext2.Directories

/-!
# The operations on files

What `ext2_remove`, `ext2_chmod` and `ext2_chown` do with a sound volume: it stays
sound, and the regular files under all paths change like a map
(`OS64.Ext2.Assigns`). An operation that succeeds assigns one path, and one that
fails none.

* **Attributes** (`OS64.Ext2.Good.wp_ext2Chmod`, `OS64.Ext2.Good.wp_ext2Chown`).
* **Removing** (`OS64.Ext2.Good.wp_ext2Remove`). For a moment the record on the disk
  points to blocks that are free already; the volume is sound again when the record
  has been cleared.

The path that is assigned is the one of the call with its special names resolved.
-/

namespace OS64.Ext2

open ByteMem Bits Fallible Pointers
open Tree (resolve Dirs reached)

/-! ### Files as a map -/

variable {Q : Unit → State → Prop} {d i : ℕ}

/-- Under path `p` there is now `x`, under other paths what there was. -/
def Assigns (v v' : View) (p : List Path) (x : Option File) : Prop :=
  ∀ names, (∀ n ∈ names, PlainName n) → v'.fileAt names = if names = p then x else v.fileAt names

variable {v v' : View} {P : ℕ → ℕ}

variable {q : List Path} {name : Path}

/-- **Inode `i` has changed**, and nothing else. -/
theorem Effect.assigns (h : Effect v.dirs (fun j => j = i) v v') (hs : Sound v P)
    (hq : ∀ n ∈ q, PlainName n) (hi : resolve v.look rootIno q = some i) :
    Assigns v v' q (if (v.inode i).isDir then none else some (v'.file i)) := by
  intro names hn
  have hres := h.keeps.resolve_eq hs.tree names
  split_ifs with hpath hdir
  · rw [hpath] at hres ⊢
    have hdir' : v'.IsDir i := (h.keeps.dir (hs.tree.resolve_used hi)).2 hdir
    rw [View.IsDir] at hdir'
    rw [View.fileAt_of_resolve (hres.trans hi), if_pos hdir']
  · rw [hpath] at hres ⊢
    have hdir' : ¬v'.IsDir i := fun hd =>
      hdir ((h.keeps.dir (hs.tree.resolve_used hi)).1 hd)
    rw [View.IsDir] at hdir'
    rw [View.fileAt_of_resolve (hres.trans hi), if_neg hdir']
  · refine h.fileAt_eq hs hres fun j hj => ⟨hs.tree.resolve_used hj, Iff.rfl, ?_⟩
    rintro rfl
    exact hpath (hs.tree.resolve_inj hn hq hj hi)

/-- **A file has lost its entry** and its inode. -/
theorem Effect.assigns_none
    (h : Effect ((v.dirs.unlink d name).withUsed fun j => j ≠ i ∧ v.dirs.used j) (fun j => j = i) v v')
    (hs : Sound v P) (hq : ∀ n ∈ q, PlainName n) (hn : PlainName name)
    (hd : resolve v.look rootIno q = some d) (hlook : v.look d name = some i) (hi : ¬v.IsDir i) :
    Assigns v v' (q ++ [name]) none := by
  intro names hnames
  have hres := hs.tree.resolve_unlink hq hnames hd h.keeps hn hlook hi
  split_ifs with hpath
  · rw [if_pos hpath] at hres
    change (resolve v'.dirs.look rootIno names).bind _ = _
    rw [hres]
    rfl
  · rw [if_neg hpath] at hres
    have hpathn : resolve v.look rootIno (q ++ [name]) = some i := by
      rw [Tree.resolve_concat, hd]
      exact hlook
    refine h.fileAt_eq hs hres fun j hj => ?_
    have hne : j ≠ i := by
      rintro rfl
      refine hpath (hs.tree.resolve_inj hnames ?_ hj hpathn)
      intro m hm
      rcases List.mem_append.1 hm with hm | hm
      · exact hq m hm
      · rwa [List.mem_singleton.1 hm]
    exact ⟨⟨hne, hs.tree.resolve_used hj⟩, Iff.rfl, hne⟩

/-! ### Attributes -/

/-- The components of a path, with the special names resolved. -/
def location (path : Path) : List Path := Tree.normalize dotName dotdotName (components path)

theorem plain_location (path : Path) : ∀ n ∈ location path, PlainName n := Tree.plain_normalize _

variable {s : State} {E : State → Prop}

section

variable (h : Good s fun _ => 0)
include h

/-- The inode under a path gets another record, with the same size and blocks. -/
theorem Good.wp_changeAttributes (path : Path)
    (f : Inode → Inode) (g : File → File) (hblock : ∀ n k, (f n).block k = n.block k)
    (hdir : ∀ n, (f n).isDir = n.isDir) (hsize : ∀ n, (f n).size = n.size)
    (hg : ∀ n bs, (⟨bs, (f n).mode &&& 0o777, (f n).uid, (f n).gid⟩ : File) = g ⟨bs, n.mode &&& 0o777, n.uid, n.gid⟩)
    (hQ : ∀ s', Good s' (fun _ => 0) →
      Assigns s.view s'.view (location path) ((s.view.fileAt (location path)).map g) →
      NamesFrom [] s.view s'.view → Q () s')
    (hE : E s) : wp (do
      let ino ← locate path
      let n ← inodeGet ino
      inodePut ino (f n)) Q E s := by
  rw [wp_bind]
  have hlocate := h.run_locate path
  cases hres : resolve s.view.look rootIno (components path) with
  | none =>
    rw [hres] at hlocate
    rw [wp_of_eq_none hlocate]
    exact hE
  | some i =>
    rw [hres] at hlocate
    have hi : s.view.Used i := h.sound.tree.resolve_used hres
    have hplace : resolve s.view.look rootIno (location path) = some i := h.sound.tree.resolve_normalize hres
    rw [wp_of_eq hlocate, wp_bind, wp_of_eq (h.run_inodeGet hi)]
    refine h.wp_putAttributes hi (fun k _ => hblock _ k) (hdir _) (hsize _) ?_
    intro s' h' hdirs hptr hview
    refine hQ s' h' ?_ (.of_look_eq (congrArg Dirs.look hdirs))
    have heffect : Effect s.view.dirs (fun j => j = i) s.view s'.view := by
      refine ⟨by rw [hdirs]; exact Tree.Keeps.refl _, fun j _ _ hne => ?_⟩
      rw [hview, file_setInode hne]
    have hassigns := heffect.assigns h.sound (plain_location path) hplace
    have hinode : s'.view.inode i = clipRecord (f (s.view.inode i)) := by
      rw [hview, inode_setInode_self]
    have hcontent : s'.view.content i = s.view.content i := by
      refine content_congr ?_ fun j _ => ?_
      · rw [hinode, size_clipRecord, hsize]
      · rw [hptr, hview]
        rfl
    have hfile : s'.view.file i = g (s.view.file i) := by
      rw [View.file, View.file, hcontent, hinode, mode_clipRecord, uid_clipRecord, gid_clipRecord, hg]
    rw [View.fileAt_of_resolve hplace]
    split_ifs at hassigns ⊢
    · exact hassigns
    · rwa [Option.map_some, ← hfile]

/-- **`ext2_chmod`** changes the mode of a file, or fails. -/
theorem Good.wp_ext2Chmod (path : Path) (m : ℕ)
    (hQ : ∀ s', Good s' (fun _ => 0) → Assigns s.view s'.view (location path)
      ((s.view.fileAt (location path)).map fun f => { f with mode := m &&& 0o777 }) →
      NamesFrom [] s.view s'.view → Q () s')
    (hE : E s) : wp (ext2Chmod path m) Q E s := by
  have hlt : ∀ k, (k &&& 0o170000) ||| (m &&& 0o777) < 2 ^ 16 := fun k =>
    Nat.or_lt_two_pow (Nat.lt_of_le_of_lt Nat.and_le_right (by decide))
      (Nat.lt_of_le_of_lt Nat.and_le_right (by decide))
  refine h.wp_changeAttributes path (fun n => n.setMode ((n.mode &&& 0o170000) ||| (m &&& 0o777)))
    (fun f => { f with mode := m &&& 0o777 }) ?_ ?_ ?_ ?_ hQ hE
  · exact fun n k => Inode.block_setMode _ _ _
  · intro n
    rw [Inode.isDir_eq, Inode.isDir_eq, Inode.mode_setMode (hlt _), Nat.testBit_or, Nat.testBit_and,
      Nat.testBit_and, show Nat.testBit 0o170000 14 = true from rfl,
      show Nat.testBit 0o777 14 = false from rfl, Bool.and_true, Bool.and_false, Bool.or_false]
  · exact fun n => Inode.size_setMode _ _
  · intro n bs
    have hmode : ((n.mode &&& 0o170000) ||| (m &&& 0o777)) &&& 0o777 = m &&& 0o777 := by
      rw [Nat.and_or_distrib_right, Nat.and_assoc, Nat.and_assoc, show 0o170000 &&& 0o777 = 0 from rfl,
        Nat.and_zero, Nat.zero_or, Nat.and_self]
    rw [Inode.mode_setMode (hlt _), hmode, Inode.uid_setMode, Inode.gid_setMode]

/-- **`ext2_chown`** changes the owner and the group of a file, or fails. -/
theorem Good.wp_ext2Chown (path : Path) {u g : ℕ} (hu : u < 2 ^ 16) (hg : g < 2 ^ 16) (su sg : Bool)
    (hQ : ∀ s', Good s' (fun _ => 0) → Assigns s.view s'.view (location path)
      ((s.view.fileAt (location path)).map fun f =>
        { f with uid := if su then u else f.uid, gid := if sg then g else f.gid }) →
      NamesFrom [] s.view s'.view → Q () s')
    (hE : E s) : wp (ext2Chown path u g su sg) Q E s := by
  refine h.wp_changeAttributes path (fun n => if sg then (if su then n.setUid u else n).setGid g
      else if su then n.setUid u else n)
    (fun f => { f with uid := if su then u else f.uid, gid := if sg then g else f.gid }) ?_ ?_ ?_ ?_ hQ hE
  · intro n k
    cases su <;> cases sg <;> simp
  · intro n
    refine Inode.isDir_congr ?_
    cases su <;> cases sg <;> simp
  · intro n
    cases su <;> cases sg <;> simp
  · intro n bs
    cases su <;> cases sg <;> simp [Inode.uid_setUid hu, Inode.gid_setGid hg]

/-! ### Giving back an inode -/

/-- `release_blocks`, for a record that is on the disk still. -/
theorem Good.wp_releaseInode {Q : Bool → State → Prop} {n : Inode} (hn : pointer s.view.data n = s.view.ptr i)
    (hQ : ∀ s', Regular s' → s'.view = s.view.release (s.view.ptr i) → Q true s') :
    wp (releaseBlocks n) Q E s :=
  Ext2.wp_releaseBlocks h.toRegular hn (fun _ hne => h.sound.ptr_allocated hne)
    (fun _ _ heq hne => (h.sound.exclusive.ptr_inj heq hne).2) hQ

end

/-- The record is cleared, after its blocks have been given back. -/
theorem wp_clearInode (h : Regular s) (hv : Sound v fun _ => 0)
    (hview : s.view = v.release (v.ptr i)) (hi : v.Used i) (hfile : ¬v.IsDir i)
    (hQ : ∀ s', Good s' (fun _ => 0) → s'.view = (v.setInode i zero).release (v.ptr i) →
      s'.view.dirs = v.dirs → Q () s') :
    wp (inodePut i zero) Q E s := by
  refine wp_inodePut h hi.1 hi.2.1 zero ?_
  intro s' hreg hview'
  rw [hview, clipRecord_zero] at hview'
  obtain ⟨hsound, hdirs⟩ := hv.putFile (n := zero) hi hfile (pointer_eq_zero fun k _ => block_zero k) rfl
    (Nat.zero_le _) fun j hj => absurd hj (Nat.not_lt_zero _)
  refine hQ s' ⟨hreg, ?_⟩ hview' ?_
  · rw [hview']
    exact hsound.release
  · rw [hview']
    exact hdirs

/-- `free_bit`, for an inode that is cleared and has no name. -/
theorem Good.wp_freeInode (h : Good s P) (hi : s.view.Used i)
    (hzero : s.view.inode i = zero) (hnew : ∀ d name, PlainName name → s.view.look d name ≠ some i)
    (hQ : ∀ s', Good s' P → s'.view = s.view.setInodeBit i false → Q () s') :
    wp (freeBit inodeBitmap i true) Q E s := by
  refine Ext2.wp_freeInode h.toRegular hi.1 hi.2.1 hi.2.2 ?_
  intro s' hreg hview
  refine hQ s' ⟨hreg, ?_⟩ hview
  rw [hview]
  exact h.sound.freeInode hi.1 hzero hnew

/-- What is left without inode `i`. -/
def View.without (v : View) (i : ℕ) : View :=
  ((v.setInode i zero).release (v.ptr i)).setInodeBit i false

/-- **An inode without a name is gone**, and nothing else. -/
theorem effect_without (hi : v.Used i) (hfile : ¬v.IsDir i) :
    Effect (v.dirs.withUsed fun j => j ≠ i ∧ v.dirs.used j) (fun j => j = i) v (v.without i) := by
  have hdir : ∀ j, (v.without i).IsDir j ↔ v.IsDir j := by
    intro j
    change ((v.setInode i zero).inode j).isDir = true ↔ (v.inode j).isDir = true
    by_cases hj : j = i
    · rw [hj, inode_setInode_self]
      exact ⟨fun h => absurd h Bool.false_ne_true, fun h => absurd h hfile⟩
    · rw [inode_setInode_of_ne v hj]
  refine ⟨⟨fun {j} hj => ?_, fun {j} _ => hdir j, fun {j} hj n => ?_⟩, fun j _ _ hj => ?_⟩
  · exact (used_setInodeBit _ hi.1 false j).2 (by rw [if_neg hj.1]; exact hj.2)
  · change (if ((v.setInode i zero).inode j).isDir then
      dirSearch (v.data (((v.setInode i zero).inode j).block 0)) n else none) = v.look j n
    rw [inode_setInode_of_ne v hj.1]
    rfl
  · exact file_setInode hj

/-- No entry is new. -/
theorem look_of_without {j : ℕ} (h : (v.without i).look d name = some j) : v.look d name = some j := by
  by_cases hd : d = i
  · have hfile : ¬(v.without i).IsDir d := by
      change ¬((v.setInode i zero).inode d).isDir = true
      rw [hd, inode_setInode_self]
      exact Bool.false_ne_true
    rw [View.look_of_not_isDir hfile] at h
    cases h
  · change (if ((v.setInode i zero).inode d).isDir then
      dirSearch (v.data (((v.setInode i zero).inode d).block 0)) name else none) = some j at h
    rwa [inode_setInode_of_ne v hd] at h

/-- A file without a name: its record is cleared and its inode is free. -/
theorem wp_dropInode (h : Regular s) (hv : Sound v fun _ => 0)
    (hview : s.view = v.release (v.ptr i)) (hi : v.Used i) (hfile : ¬v.IsDir i)
    (hnew : ∀ d name, PlainName name → v.look d name ≠ some i)
    (hQ : ∀ s', Good s' (fun _ => 0) → s'.view = v.without i → Q () s') :
    wp (inodePut i zero) (fun _ s' => wp (freeBit inodeBitmap i true) Q E s') E s := by
  refine wp_clearInode h hv hview hi hfile ?_
  intro s₁ h₁ hview₁ hdirs₁
  refine h₁.wp_freeInode ?_ ?_ ?_ ?_
  · exact (congrFun (congrArg Dirs.used hdirs₁) i).mpr hi
  · rw [hview₁]
    exact inode_setInode_self v i zero
  · intro d name hname hlook
    have hlook₁ : s₁.view.look = v.look := congrArg Dirs.look hdirs₁
    rw [hlook₁] at hlook
    exact hnew d name hname hlook
  · intro s' h' hview'
    rw [hview₁] at hview'
    exact hQ s' h' hview'

/-! ### Removing -/

/-- The entry of a file is taken out of its directory. -/
theorem Good.removeEntry (h : Good s fun _ => 0) {leaf : Path}
    (hreached : d ∈ reached rootIno s.view.dirs) (hlook : s.view.look d leaf = some i)
    (hfile : ¬s.view.IsDir i) : PlainName leaf ∧ ∃ pos prev s₁,
      removeSearch (s.block ((s.view.inode d).block 0)) i 4096 0 0 = some (pos, prev) ∧
      (bwrite ((s.view.inode d).block 0) (removeRecord (s.block ((s.view.inode d).block 0)) pos prev)).run s =
        (some (), s₁) ∧
      Good s₁ (fun _ => 0) ∧ s₁.view.dirs = s.view.dirs.unlink d leaf ∧ s₁.view.inode = s.view.inode ∧
      ∀ j, ¬s.view.IsDir j → s₁.view.file j = s.view.file j := by
  have ht := h.sound.tree
  have hplainOf : ∀ {name}, s.view.look d name = some i → PlainName name := by
    intro name hentry
    by_contra hspecial
    exact hfile (ht.dir_of_not_plain hreached hentry hspecial)
  have hplain := hplainOf hlook
  have hd : s.view.IsDir d := ht.look_dir hlook
  obtain ⟨hblock, -, hlow, hhigh⟩ := h.directory hd
  obtain ⟨-, es, hes, hkinds⟩ := h.sound.listing d hd
  obtain ⟨e, he, rfl, rfl⟩ := (View.look_iff hd hes).1 hlook
  have honly : ∀ e' ∈ es, e'.ino = e.ino → e' = e := by
    intro e' he' hino
    have hentry : s.view.look d e'.name = some e.ino := by rw [View.look_of_mem hd hes he', hino]
    exact hes.eq_of_name he' he (ht.once hentry hlook (hplainOf hentry) hplain).2
  obtain ⟨pos, prev, es', hsearch, hes', hmem⟩ := hes.removeRecord he honly hplain.1
  rw [← hblock, block_eq_data s hlow hhigh]
  have hview := view_writeData s hlow hhigh (removeRecord (s.view.data (s.view.ptr d 0)) pos prev)
  obtain ⟨hsound, hdirs⟩ := h.sound.unlink hd hes hkinds hes'.clip hmem hplain he
  rw [← hview] at hsound hdirs
  refine ⟨hplain, pos, prev, _, hsearch, run_bwrite h.toLayout hhigh _,
    ⟨h.toRegular.writeBlock (by omega) _, hsound⟩, hdirs, ?_, ?_⟩
  · rw [hview]
    rfl
  · intro j hj
    rw [hview]
    exact h.sound.file_setFirst (h.sound.listing d hd).1 _ fun heq => hj (heq ▸ hd)

/-- With a name that is not special at its end, a path is located below its
directory. -/
theorem location_concat {path leaf : Path} {names : List Path} (h : components path = names ++ [leaf])
    (hleaf : PlainName leaf) : location path = Tree.normalize dotName dotdotName names ++ [leaf] := by
  rw [location, h, Tree.normalize_concat, Tree.normalizeStep, if_neg hleaf.1, if_neg hleaf.2]

/-- **`ext2_remove`** removes a file, or does nothing. -/
theorem Good.wp_ext2Remove (h : Good s fun _ => 0) (path : Path)
    (hQ : ∀ s', Good s' (fun _ => 0) → Assigns s.view s'.view (location path) none →
      NamesFrom [] s.view s'.view → Q () s')
    (hE : E s) : wp (ext2Remove path) Q E s := by
  have ht := h.sound.tree
  have hroot := h.sound.root_used
  rw [ext2Remove, wp_bind, walk]
  rcases List.eq_nil_or_concat (components path) with hnil | ⟨names, leaf, hconcat⟩
  · -- the root is no file
    rw [hnil, walkFrom, wp_pure, wp_bind, wp_require]
    refine ⟨fun _ => ?_, fun _ => hE⟩
    rw [wp_bind, wp_of_eq (h.run_inodeGet hroot), wp_bind, wp_require]
    refine ⟨fun hfile => absurd ht.root_dir ?_, fun _ => hE⟩
    exact fun hdir => Bool.noConfusion (hfile.symm.trans hdir)
  rw [List.concat_eq_append] at hconcat
  have hwalk := h.run_walkFrom leaf names rootIno
  rw [hconcat]
  cases hd : resolve s.view.look rootIno names with
  | none =>
    rw [hd] at hwalk
    rw [wp_of_eq_none hwalk]
    exact hE
  | some d =>
    rw [hd] at hwalk
    rw [wp_of_eq hwalk, wp_bind, wp_require]
    refine ⟨fun hfound => ?_, fun _ => hE⟩
    cases hlook : s.view.look d leaf with
    | none =>
      simp only [hlook] at hfound
      exact absurd rfl hfound
    | some i =>
      have hreached : d ∈ reached rootIno s.view.dirs := ⟨names, hd⟩
      have hi : s.view.Used i := (ht.closed_reached i ((ht.closed_reached d hreached).2 leaf i hlook)).1
      simp only [hlook, Option.getD_some]
      rw [wp_bind, wp_of_eq (h.run_inodeGet hi), wp_bind, wp_require]
      refine ⟨fun hreg => ?_, fun _ => hE⟩
      have hfile : ¬s.view.IsDir i := fun hdir => Bool.noConfusion (hreg.symm.trans hdir)
      obtain ⟨hplain, pos, prev, s₁, hsearch, hwrite, h₁, hdirs₁, hinode₁, hfiles₁⟩ :=
        h.removeEntry hreached hlook hfile
      have hdir := ht.look_dir hlook
      obtain ⟨hblock, -, -, hhigh⟩ := h.directory hdir
      rw [hblock] at hhigh
      rw [wp_bind, wp_of_eq (h.run_inodeGet (ht.dir_used hdir)), wp_bind, wp_bread h.toLayout hhigh, hsearch]
      rw [wp_bind, wp_of_eq hwrite, wp_bind]
      have hptr₁ : pointer s₁.view.data (s.view.inode i) = s₁.view.ptr i := by
        rw [← hinode₁]
        rfl
      refine h₁.wp_releaseInode hptr₁ ?_
      intro s₂ hreg₂ hview₂
      rw [wp_bind, wp_require]
      refine ⟨fun _ => ?_, fun hok => absurd rfl hok⟩
      have hi₁ : s₁.view.Used i := (congrFun (congrArg Dirs.used hdirs₁) i).mpr hi
      have hfile₁ : ¬s₁.view.IsDir i := by rwa [View.IsDir, hinode₁]
      rw [wp_bind]
      refine wp_dropInode hreg₂ h₁.sound hview₂ hi₁ hfile₁ ?_ ?_
      · -- the entry that has been removed was the only one
        intro d' name' hname' hentry
        have hlook₁ : s₁.view.look d' name' = if d' = d ∧ name' = leaf then none else s.view.look d' name' :=
          congrFun (congrFun (congrArg Dirs.look hdirs₁) d') name'
        rw [hlook₁] at hentry
        split_ifs at hentry with hsame
        exact hsame (ht.once hentry hlook hname' hplain)
      · intro s' h' hview'
        refine hQ s' h' ?_ fun d' n j hentry => .inl ?_
        case refine_2 =>
          have hentry₁ : s₁.view.look d' n = some j := look_of_without (hview' ▸ hentry)
          have hlook₁ : s₁.view.look d' n = if d' = d ∧ n = leaf then none else s.view.look d' n :=
            congrFun (congrFun (congrArg Dirs.look hdirs₁) d') n
          rw [hlook₁] at hentry₁
          split_ifs at hentry₁
          exact hentry₁
        have hgone := effect_without hi₁ hfile₁
        rw [← hview', hdirs₁] at hgone
        rw [location_concat hconcat hplain]
        refine Effect.assigns_none ⟨hgone.keeps, fun j hj hnot hne => ?_⟩ h.sound (Tree.plain_normalize _) hplain
          (ht.resolve_normalize hd) hlook hfile
        have hj₁ : s₁.view.Used j := (congrFun (congrArg Dirs.used hdirs₁) j).mpr hj
        have hnot₁ : ¬s₁.view.IsDir j := by rwa [View.IsDir, hinode₁]
        rw [hgone.files j hj₁ hnot₁ hne, hfiles₁ j hnot]

end OS64.Ext2
