import OS64.Ext2.Blocks

/-!
# Directories and files

The files of a volume are what its paths lead to (`OS64.Ext2.View.fileAt`), and
`OS64.Ext2.Effect` says what becomes of them when a few inodes change. `dir_find`
is the table of directories (`OS64.Ext2.Good.run_dirFind`), and a walk that creates
nothing is `Tree.resolve` in it (`OS64.Ext2.Good.run_locate`).

`dir_add` does not ask whether it is a directory that it adds an entry to. It takes
the first block of any inode for a sequence of records and looks for room there
(`OS64.Ext2.View.room`, `OS64.Ext2.Good.wp_dirAdd`); it is an entry of a directory
only if it was called for one (`OS64.Ext2.Sound.withEntry`).
-/

namespace OS64

namespace Ext2

open List ByteMem Bits Fallible Pointers
open Tree (resolve)

/-! ### Files -/

variable {names : List Path} {name : Path} {Q : Unit → State → Prop} {d i : ℕ}

/-- A file: its bytes and its attributes. -/
structure File where
  bytes : List UInt8
  mode : ℕ
  uid : ℕ
  gid : ℕ
  deriving DecidableEq

namespace View

variable (v : View)

/-- Inode `i` as a file. -/
def file (i : ℕ) : File :=
  ⟨v.content i, (v.inode i).mode &&& 0o777, (v.inode i).uid, (v.inode i).gid⟩

/-- The regular file under a path. -/
def fileAt (names : List Path) : Option File :=
  (Tree.resolve v.look rootIno names).bind fun i => if (v.inode i).isDir then none else some (v.file i)

end View

/-- A name other than `.` and `..`. -/
abbrev PlainName : Path → Prop := Tree.Plain dotName dotdotName

variable {v v' : View} {P : ℕ → ℕ}

/-- The file under a path that leads to inode `i`. -/
theorem View.fileAt_of_resolve
    (h : resolve v.look rootIno names = some i) :
    v.fileAt names = if (v.inode i).isDir then none else some (v.file i) := by
  rw [View.fileAt, h, Option.bind_some]

/-- The contents are in the blocks below the size. -/
theorem content_congr (hsize : (v'.inode i).size = (v.inode i).size)
    (hdata : ∀ j, j * 4096 < (v.inode i).size →
      v'.data (v'.ptr i (place j)) = v.data (v.ptr i (place j))) : v'.content i = v.content i := by
  rw [View.content, View.content, hsize, flatMap_def, flatMap_def]
  refine congrArg (fun l => (List.flatten l).take _) (map_congr_left fun j hj => ?_)
  rw [hdata j (by have := mem_range.1 hj; omega)]

/-- A file is its contents and its attributes. -/
theorem file_congr (hsame : SameAttr (v.inode i) (v'.inode i))
    (hdata : ∀ j, j * 4096 < (v.inode i).size →
      v'.data (v'.ptr i (place j)) = v.data (v.ptr i (place j))) : v'.file i = v.file i := by
  rw [View.file, View.file, content_congr hsame.size hdata, hsame.mode, hsame.uid, hsame.gid]

/-! ### What a change keeps -/

/-- The nodes in use have stayed as `t` has them, and the files, apart from `X`, as
they were. -/
structure Effect (t : Tree.Dirs ℕ Path) (X : ℕ → Prop) (v v' : View) : Prop where
  keeps : Tree.Keeps t v'.dirs
  files : ∀ i, v.Used i → ¬v.IsDir i → ¬X i → v'.file i = v.file i

theorem Untouched.file (h : Untouched v v') (hs : Sound v P) (hi : ¬v.IsDir i) : v'.file i = v.file i := by
  refine file_congr (by rw [h.inode]; exact SameAttr.refl _) fun j hj => ?_
  rw [h.ptr, h.data i (place j) ((hs.whole i hi).2 j hj)]

/-- Every entry was there before, or is special, or has one of some names. -/
def NamesFrom (names : List Path) (v v' : View) : Prop :=
  ∀ d n i, v'.look d n = some i → v.look d n = some i ∨ n ∈ names ∨ ¬PlainName n

theorem NamesFrom.of_look_eq (h : v'.look = v.look) : NamesFrom names v v' :=
  fun d n i hlook => .inl (by rwa [h] at hlook)

variable {t : Tree.Dirs ℕ Path} {X : ℕ → Prop} {j p : ℕ} {n : Inode}

/-- A node in use that is kept is the same file, or none. -/
theorem Effect.fileOf (h : Effect t X v v')
    (hi : v.Used i) (ht : t.used i) (htdir : t.dir i ↔ v.IsDir i) (hX : ¬X i) :
    (if (v'.inode i).isDir then none else some (v'.file i)) = if (v.inode i).isDir then none else some (v.file i) := by
  have hdir : v'.IsDir i ↔ v.IsDir i := (h.keeps.dir ht).trans htdir
  by_cases hd : v.IsDir i
  · have hd' := hdir.2 hd
    rw [View.IsDir] at hd hd'
    rw [if_pos hd, if_pos hd']
  · have hfile := h.files i hi hd hX
    have hd' : ¬v'.IsDir i := fun hd' => hd (hdir.1 hd')
    rw [View.IsDir] at hd hd'
    rw [if_neg hd, if_neg hd', hfile]

theorem Sound.root_used (h : Sound v P) : v.Used rootIno := h.tree.dir_used h.tree.root_dir

/-- The files under the paths that lead where they led before. -/
theorem Effect.fileAt_eq (h : Effect t X v v') (hs : Sound v P)
    (hres : resolve v'.look rootIno names = resolve v.look rootIno names)
    (hkept : ∀ i, resolve v.look rootIno names = some i → t.used i ∧ (t.dir i ↔ v.IsDir i) ∧ ¬X i) :
    v'.fileAt names = v.fileAt names := by
  rw [View.fileAt, View.fileAt, hres]
  cases hi : resolve v.look rootIno names with
  | none => rfl
  | some i =>
    obtain ⟨ht, htdir, hX⟩ := hkept i hi
    exact h.fileOf (hs.tree.resolve_used hi) ht htdir hX

/-! ### Directories on the disk -/

variable {s : State} {E : State → Prop}

/-- `inode_get` on an inode in use. -/
theorem Good.run_inodeGet (h : Good s P) (hi : s.view.Used i) : (inodeGet i).run s = (some (s.view.inode i), s) :=
  Ext2.run_inodeGet h.toLayout hi.1 hi.2.1

/-- The block of a directory. -/
theorem Good.directory (h : Good s P) (hd : s.view.IsDir d) :
    s.view.ptr d 0 = (s.view.inode d).block 0 ∧ s.view.ptr d 0 ≠ 0 ∧ 260 ≤ s.view.ptr d 0 ∧ s.view.ptr d 0 < 16384 := by
  have hne := (h.sound.listing d hd).1
  obtain ⟨hlow, hhigh, -⟩ := h.sound.ptr_allocated hne
  exact ⟨s.view.ptr_of_lt (by decide), hne, hlow, hhigh⟩

/-- An inode that is not in the table. -/
theorem run_inodeGet_none (hrange : ¬(1 ≤ d ∧ d ≤ 8192)) : s.view.inode d = zero ∧ (inodeGet d).run s = (none, s) := by
  have hrange' : ¬(d ≠ 0 ∧ d ≤ inodes) := fun hand => hrange ⟨by omega, hand.2⟩
  refine ⟨if_neg hrange, ?_⟩
  rw [inodeGet, run_bind_none (run_require_neg hrange' s)]

/-- **`dir_find`** looks into the table of directories. -/
theorem Good.run_dirFind (h : Good s P) (d : ℕ) (name : Path) : (dirFind d name).run s = (s.view.look d name, s) := by
  rw [dirFind]
  by_cases hrange : 1 ≤ d ∧ d ≤ 8192
  · rw [run_bind_some (Ext2.run_inodeGet h.toLayout hrange.1 hrange.2)]
    by_cases hd : s.view.IsDir d
    · obtain ⟨hblock, hne, hlow, hhigh⟩ := h.directory hd
      rw [hblock] at hne hlow hhigh
      rw [View.IsDir] at hd
      rw [run_bind_some (run_require_pos hd s), run_bind_some (run_require_pos hne s),
        run_bind_some (run_bread h.toLayout hhigh), View.look, if_pos hd, block_eq_data s hlow hhigh]
      cases dirSearch (s.view.data ((s.view.inode d).block 0)) name <;> rfl
    · rw [View.look_of_not_isDir hd]
      rw [View.IsDir] at hd
      rw [run_bind_none (run_require_neg hd s)]
  · obtain ⟨hzero, hnone⟩ := run_inodeGet_none hrange
    rw [run_bind_none hnone, View.look_of_not_isDir]
    rw [View.IsDir, hzero]
    exact Bool.false_ne_true

/-- The first block of an inode is not one of another file. -/
theorem Sound.file_setFirst (h : Sound v P) (hfirst : v.ptr d 0 ≠ 0) (c : ByteMem)
    (hj : j ≠ d) : (v.setData (v.ptr d 0) c).file j = v.file j := by
  refine file_congr (SameAttr.refl _) fun k _ => ?_
  rw [h.ptr_setFirst hfirst]
  exact h.data_setFirst hfirst c fun heq => hj heq.1

/-! ### Single changes -/

/-- Blocks held in memory may be forgotten: they stay taken, and nothing points to
them. -/
theorem Sound.forget (h : Sound v P) : Sound v fun _ => 0 := by
  refine (Untouched.refl v).sound h ⟨?_, ?_⟩
  · rintro (⟨i, k⟩ | k) (⟨i', k'⟩ | k') heq hne
    · exact congrArg Sum.inl (Prod.ext_iff.2 (h.exclusive.ptr_inj heq hne))
    · exact absurd heq hne
    · exact absurd rfl hne
    · exact absurd rfl hne
  · rintro (⟨i, k⟩ | k) hne
    · exact h.ptr_allocated hne
    · exact absurd rfl hne

/-- `counters` for a change of the number of directories. -/
theorem Regular.wp_counters (h : Regular s) (dd : ℤ)
    (hQ : ∀ s', Regular s' → s'.view = s.view → Q () s') : wp (counters 0 0 dd) Q E s :=
  Ext2.wp_counters h.toLayout _ _ h.superBlocks h.superInodes h.groupBlocks h.groupInodes
    (add_zero _).symm (add_zero _).symm hQ

/-- `inode_put`, where only attributes change. -/
theorem Good.wp_putAttributes (h : Good s P)
    (hi : s.view.Used i) (hblock : ∀ k < 13, n.block k = (s.view.inode i).block k)
    (hdir : n.isDir = (s.view.inode i).isDir) (hsize : n.size = (s.view.inode i).size)
    (hQ : ∀ s', Good s' P → s'.view.dirs = s.view.dirs → s'.view.ptr = s.view.ptr →
      s'.view = s.view.setInode i (clipRecord n) → Q () s') : wp (inodePut i n) Q E s := by
  refine wp_inodePut h.toRegular hi.1 hi.2.1 n ?_
  intro s' hreg hview
  obtain ⟨hsound, hdirs, hptr⟩ := h.sound.putAttributes (n := clipRecord n) hi
    (fun k hk => (block_clipRecord (by omega)).trans (hblock k hk)) ((isDir_clipRecord n).trans hdir)
    ((size_clipRecord n).trans hsize)
  rw [← hview] at hsound hdirs hptr
  exact hQ s' ⟨hreg, hsound⟩ hdirs hptr hview

/-- Other inodes are the same files. -/
theorem file_setInode (hne : j ≠ i) : (v.setInode i n).file j = v.file j := by
  refine file_congr ?_ fun k _ => ?_
  · rw [inode_setInode_of_ne v hne]
    exact SameAttr.refl _
  · rw [ptr_setInode, Function.update_of_ne hne]
    rfl

/-- A directory has entries `.` and `..`, so a name without an entry is another
one. -/
theorem Sound.plain_of_look_none (h : Sound v P) (hd : v.IsDir d)
    (hnone : v.look d name = none) : PlainName name := by
  constructor
  · rintro rfl
    have hdot := h.tree.look_dot hd
    exact Option.some_ne_none _ (hdot.symm.trans hnone)
  · rintro rfl
    obtain ⟨p, hp⟩ := h.tree.look_dotdot hd
    exact Option.some_ne_none _ (hp.symm.trans hnone)

/-! ### Adding an entry -/

namespace View

variable (v : View)

/-- The record that `dir_add` puts a new one behind: one of the first block of `d`,
whether this is a directory or not. -/
def room (d : ℕ) (name : Path) : Option ℕ :=
  if (name.length ≠ 0 ∧ name.length ≤ 255) ∧ v.ptr d 0 ≠ 0 then
    (positions (v.data (v.ptr d 0)) 512 0).find? (hasRoom (v.data (v.ptr d 0)) (ideal name.length))
  else none

/-- The first block of `d` with a new record behind the one at `p`. -/
def withEntry (d p : ℕ) (name : Path) (i : ℕ) (kind : UInt8) : View :=
  v.setData (v.ptr d 0) (clip (addRecord (v.data (v.ptr d 0)) p name i kind))

end View

theorem first_ne_zero_of_room (h : v.room d name = some p) : v.ptr d 0 ≠ 0 := by
  rw [View.room] at h
  split_ifs at h with hcond
  exact hcond.2

/-- **`dir_add`** writes a record where there is room for it. -/
theorem Good.wp_dirAdd (h : Good s P) (d : ℕ) (name : Path) (i : ℕ) (kind : UInt8)
    (hQ : ∀ p s', s.view.room d name = some p → Regular s' → s'.view = s.view.withEntry d p name i kind → Q () s')
    (hE : s.view.room d name = none → E s) : wp (dirAdd d name i kind) Q E s := by
  rw [dirAdd, wp_bind, wp_require]
  refine ⟨fun hlength => ?_, fun hlength => hE (if_neg fun hand => hlength hand.1)⟩
  by_cases hrange : 1 ≤ d ∧ d ≤ 8192
  · rw [wp_bind, wp_of_eq (Ext2.run_inodeGet h.toLayout hrange.1 hrange.2), ← s.view.ptr_of_lt (by decide),
      wp_bind, wp_require]
    refine ⟨fun hne => ?_, fun hzero => hE (if_neg fun hand => hzero hand.2)⟩
    obtain ⟨hlow, hhigh, -⟩ := h.sound.ptr_allocated hne
    have hroom : s.view.room d name = (positions (s.view.data (s.view.ptr d 0)) 512 0).find?
        (hasRoom (s.view.data (s.view.ptr d 0)) (ideal name.length)) := if_pos ⟨hlength, hne⟩
    rw [wp_bind, wp_bread h.toLayout hhigh, block_eq_data s hlow hhigh, ← hroom]
    cases hfind : s.view.room d name with
    | none => exact hE hfind
    | some p =>
      rw [Ext2.wp_bwrite h.toLayout hhigh]
      exact hQ p _ hfind (h.toRegular.writeBlock (by omega) _) (view_writeData s hlow hhigh _)
  · obtain ⟨hzero, hnone⟩ := run_inodeGet_none hrange
    rw [wp_bind, wp_of_eq_none hnone]
    refine hE (if_neg fun hand => hand.2 ?_)
    rw [View.ptr, hzero, pointer_eq_zero fun k _ => block_zero k]

/-- **A new entry of a directory.** -/
theorem Sound.withEntry (h : Sound v P) {kind : UInt8} (hd : v.IsDir d)
    (hroom : v.room d name = some p) (hkind : kind = 2 ↔ v.IsDir i) (hn : PlainName name)
    (hnone : v.look d name = none) (hi : v.Used i) (hroot : i ≠ rootIno)
    (hnew : ∀ d' name', PlainName name' → v.look d' name' ≠ some i)
    (hup : v.IsDir i → v.look i dotdotName = some d) :
    Sound (v.withEntry d p name i kind) P ∧ (v.withEntry d p name i kind).dirs = v.dirs.link d name i := by
  obtain ⟨-, es, hes, hkinds⟩ := h.listing d hd
  have hnotin : ∀ e ∈ es, e.name ≠ name := by
    rintro e he rfl
    rw [View.look_of_mem hd hes he] at hnone
    cases hnone
  rw [View.room] at hroom
  split_ifs at hroom with hcond
  obtain ⟨hi₁, hi₂, -⟩ := id hi
  obtain ⟨es', hes', hmem⟩ := hes.addRecord kind hcond.1.2 (show i ≠ 0 by omega) (by omega) hnotin hroom
  exact h.link hd hes hkinds hes'.clip hmem hkind hn hnone hi hroot hnew hup

/-! ### Following a path -/

/-- One step of the walk. -/
theorem walkFrom_cons (create : Bool) (cur : ℕ) (name leaf : Path) (names : List Path) :
    walkFrom create cur (name :: (names ++ [leaf])) = (do
      match ← recover (dirFind cur name) with
      | some next => walkFrom create next (names ++ [leaf])
      | none =>
        if create then do
          let next ← makeDir cur name
          walkFrom create next (names ++ [leaf])
        else fail) := by
  cases names <;> rfl

/-- **A walk that creates nothing** follows the table of directories. -/
theorem Good.run_walkFrom (h : Good s P) (leaf : Path) (names : List Path) (cur : ℕ) :
    (walkFrom false cur (names ++ [leaf])).run s =
      ((resolve s.view.look cur names).map fun d => ⟨d, leaf, (s.view.look d leaf).getD 0⟩, s) := by
  induction names generalizing cur with
  | nil =>
    have hfind : (recover (dirFind cur leaf)).run s = (some (s.view.look cur leaf), s) := by
      rw [run_recover, h.run_dirFind]
    rw [nil_append, walkFrom, run_bind_some hfind]
    rfl
  | cons name names ih =>
    have hfind : (recover (dirFind cur name)).run s = (some (s.view.look cur name), s) := by
      rw [run_recover, h.run_dirFind]
    rw [cons_append, walkFrom_cons, run_bind_some hfind, resolve]
    cases hlook : s.view.look cur name with
    | none => rfl
    | some next => exact ih next

/-- **`locate`** resolves the components of the path. -/
theorem Good.run_locate (h : Good s P) (path : Path) :
    (locate path).run s = (resolve s.view.look rootIno (components path), s) := by
  rw [locate, walk]
  rcases eq_nil_or_concat (components path) with hnil | ⟨names, leaf, hconcat⟩
  · rw [hnil]
    rfl
  · rw [hconcat, concat_eq_append, Tree.resolve_concat]
    have hwalk := h.run_walkFrom leaf names rootIno
    cases hd : resolve s.view.look rootIno names with
    | none =>
      rw [hd] at hwalk
      rw [run_bind_none hwalk]
      rfl
    | some d =>
      rw [hd] at hwalk
      rw [run_bind_some hwalk, Option.bind_some]
      cases hlook : s.view.look d leaf with
      | none =>
        have hzero : ¬(s.view.look d leaf).getD 0 ≠ 0 := by
          rw [hlook]
          exact fun hne => hne rfl
        exact run_bind_none (run_require_neg hzero s)
      | some i =>
        have hfound : (s.view.look d leaf).getD 0 = i := by rw [hlook, Option.getD_some]
        have hne : (s.view.look d leaf).getD 0 ≠ 0 := by
          have hd' : d ∈ Tree.reached rootIno s.view.dirs := ⟨names, hd⟩
          have hi := ((h.sound.tree.closed_reached d hd').2 leaf i hlook)
          obtain ⟨hi₁, -⟩ := (h.sound.tree.closed_reached i hi).1
          omega
        refine (run_bind_some (run_require_pos hne s)).trans ?_
        exact congrArg (fun i => (some i, s)) hfound

end Ext2

end OS64
