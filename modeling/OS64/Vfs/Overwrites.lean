import OS64.Fat.Readback
import OS64.Vfs.Volumes

/-!
# Writing to a file that exists

Three backends keep files that can be written. On each of them `vfs_write` for the path of
a file either gives the file the new bytes or leaves it as it was
(`OS64.Vfs.FileAt.overwrite`), as long as both volumes are in order: in a slot of `tmpfs`,
in the first cluster of the chain it has, in blocks that are taken before the old ones are
given back.
-/

namespace OS64.Vfs

open Text Auth ByteMem Option

variable {R : Type} {env : Env R} {s : State R} {p : Path} {t : List UInt8}

/-- The bytes of a list, as the drivers get them. -/
theorem range_map_getD (d : List UInt8) : (List.range d.length).map (fun i => d.getD i 0) = d := by
  refine List.ext_getElem (by simp) fun i hi hi' => ?_
  rw [List.getElem_map, List.getElem_range, List.getD_eq_getElem _ _ hi']

/-! ### Temporary files -/

/-- **A temporary file that exists** gets the bytes if they fit. -/
theorem tmpfsStore_existing {node : Node} (h : tmpLookup s p = some node) (d : List UInt8) (m u g : UInt16) :
    (∃ s' : State R, ∃ node' : Node, tmpfsStore s p d m u g = (s', true) ∧ tmpLookup s' p = some node' ∧
      node'.data = d) ∨ tmpfsStore s p d m u g = (s, false) := by
  rw [tmpfsStore]
  by_cases hd : d.length ≤ 2048
  case neg =>
    rw [dif_neg hd]
    exact .inr rfl
  rw [dif_pos hd]
  obtain ⟨i, hi, hnode⟩ := bind_eq_some_iff.mp h
  have hlt := (find_of_tmpFind hi).1
  have hslot : Slots.ofList s.nodes i = some node := hnode
  refine .inl ⟨s.putNode i (some { node with data := d, data_fits := hd }), { node with data := d, data_fits := hd },
    ?_, ?_, rfl⟩
  · simp only [hi, hnode]
  · -- the slot is the first with this path, as it was before
    rw [tmpLookup_eq, length_putNode, ofList_putNode s hlt, Slots.lookup,
      Slots.find_replace (by rw [hslot]; rfl), ← tmpFind_eq, hi, bind_some, Function.update_self]

/-! ### The volume of `/home` -/

theorem homeFile_iff {fat : Fat.State} : HomeFile fat p t ↔ fat.mounted = true ∧ ∃ r i l, Fat.Keeps fat p r i l t := by
  refine and_congr_right fun _ => ?_
  constructor
  · rintro ⟨r, i, l, hfind, hdir, hl, hsize, ht⟩
    exact ⟨r, i, l, hfind, hdir, hl, hsize, ht⟩
  · rintro ⟨r, i, l, hfind, hdir, hl, hsize, ht⟩
    exact ⟨r, i, l, hfind, hdir, hl, hsize, ht⟩

theorem HomeFile.unique {fat : Fat.State} {t' : List UInt8} (h : HomeFile fat p t) (h' : HomeFile fat p t') : t = t' := by
  obtain ⟨-, r, i, l, hfind, -, hl, -, rfl⟩ := h
  obtain ⟨-, r', i', l', hfind', -, hl', -, rfl⟩ := h'
  obtain ⟨rfl, rfl⟩ := Prod.mk.inj (some.inj (hfind.symm.trans hfind'))
  rw [hl.unique hl']

/-- **A file on the volume that exists** gets the bytes, or nothing has changed. -/
theorem HomeFile.diskStore {fat : Fat.State} {D : Set ℕ} (h : HomeFile fat p t) (hsafe : Fat.Safe fat D) (h0 : 0 ∉ p)
    (d : List UInt8) :
    (∃ fat', Fat.diskStore fat p (fun i => d.getD i 0) d.length = (fat', true) ∧ HomeFile fat' p d) ∨
      Fat.diskStore fat p (fun i => d.getD i 0) d.length = (fat, false) := by
  rcases hres : Fat.diskStore fat p (fun i => d.getD i 0) d.length with ⟨fat', _ | _⟩
  · right
    have hout := hsafe.smallStore h0 (fun i => d.getD i 0) d.length
    rw [hres] at hout
    obtain ⟨-, r, i, -, hfind, -⟩ := h
    cases hout with
    | refused _ => rfl
    | stopped hc =>
      -- the entry is there, so none is made
      have hcreation := hsafe.creation p
      rw [hc] at hcreation
      cases hcreation with
      | refused _ => rfl
      | full _ _ _ _ _ => rfl
      | present _ _ => rfl
      | new _ hp _ hnone _ =>
        rw [hsafe.findEntry_eq_none hp hnone] at hfind
        cases hfind
  · left
    obtain ⟨hmounted, r, i, l, hkeeps⟩ := hsafe.readback h0 hres
    rw [range_map_getD] at hkeeps
    exact ⟨fat', rfl, homeFile_iff.mpr ⟨hmounted, r, i, l, hkeeps⟩⟩

/-! ### The volume of `/var` -/

/-- The bytes of a file on the volume, by its path. -/
theorem load_eq_some_iff {ext2 : Ext2.State} {P : ℕ → ℕ} (h : Ext2.Good ext2 P) :
    ((Ext2.ext2Load p t.length).run ext2).1 = some t ↔
      ∃ f, ext2.view.fileAt (Ext2.components p) = some f ∧ f.bytes = t := by
  rw [h.run_ext2Load]
  constructor
  · intro hload
    obtain ⟨f, hf, hbytes⟩ := bind_eq_some_iff.mp hload
    split_ifs at hbytes
    exact ⟨f, hf, some.inj hbytes⟩
  · rintro ⟨f, hf, rfl⟩
    rw [hf, bind_some, if_pos le_rfl]

/-- **A file on the volume that exists** gets the bytes, or can be read as before. -/
theorem store_native (h : Ext2.Good s.ext2 fun _ => 0)
    (ht : ((Ext2.ext2Load p t.length).run s.ext2).1 = some t) (d : List UInt8) :
    (((storeCall s p d).exec.run s.ext2).1 = some () ∧
      ((Ext2.ext2Load p d.length).run ((storeCall s p d).after s.ext2)).1 = some d) ∨
    (((storeCall s p d).exec.run s.ext2).1 = none ∧
      ((Ext2.ext2Load p t.length).run ((storeCall s p d).after s.ext2)).1 = some t) := by
  obtain ⟨f, hf, rfl⟩ := (load_eq_some_iff h).mp ht
  rw [Ext2.Call.after]
  rcases h.store_existing hf (fun i => d.getD i 0) d.length (newMode s.auth) (authGetuid s.auth)
    (authGetgid s.auth) with ⟨e, hrun, hgood, hfile⟩ | ⟨e, hrun, hsame⟩
  · left
    rw [storeCall, hrun]
    refine ⟨rfl, (load_eq_some_iff hgood).mpr ⟨_, hfile, ?_⟩⟩
    rw [bytes]
    simp only [zero_add]
    exact range_map_getD d
  · right
    rw [storeCall, hrun]
    exact ⟨rfl, (hsame.loads p f.bytes.length).trans ht⟩

/-! ### All of them -/

/-- The backend has files that can be written. -/
def Backend.Writable : Backend → Prop
  | .fat32 | .ext2 | .tmpfs => True
  | _ => False

/-- A path leads to one file of a backend. -/
theorem FileAt.unique {k : Backend} {t' : List UInt8} (h : FileAt env s p k t) (h' : FileAt env s p k t') : t = t' := by
  cases h with
  | proc _ ht =>
    cases h' with
    | proc _ ht' => exact some.inj (ht.symm.trans ht')
  | tmp _ hnode =>
    cases h' with
    | tmp _ hnode' => rw [some.inj (hnode.symm.trans hnode')]
  | home _ ht =>
    cases h' with
    | home _ ht' => exact ht.unique ht'
  | native _ ht =>
    cases h' with
    | native _ ht' =>
      rcases Ext2.ext2Load_capacity p s.ext2 with hnone | ⟨t₀, hload⟩
      · rw [hnone] at ht
        cases ht
      · rw [hload] at ht ht'
        split_ifs at ht ht'
        exact some.inj (ht.symm.trans ht')
  | archive _ _ _ _ _ he _ =>
    cases h' with
    | archive _ _ _ _ _ he' _ => rw [some.inj (he.symm.trans he')]

/-- **Writing to a file that exists** gives it the bytes, or leaves it as it was. -/
theorem FileAt.overwrite {k : Backend} (h : FileAt env s p k t) (hk : k.Writable) (hv : Volumes s) (h0 : 0 ∉ p)
    (d : List UInt8) :
    ((vfsWrite env s p d).2 = .ok d.length ∧ FileAt env (vfsWrite env s p d).1 p k d) ∨
      ((vfsWrite env s p d).2 = .error ∧ FileAt env (vfsWrite env s p d).1 p k t) := by
  rcases hcheck : vfsCheckPermission env s p accessWrite with _ | _
  · rw [vfsWrite_denied hcheck]
    exact .inr ⟨rfl, h⟩
  cases h with
  | proc _ _ => exact absurd hk id
  | archive _ _ _ _ _ _ _ => exact absurd hk id
  | tmp hp hnode =>
    rw [vfsWrite_tmp hp hcheck]
    rcases tmpfsStore_existing hnode d (newMode s.auth) (authGetuid s.auth) (authGetgid s.auth) with
      ⟨s', node', hstore, hlook, rfl⟩ | hstore
    · rw [hstore]
      exact .inl ⟨rfl, .tmp hp hlook⟩
    · rw [hstore]
      exact .inr ⟨rfl, .tmp hp hnode⟩
  | home hp ht =>
    obtain ⟨D, hsafe, -⟩ := hv.home
    by_cases hd : d.length ≤ 512
    · rw [vfsWrite_home hp hcheck hd]
      rcases ht.diskStore hsafe h0 d with ⟨fat, hstore, hfile⟩ | hstore
      · rw [hstore]
        exact .inl ⟨rfl, .home hp hfile⟩
      · rw [hstore]
        exact .inr ⟨rfl, .home hp ht⟩
    · rw [vfsWrite_home_large hp hd]
      exact .inr ⟨rfl, .home hp ht⟩
  | native hp ht =>
    rw [vfsWrite_native hp hcheck]
    rcases store_native hv.var ht d with ⟨hok, hload⟩ | ⟨hnone, hload⟩
    · rw [hok]
      exact .inl ⟨rfl, .native hp hload⟩
    · rw [hnone]
      exact .inr ⟨rfl, .native hp hload⟩

/-! ### What is read afterwards -/

/-- Such a file is read as a whole if there is room for it and for a sector. -/
theorem FileAt.delivered_whole {k : Backend} {cap : ℕ} (h : FileAt env s p k t) (hk : k.Writable)
    (hsector : k = .fat32 → t.length ≤ 512) (hcheck : vfsCheckPermission env s p accessRead = true)
    (hcap : 512 ≤ cap) (ht : t.length ≤ cap) :
    ∃ x, delivered env s p cap = some (x, t.length) ∧ x.take t.length = t := by
  cases h with
  | proc _ _ => exact absurd hk id
  | archive _ _ _ _ _ _ _ => exact absurd hk id
  | tmp hp hnode => exact ⟨_, (delivered_tmp hcheck cap hp hnode).2.trans (if_pos ht), List.take_length⟩
  | native hp hload => exact ⟨_, (delivered_native hcheck cap hp hload).2.trans (if_pos ht), List.take_length⟩
  | home hp hfile =>
    have hread := (delivered_home hcheck cap hp hfile).2
    rw [if_neg (not_lt.mpr hcap)] at hread
    obtain ⟨b, hb, htake⟩ := hread
    exact ⟨_, hb, htake.trans (List.take_of_length_le (hsector rfl))⟩

/-- **What is written is read back**, in every state of a run in which all drivers take part: `vfs_write`
for a file either succeeds, and then `vfs_read` delivers the bytes, or leaves the file as it was. -/
theorem read_after_write {level : ℕ} (hlevel : 2 ≤ level ∧ level ≤ 4) (s₀ : State R) {acts : List (Act R)}
    (hzero : ∀ act ∈ acts, act.ZeroFree)
    (hspares : Runs.Throughout (fun before act => act.SparesDirectories (run env level s₀ before)) acts)
    (hs : run env level s₀ acts = s) {k : Backend} (h : FileAt env s p k t) (hk : k.Writable) (h0 : 0 ∉ p)
    (d : List UInt8) :
    ((vfsWrite env s p d).2 = .ok d.length ∧
      ∀ cap, 512 ≤ cap → d.length ≤ cap → vfsCheckPermission env (vfsWrite env s p d).1 p accessRead = true →
        ∃ x, delivered env (vfsWrite env s p d).1 p cap = some (x, d.length) ∧ x.take d.length = d) ∨
    ((vfsWrite env s p d).2 = .error ∧ FileAt env (vfsWrite env s p d).1 p k t) := by
  have hv := volumes_run hlevel s₀ hzero hspares
  rw [hs] at hv
  rcases h.overwrite hk hv h0 d with ⟨hok, hafter⟩ | herror
  · refine .inl ⟨hok, fun cap hcap hd hcheck => hafter.delivered_whole hk ?_ hcheck hcap hd⟩
    rintro rfl
    cases h with
    | home hp _ =>
      by_contra hlarge
      rw [vfsWrite_home_large hp hlarge] at hok
      cases hok
  · exact .inr herror

/-- A system with an empty file `/tmp/a` that all may use. -/
def withTmpFile : State Unit := (tmpfsStore aliceAlone (tmpPrefix ++ [97]) [] 0o777 0 0).1

theorem read_after_write_tmp : ∃ x, delivered quietEnv (vfsWrite quietEnv (run quietEnv 2 withTmpFile [])
    (tmpPrefix ++ [97]) [65]).1 (tmpPrefix ++ [97]) 512 = some (x, 1) ∧ x.take 1 = [65] := by
  obtain ⟨node, hnode⟩ := isSome_iff_exists.mp
    (rfl : (tmpLookup (run quietEnv 2 withTmpFile []) (tmpPrefix ++ [97])).isSome = true)
  rcases read_after_write (by decide) withTmpFile (by simp) (Runs.throughout_nil _) rfl (.tmp rfl hnode) trivial
    (by decide) [65] with ⟨-, hread⟩ | ⟨herror, -⟩
  · exact hread 512 le_rfl (by decide) rfl
  · exact absurd herror (by decide)

end OS64.Vfs
