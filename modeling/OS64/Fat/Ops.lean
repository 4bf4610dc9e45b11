import OS64.Fat.Outcomes

/-!
# Changes at one name

How a path is resolved, in terms of the volume alone (`OS64.Fat.Safe.parentDir_eq`), and what
the calls for small files do to what is found under the names. Creating and storing a file
change one name of one directory and nothing else (`OS64.Fat.Touches`), whether they succeed
or not (`OS64.Fat.Safe.diskCreate_touches`, `OS64.Fat.Safe.diskStore_touches`); removing takes
one entry away (`OS64.Fat.Removed`).

All of it follows from the ways the calls can end, and holds in a safe state whatever the
table has in its entry 0. A state with the invariant is one (`OS64.Fat.Inv.safe`).
-/

namespace OS64.Fat

open Function Option

variable {s s' : State} {D : Set ℕ} {g : Prop} {d i : ℕ} {k : List UInt8} {n : Path} {e : Entry}

theorem Inv.safe (h : Inv s D) : Safe s D False :=
  ⟨h.layout, ⟨h.sound.unsized, False.elim, False.elim⟩, h.next_ge, h.next_le⟩

/-! ### Paths -/

theorem Safe.findSlot_dirRead (h : Safe s D g) (hd : d ∈ D) (n : Path) :
    findSlot (Fat.dirRead s d) n = Slots.find Entry.name 16 (s.volume.dir d) (name83 n) := by
  rw [h.dirRead hd, findSlot_eq]
  rfl

theorem Safe.subdirectory_eq (h : Safe s D g) (hd : d ∈ D) (component : Path) :
    subdirectory s d component = s.volume.child d (name83 (component.take 12)) := by
  rw [Fat.subdirectory, h.findSlot_dirRead hd, Volume.child, Volume.lookup, Slots.lookup, h.dirRead hd]
  rcases hfind : Slots.find Entry.name 16 (s.volume.dir d) (name83 (component.take 12)) with _ | i
  · rfl
  · obtain ⟨-, e, he, -⟩ := Slots.find_eq_some hfind
    obtain ⟨-, hdir, hcluster, -⟩ := entry_eq_some he
    rw [bind_some, he]
    simp only [hdir, hcluster]

variable {d' : ℕ} {ok : Bool} {data : ℕ → UInt8}

theorem Safe.child_mem (h : Safe s D g) (hd : d ∈ D) {component : Path}
    (hchild : s.volume.child d (name83 (component.take 12)) = some d') : d' ∈ D :=
  h.sound.mem_of_hasDir (h.hasDir_of_subdirectory hd ((h.subdirectory_eq hd component).trans hchild))

theorem Safe.walk_eq (h : Safe s D g) : ∀ (cs : List Path) {d : ℕ}, d ∈ D →
    Fat.walk s d cs = s.volume.walk d (cs.map fun component => name83 (component.take 12))
  | [], _, _ => rfl
  | component :: cs, d, hd => by
    rw [Fat.walk, List.map_cons, Volume.walk, h.subdirectory_eq hd]
    rcases hchild : s.volume.child d (name83 (component.take 12)) with _ | d'
    · rfl
    · exact Safe.walk_eq h cs (h.child_mem hd hchild)

/-- A path leads to a directory. -/
theorem Safe.walk_mem (h : Safe s D g) {path : Path}
    (hwalk : s.volume.walk 2 (directories path) = some d) : d ∈ D :=
  (h.walk _ h.sound.root ((h.walk_eq _ h.sound.root).trans hwalk)).1

/-- **Resolving a path** in terms of the volume. -/
theorem Safe.parentDir_eq (h : Safe s D g) (path : Path) : Fat.parentDir s path =
    if leafOf path = [] then none
    else (s.volume.walk 2 (directories path)).map fun d => (d, leafOf path) := by
  rw [Fat.parentDir, h.layout.rootCluster, h.walk_eq _ h.sound.root, directories]

/-! ### Touching a name -/

/-- All that happens from `s` to `s'` happens to the name `k` in directory `d`:
other names keep their entries and the files their contents, and no directory
comes or goes. -/
structure Touches (s s' : State) (D : Set ℕ) (d : ℕ) (k : List UInt8) : Prop where
  lookup : ∀ d' ∈ D, ∀ q, (d', name83 q) ≠ (d, k) →
    s'.volume.lookup d' (name83 q) = s.volume.lookup d' (name83 q)
  data : ∀ d' ∈ D, ∀ q, (d', name83 q) ≠ (d, k) → ∀ e, s.volume.lookup d' (name83 q) = some e →
    e.isDir = false → e.cluster ≠ 0 → s'.sector e.cluster = s.sector e.cluster
  child : s'.volume.child d k = s.volume.child d k
  mounted : s'.mounted = s.mounted

theorem Touches.refl (s : State) (D : Set ℕ) (d : ℕ) (k : List UInt8) : Touches s s D d k :=
  ⟨fun _ _ _ _ => rfl, fun _ _ _ _ _ _ _ _ => rfl, rfl, rfl⟩

theorem Touches.trans {s₁ s₂ s₃ : State} (h : Touches s₁ s₂ D d k) (h' : Touches s₂ s₃ D d k) :
    Touches s₁ s₃ D d k where
  lookup d' hd' q hq := (h'.lookup d' hd' q hq).trans (h.lookup d' hd' q hq)
  data d' hd' q hq e he hdir hne :=
    (h'.data d' hd' q hq e ((h.lookup d' hd' q hq).trans he) hdir hne).trans
      (h.data d' hd' q hq e he hdir hne)
  child := h'.child.trans h.child
  mounted := h'.mounted.trans h.mounted

/-- No directory comes or goes: paths resolve as before. -/
theorem Touches.child_eq (ht : Touches s s' D d k) (hd' : d' ∈ D) (q : Path) :
    s'.volume.child d' (name83 q) = s.volume.child d' (name83 q) := by
  by_cases hq : (d', name83 q) = (d, k)
  · cases hq
    exact ht.child
  · rw [Volume.child, Volume.child, ht.lookup d' hd' q hq]

theorem Touches.walk (h : Safe s D g) (ht : Touches s s' D d k) : ∀ (cs : List Path) {d' : ℕ}, d' ∈ D →
    s'.volume.walk d' (cs.map fun component => name83 (component.take 12)) =
      s.volume.walk d' (cs.map fun component => name83 (component.take 12))
  | [], d', _ => rfl
  | component :: cs, d', hd' => by
    rw [List.map_cons, Volume.walk, Volume.walk, ht.child_eq hd']
    rcases hchild : s.volume.child d' (name83 (component.take 12)) with _ | d''
    · rfl
    · exact Touches.walk h ht cs (h.child_mem hd' hchild)

theorem Touches.parentDir {D' : Set ℕ} (h : Safe s D g) (h' : Safe s' D' g) (ht : Touches s s' D d k)
    (path : Path) : parentDir s' path = parentDir s path := by
  rw [h'.parentDir_eq, h.parentDir_eq, directories, ht.walk h _ h.sound.root]

/-- Where only files have the name, no directory is found under it. -/
theorem child_eq_none (hfile : ∀ j < 16, ∀ e, entry (s.sector d) j = some e → e.name = k →
    e.isDir = false) : s.volume.child d k = none := by
  rcases hl : s.volume.lookup d k with _ | e
  · exact Volume.child_of_none hl
  · obtain ⟨j, hj, he, hname⟩ := Slots.exists_of_lookup hl
    exact Volume.child_of_file hl (hfile j hj e he hname)

/-- A slot has been written, and the cluster of its file perhaps. -/
theorem touches_of_slot {x : Option Entry}
    (hslot : entry (s'.sector d) = update (entry (s.sector d)) i x)
    (hother : ∀ d' ∈ D, d' ≠ d → s'.sector d' = s.sector d')
    (hname : ∀ e, entry (s.sector d) i = some e ∨ x = some e → e.name = k)
    (hfile : ∀ j < 16, ∀ e, entry (s.sector d) j = some e ∨ x = some e → e.name = k → e.isDir = false)
    (hdata : ∀ d' j e, s.volume.Holds D d' j e → (d', e.name) ≠ (d, k) → e.isDir = false →
      e.cluster ≠ 0 → s'.sector e.cluster = s.sector e.cluster)
    (hm : s'.mounted = s.mounted) : Touches s s' D d k := by
  refine ⟨fun d' hd' q hq => ?_, fun d' hd' q hq e he => ?_, ?_, hm⟩
  · rw [Volume.lookup, Volume.lookup, volume_dir, volume_dir]
    by_cases hdd : d' = d
    · subst hdd
      have hqk : k ≠ name83 q := fun hqk => hq (by rw [hqk])
      rw [hslot]
      exact Slots.lookup_update (fun e he => hname e (.inl he) ▸ hqk) fun e he => hname e (.inr he) ▸ hqk
    · rw [hother d' hd' hdd]
  · obtain ⟨j, hholds, hname⟩ := Volume.holds_of_lookup hd' he
    exact hdata d' j e hholds (hname ▸ hq)
  · rw [child_eq_none fun j hj e he => hfile j hj e (.inl he), child_eq_none fun j hj e he => ?_]
    rw [hslot, update_apply] at he
    split at he
    · exact hfile j hj e (.inr he)
    · exact hfile j hj e (.inl he)

/-! ### Creating and storing -/

theorem Safe.file_notMem (h : Safe s D g) (he : s.volume.Holds D d i e) (hfile : e.isDir = false)
    (hne : e.cluster ≠ 0) : e.cluster ∉ D :=
  h.sound.file_notMem (e := e.unsized) (graph_of_holds he) hfile hne

/-- **`disk_create` for a file** touches the name of the file only. -/
theorem Safe.diskCreate_touches (h : Safe s D g) (hn : 0 ∉ n)
    (hres : Fat.diskCreate s n 0 = (s', ok)) : (s' = s ∧ ok = false) ∨
    (ok = true ∧ ∃ d ∈ D, Fat.parentDir s n = some (d, leafOf n) ∧ Touches s s' D d (name83 (leafOf n))) := by
  have hout := h.creation n
  rw [hres] at hout
  cases hout with
  | refused _ => exact .inl ⟨rfl, rfl⟩
  | full _ _ _ _ _ => exact .inl ⟨rfl, rfl⟩
  | present _ hf => exact .inr ⟨rfl, _, hf.holds.1, hf.parent, .refl _ _ _ _⟩
  | @new d i _ hp hd hnone hfree =>
    have hrange := (h.sound.dirs d hd).1
    have hup := write_spec h.layout hrange.1 hrange.2 (newEntry (s.sector d) i (leafOf n) 0x20 0)
    have hslot := entry_newEntry (s.sector d) i 0x20 (fun h0 => hn (leafOf_subset n h0))
      (show 0 < 2 ^ 32 by decide)
    rw [findSlot_eq] at hnone
    refine .inr ⟨rfl, d, hd, hp, touches_of_slot (i := i) (by rw [hup.sector, update_self, hslot])
      (fun d' _ hne => ?_) (fun e he => ?_) (fun j hj e he hname => ?_) (fun d' j e he _ hdir hne => ?_) rfl⟩
    · rw [hup.sector, update_of_ne hne]
    · rcases he with he | he
      · rw [(freeSlot_eq_some hfree).2] at he
        cases he
      · rw [created_eq_some he]
    · rcases he with he | he
      · exact absurd hname (Slots.find_eq_none.mp hnone j hj e he)
      · rw [created_eq_some he, isDir_file]
    · have hcd : e.cluster ≠ d := fun hcd => h.file_notMem he hdir hne (hcd ▸ hd)
      rw [hup.sector, update_of_ne hcd]

/-- Rewriting an entry touches its name only, where it is found again. -/
theorem Rewritten.touches {c size : ℕ} (h : Safe s D g) (hf : Found s D n d i e)
    (hfile : e.isDir = false) (hw : Rewritten s D s' d i c e data size) :
    Touches s s' D d (name83 (leafOf n)) ∧
      ∃ e', s'.volume.lookup d (name83 (leafOf n)) = some e' ∧ e'.isDir = false ∧ e'.cluster = c ∧
        e'.size = size % 2 ^ 32 := by
  obtain ⟨hd, hi, hslot, -⟩ := hf.holds
  obtain ⟨e₀, he₀, rfl⟩ := map_eq_some_iff.mp hslot
  have hname : e₀.name = name83 (leafOf n) := hf.name
  have hunique : ∀ j < 16, ∀ e, entry (s.sector d) j = some e → e.name = name83 (leafOf n) → j = i := by
    intro j hj e he hk
    exact h.sound.unique d hd j hj i hi e.unsized e₀.unsized (by rw [graph_dir, listing, he]; rfl) hslot
      (hk.trans hname.symm)
  have hslot' := hw.slot
  rw [he₀, map_some] at hslot'
  refine ⟨touches_of_slot hslot' (fun d' hd' hne => ?_) (fun e he => ?_) (fun j hj e he hk => ?_)
    (fun d' j e he hk hdir hne => ?_) hw.mounted, e₀.resized c size, ?_, hfile, rfl, rfl⟩
  · refine hw.other d' hne ?_
    rintro rfl
    exact hw.notDir hd'
  · rcases he with he | he
    · rwa [← some.inj (he₀.symm.trans he)]
    · rwa [← some.inj he]
  · rcases he with he | he
    · rw [hunique j hj e he hk, he₀] at he
      rwa [← some.inj he]
    · rwa [← some.inj he]
  · -- the cluster of another file is not that of this one
    have hheads := h.sound.heads d' j _ (graph_of_holds he) hne
    refine hw.other _ (fun hcd => h.file_notMem he hdir hne (hcd ▸ hd)) fun hc => ?_
    rcases hw.owned with rfl | hfree
    · obtain ⟨rfl, rfl⟩ := h.sound.separate d' j _ d i _ (graph_of_holds he) hf.holds hc hne
      have heq := some.inj (he₀.symm.trans he.2.2.1)
      exact hk (by rw [← heq, hname])
    · exact hheads.2.2.1 (hc ▸ hfree)
  · rw [Volume.lookup, volume_dir, hslot']
    refine Slots.lookup_update_self hi (fun j hj hji e he hk => hji (hunique j hj e he hk)) fun e he => ?_
    rwa [← some.inj he]

/-- **`disk_store`** touches the name of the file only; when it succeeds the file
is there, with its size, and the data in its cluster. -/
theorem Safe.diskStore_touches (h : Safe s D g) (hn : 0 ∉ n) {size : ℕ}
    (hres : Fat.diskStore s n data size = (s', ok)) : (s' = s ∧ ok = false) ∨
    ∃ d ∈ D, Fat.parentDir s n = some (d, leafOf n) ∧ Touches s s' D d (name83 (leafOf n)) ∧
      (ok = true → size ≤ 512 ∧ ∃ e, s'.volume.lookup d (name83 (leafOf n)) = some e ∧
        e.isDir = false ∧ e.size = size ∧
        (size ≠ 0 → InRange e.cluster ∧ s'.sector e.cluster = fileSector data size)) := by
  have hout := h.smallStore hn data size
  rw [hres] at hout
  cases hout with
  | refused _ => exact .inl ⟨rfl, rfl⟩
  | stopped hc =>
    rcases h.diskCreate_touches hn hc with ⟨rfl, -⟩ | ⟨-, d, hd, hp, ht⟩
    · exact .inl ⟨rfl, rfl⟩
    · exact .inr ⟨d, hd, hp, ht, fun hok => absurd hok (by decide)⟩
  | @written s₁ _ d i c e hsize hc h₁ hf hfile hw =>
    rcases h.diskCreate_touches hn hc with ⟨-, hfalse⟩ | ⟨-, d₀, hd, hp, ht⟩
    · cases hfalse
    -- the path still resolves to the same directory
    have hp' := hf.parent
    rw [ht.parentDir h h₁, hp] at hp'
    obtain ⟨rfl, -⟩ := Prod.mk.inj (some.inj hp')
    obtain ⟨ht', e', hl, hdir, rfl, he'⟩ := hw.touches h₁ hf hfile
    rw [Nat.mod_eq_of_lt (by omega)] at he'
    exact .inr ⟨d₀, hd, hp, ht.trans ht', fun _ => ⟨hsize, e', hl, hdir, he', hw.data⟩⟩

/-! ### Removing -/

/-- The entry `e` in slot `i` of directory `d` has been deleted. -/
structure Removed (s : State) (D : Set ℕ) (s' : State) (d i : ℕ) (e : Entry) : Prop where
  holds : s.volume.Holds D d i e
  sector : s'.sector = update s.sector d (setDeleted (s.sector d) i)
  mounted : s'.mounted = s.mounted

/-- **`disk_remove`** takes one entry away. -/
theorem Safe.diskRemove_removed (h : Safe s D g) (hres : Fat.diskRemove s n = (s', ok)) :
    (s' = s ∧ ok = false) ∨ (ok = true ∧ ∃ d i e, Fat.parentDir s n = some (d, leafOf n) ∧
      e.name = name83 (leafOf n) ∧ Removed s D s' d i e) := by
  have hout := h.removal n
  rw [hres] at hout
  cases hout with
  | refused => exact .inl ⟨rfl, rfl⟩
  | @removed d i e _ hf hup =>
    obtain ⟨e₀, he₀, rfl⟩ := holds_of_graph hf.holds
    exact .inr ⟨rfl, d, i, e₀, hf.parent, hf.name, he₀, hup.sector, hup.mounted⟩

end OS64.Fat
