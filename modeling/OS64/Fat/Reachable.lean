import OS64.Fat.Files
import OS64.Fat.Sizes

/-!
# The states of a run

A safe state whose sizes and counters are right has the invariant, with the directories
one gets to from the root (`OS64.Fat.Safe.inv`). As every call keeps the three, all states
of a run have it (`OS64.Fat.Reachable.inv`), and what it says of the volume and of the files
holds in all of them.
-/

namespace OS64.Fat

variable {s : State} {D : Set ℕ}

theorem has_of_holds {d i : ℕ} {e : Entry} (he : s.volume.Holds {d | LiveDir s d} d i e) : s.Has d i e ∧ ¬e.IsDots :=
  ⟨⟨he.1, he.2.1, he.2.2.1⟩, he.2.2.2⟩

/-- **With the sizes the volume is sound**, as far as one gets from the root. -/
theorem Safe.sound_volume (h : Safe s D) (hfit : Fitting s) : Sound s.volume {d | LiveDir s d} := by
  have hholds : ∀ {d i e}, s.volume.Holds {d | LiveDir s d} d i e → s.graph.Holds D d i e.unsized := by
    intro d i e he
    obtain ⟨hhas, hdots⟩ := has_of_holds he
    exact h.holds_of_has hhas hdots
  have hmem : ∀ {d}, LiveDir s d → d ∈ D := fun hd => (h.liveDir_iff.mp hd).1
  refine ⟨h.liveDir_root, fun d hd => h.sound.dirs d (hmem hd), h.sound.small, fun d hd => ?_,
    fun d i e he hne => ?_, fun d i e he h0 => ?_, fun d i e d' i' e' he he' heq hne => ?_,
    fun a b hab => ?_⟩
  · intro j hj k hk e f he hf hname
    refine h.sound.unique d (hmem hd) j hj k hk e.unsized f.unsized ?_ ?_ hname
    · rw [graph_dir, listing, show entry (s.sector d) j = some e from he, Option.map_some]
    · rw [graph_dir, listing, show entry (s.sector d) k = some f from hf, Option.map_some]
  · obtain ⟨hrange, h2, hused, hdir⟩ := h.sound.heads d i _ (hholds he) hne
    obtain ⟨hhas, hdots⟩ := has_of_holds he
    exact ⟨hrange, h2, hused, fun hlive => hdir.mp (hmem hlive), fun hisDir =>
      (h.liveDir_of_has hhas hdots hisDir).1⟩
  · exact ⟨(h.sound.empty d i _ (hholds he) h0).1, (hfit d i e (has_of_holds he).1).2 h0⟩
  · exact h.sound.separate d i _ d' i' _ (hholds he) (hholds he') heq hne
  · obtain ⟨hrange, hused, hdir, hone, hhead⟩ := h.sound.links a b hab
    exact ⟨hrange, hused, fun hlive => hdir (hmem hlive), hone, fun d i e he =>
      hhead d i e.unsized (hholds he)⟩

theorem Safe.inv (h : Safe s D) (hcounted : s.Counted) (hfit : Fitting s) : Inv s {d | LiveDir s d} :=
  ⟨h.layout, h.sound_volume hfit, h.next_ge, h.next_le, hcounted.hint, hcounted.count⟩

/-- A call with a well-formed path is orderly. -/
theorem Safe.orderly_of_wellFormed (h : Safe s D) {op : Op} (hop : op.WellFormed) :
    op.ZeroFree ∧ op.SparesDirectories s := by
  cases op with
  | storeLarge n _ _ => exact ⟨hop.1, h.fillsDirectory_rootLevel hop.2 hop.1⟩
  | create n _ => exact ⟨hop, trivial⟩
  | store n _ _ => exact ⟨hop, trivial⟩
  | remove n => exact ⟨hop, trivial⟩
  | remount => exact ⟨trivial, trivial⟩

theorem Safe.step_of_wellFormed (h : Safe s D) (hcounted : s.Counted) (hfit : Fitting s) {op : Op}
    (hop : op.WellFormed) :
    ∃ D', Safe (Fat.call s op).1 D' ∧ (Fat.call s op).1.Counted ∧ Fitting (Fat.call s op).1 := by
  obtain ⟨hzero, hspares⟩ := h.orderly_of_wellFormed hop
  obtain ⟨D', hsafe', hcounted', -⟩ := h.call hcounted hzero hspares
  exact ⟨D', hsafe', hcounted', hfit.call h hcounted hzero hspares⟩

theorem Reachable.safe (h : Reachable s) : ∃ D, Safe s D ∧ s.Counted ∧ Fitting s := by
  induction h with
  | format s => exact ⟨{2}, safe_diskFormat s, (diskFormat_inv s).counted, fitting_diskFormat s⟩
  | call _ hop ih =>
    obtain ⟨D, hsafe, hcounted, hfit⟩ := ih
    exact hsafe.step_of_wellFormed hcounted hfit hop

/-- **All states of a run have the invariant.** -/
theorem Reachable.inv (h : Reachable s) : ∃ D, Inv s D := by
  obtain ⟨D, hsafe, hcounted, hfit⟩ := h.safe
  exact ⟨_, hsafe.inv hcounted hfit⟩

/-- **A safe state with right counters is consistent.** -/
theorem Safe.consistent (h : Safe s D) (hcounted : s.Counted) : Consistent s where
  copies := by
    refine ⟨h.layout.fatCount, fun i hi => ?_⟩
    rw [h.layout.fatSectors] at hi ⊢
    rw [h.layout.volumeStart, h.layout.reserved]
    exact h.layout.copies i hi
  counters := by
    obtain ⟨hfree, -⟩ := r32_infoSector s.freeClusters s.nextCluster
    rw [Nat.mod_eq_of_lt hcounted.freeClusters_lt] at hfree
    rw [h.layout.toGeometry.freeEntries, ← hcounted.count, h.layout.volumeStart, h.layout.info, h.layout.infoCopy]
    exact ⟨rfl, hfree, hfree⟩
  hint c hc hlt := by
    have hle := h.next_le
    rw [h.layout.toGeometry.fatEntry (by omega)]
    exact hcounted.hint c hc hlt
  allocate_eq_zero h0 c hc hlt := by
    rw [h.layout.maxCluster] at hlt
    rw [h.layout.toGeometry.fatEntry hlt]
    exact h.full_of_allocate hcounted h0 ⟨hc, hlt⟩
  chains d i d' i' c hi hi' hc hc' := by
    obtain ⟨e, he, -, hcluster⟩ := h.holds_of_listed (h.liveDir_iff.mp hi.1).1 hi.2
    obtain ⟨e', he', -, hcluster'⟩ := h.holds_of_listed (h.liveDir_iff.mp hi'.1).1 hi'.2
    rw [hcluster] at hc
    rw [hcluster'] at hc'
    have hlinks : ∀ a b, Follows s a b → s.graph.Links a b := by
      rintro a b ⟨hge, hlt, hget, hne, hend⟩
      rw [h.layout.maxCluster] at hlt
      rw [h.fatGet ⟨hge, hlt⟩] at hget
      exact ⟨⟨hge, hlt⟩, hget, hne, hend⟩
    refine h.sound.chains_disjoint he he' ?_ (Relation.ReflTransGen.mono hlinks _ _ hc.2)
      (Relation.ReflTransGen.mono hlinks _ _ hc'.2)
    intro h0
    exact absurd (h0 ▸ hc.1) (by decide : ¬2 ≤ 0)

/-- **Every state of a run is consistent.** -/
theorem Reachable.volume_consistent (h : Reachable s) : Consistent s := by
  obtain ⟨D, hsafe, hcounted, -⟩ := h.safe
  exact hsafe.consistent hcounted

/-- A file is stored and removed, and the volume mounted again. -/
theorem consistent_of_store_remove :
    Consistent (call (call (call (diskFormat (State.initial fun _ => zero))
      (.store (chars ['/', 'h', 'o', 'm', 'e', '/', 'A']) (fun _ => 65) 3)).1
      (.remove (chars ['/', 'h', 'o', 'm', 'e', '/', 'A']))).1 .remount).1 :=
  Reachable.volume_consistent (.call (.call (.call (.format _) (show 0 ∉ _ by decide))
    (show 0 ∉ _ by decide)) trivial)

/-- **The files of a volume.** In a state of a run, a successful `disk_store` is
what `disk_load` returns afterwards, for the paths that lead to the same name,
and all other paths load what they did before. After a successful `disk_remove`
nothing is loaded, as long as no call creates a file under the same name. -/
theorem Reachable.file_contents (h : Reachable s) :
    (∀ p data n s', 0 ∉ p → n ≤ 512 → diskStore s p data n = (s', true) →
      contents s' p = some (n, (List.range n).map data) ∧ ∀ q, target s q ≠ target s p → contents s' q = contents s q) ∧
    (∀ p s' ops, diskRemove s p = (s', true) → (∀ op ∈ ops, op.WellFormed ∧ op.IsFileCall) →
      Runs.Throughout (fun before op => ¬Creates (run s' before) p op) ops → diskLoad (run s' ops) p = none) := by
  obtain ⟨D, hsafe, hcounted, hfit⟩ := h.safe
  have hinv := hsafe.inv hcounted hfit
  refine ⟨fun p data n s' hp _ hres => hinv.contents_diskStore hp hres, ?_⟩
  intro p s' ops hres hops hcreates
  rcases hinv.safe.diskRemove_removed hres with ⟨-, hfalse⟩ | ⟨-, d, i, e, hparent, hname, hremoved⟩
  · cases hfalse
  have hgone : (∃ D, Safe (run s' ops) D ∧ (run s' ops).Counted ∧ Fitting (run s' ops)) ∧ NoFile (run s' ops) p := by
    refine Runs.foldl_invariant (I := fun t => (∃ D, Safe t D ∧ t.Counted ∧ Fitting t) ∧ NoFile t p)
      ⟨?_, hremoved.noFile_self hinv hparent hname⟩ ?_
    · obtain ⟨D', hsafe', horderly⟩ := hsafe.diskRemove p
      have hfit' := hfit.diskRemove hsafe p
      rw [hres] at hsafe' horderly hfit'
      exact ⟨D', hsafe', horderly.counted hcounted, hfit'⟩
    · intro before op after hsplit
      rintro ⟨⟨D', hsafe', hcounted', hfit'⟩, hnone⟩
      obtain ⟨hop, hfile⟩ := hops op (by rw [hsplit]; simp)
      exact ⟨hsafe'.step_of_wellFormed hcounted' hfit' hop, (hsafe'.inv hcounted' hfit').noFile_call hop
        hfile (hcreates before op after hsplit) hnone⟩
  obtain ⟨⟨D', hsafe', -⟩, hnone⟩ := hgone
  exact hsafe'.diskLoad_eq_none hnone

/-- A file of three bytes, stored on a new volume and removed again before another one is stored. -/
theorem files_of_store_remove :
    contents (diskStore (diskFormat (State.initial fun _ => zero)) pathA (fun _ => 65) 3).1 pathA =
      some (3, [65, 65, 65]) ∧
    diskLoad (run (diskRemove (diskStore (diskFormat (State.initial fun _ => zero)) pathA (fun _ => 65) 3).1
      pathA).1 [.store (pathA ++ [66]) (fun _ => 66) 1]) pathA = none := by
  have hformat := Reachable.format (State.initial fun _ => zero)
  have hstored := hformat.call (show (Op.store pathA (fun _ => 65) 3).WellFormed from
    show 0 ∉ pathA by decide)
  constructor
  · exact ((Reachable.file_contents hformat).1 _ _ _ _ (by decide) (by decide)
      (eq_mk_true (by decide +kernel))).1
  · refine (Reachable.file_contents hstored).2 pathA _ [.store (pathA ++ [66]) (fun _ => 66) 1]
      (eq_mk_true (by decide +kernel)) ?_ ?_
    · intro op hop
      rw [List.mem_singleton.mp hop]
      exact ⟨(by decide : 0 ∉ pathA ++ [66]), trivial⟩
    · rw [← List.nil_append [Op.store _ _ _], Runs.throughout_concat]
      refine ⟨Runs.throughout_nil _, ?_⟩
      rintro ⟨x, hx, hx'⟩
      exact absurd (hx.trans hx'.symm) (by decide +kernel)

/-- A file that has been removed is there again, and empty, after `disk_create`,
without having been stored. -/
theorem diskLoad_after_create :
    let stored := diskStore (diskFormat (State.initial fun _ => zero)) pathA (fun _ => 65) 3
    let removed := diskRemove stored.1 pathA
    let created := diskCreate removed.1 pathA 0
    stored.2 = true ∧ removed.2 = true ∧ created.2 = true ∧
      (diskLoad removed.1 pathA).isNone = true ∧ (diskLoad created.1 pathA).isSome = true := by
  decide +kernel

end OS64.Fat
