import OS64.Fat.Chains

/-!
# Steps that write their own volume only

From a safe state the steps of the driver lead to a safe state again, and in an orderly
way: writing a directory (`OS64.Fat.Safe.writeSlot`) or writing one over the root
(`OS64.Fat.Safe.writeRoot`), making an entry (`OS64.Fat.Safe.newFile`,
`OS64.Fat.Obtained.makeDirectory`), and the loop of `disk_store_large`
(`OS64.Fat.Safe.storeChain`).
-/

namespace OS64.Fat

open List Function Relation

variable {n : Path} {b : Sector} {t : State} {first tail : ℕ}

variable {s s' : State} {D : Set ℕ} {g : Prop} {c d i : ℕ} {e : Entry}

/-! ### Writing directories -/

theorem Guarded.fat_zero_ne {V : Volume} (hg : Guarded V D g) (hz : g) : V.fat 0 ≠ 0 := by
  intro h0
  have hspare := hg.spare hz (by rw [h0]; decide)
  rw [h0] at hspare
  exact absurd hspare.inRange.1 (by decide)

variable {x : Option Entry}

section

variable (h : Safe s D g)
include h

/-- A directory with a slot changed. -/
theorem Safe.guarded_slot (hb : listing b = update (listing (s.sector d)) i x)
    (hx : ∀ e, x = some e → Fits s.graph D d i e ∧ (g → e.cluster ≠ s.graph.fat 0)) :
    Guarded (s.graph.setDir d (listing b)) D g := by
  rw [hb]
  exact h.guarded.setSlot d i hx

/-- A directory with other sizes. -/
theorem Safe.guarded_sizes (hb : listing b = listing (s.sector d)) : Guarded (s.graph.setDir d (listing b)) D g := by
  have hsame : s.graph.setDir d (listing b) = s.graph := by
    rw [hb, Volume.setDir]
    congr 1
    exact update_eq_self d s.graph.dir
  exact hsame.symm ▸ h.guarded

/-- Writing a slot of a directory. -/
theorem Safe.writeSlot (hd : d ∈ D) (hb : listing b = update (listing (s.sector d)) i x)
    (hx : ∀ e, x = some e → Fits s.graph D d i e ∧ (g → e.cluster ≠ s.graph.fat 0)) :
    Safe (s.write (clusterLba s d) b) D g ∧ Orderly s (s.write (clusterLba s d) b) :=
  (h.write (h.sound.dirs d hd).1 (h.guarded_slot hb hx)).imp_right And.left

/-- Writing a directory with other sizes. -/
theorem Safe.writeSizes (hd : d ∈ D) (hb : listing b = listing (s.sector d)) :
    Safe (s.write (clusterLba s d) b) D g ∧ Orderly s (s.write (clusterLba s d) b) :=
  (h.write (h.sound.dirs d hd).1 (h.guarded_sizes hb)).imp_right And.left

/-- **Writing the root** with a slot of the directory `d` changed: what is not below
`d` is lost. -/
theorem Safe.writeRoot (hd : d ∈ D) (hreach : ReflTransGen (s.graph.HasDir D) 2 d) (hb : listing b = update (listing (s.sector d)) i x)
    (hx : ∀ e, x = some e → Fits (s.graph.setDir 2 (s.graph.dir d)) (below s.graph D d) 2 i e ∧
      (g → e.cluster ≠ s.graph.fat 0)) :
    ∃ D', Safe (s.write (clusterLba s 2) b) D' g ∧ Orderly s (s.write (clusterLba s 2) b) := by
  have hslot : (s.graph.setDir 2 (s.graph.dir d)).setSlot 2 i x = s.graph.setDir 2 (listing b) := by
    rw [Volume.setSlot, Volume.setDir_dir, update_self, Volume.setDir, Volume.setDir_dir, update_idem, hb]
    rfl
  have hg := (h.guarded.copyRoot hd hreach).setSlot 2 i hx
  rw [hslot] at hg
  obtain ⟨hsafe, horderly, -⟩ := h.write (h.sound.dirs 2 h.sound.root).1 hg
  exact ⟨_, hsafe, horderly⟩

end

/-! ### Creating -/

/-- Making a directory in a cluster just taken. -/
theorem Obtained.makeDirectory (ha : Obtained s D s' c g) (hn : 0 ∉ n) (hd : d ∈ D)
    (hnew : ∀ j < 16, ∀ e, listing (s.sector d) j = some e → e.name ≠ name83 n) {dotdot : ℕ}
    (hdotdot : dotdot < 2 ^ 32)
    (ht : t = s'.write (clusterLba s' c) (newDirectory c dotdot)) :
    ∃ D', Safe (t.write (clusterLba t d) (newEntry (s.sector d) i n 0x10 c)) D' g ∧
      Orderly s' (t.write (clusterLba t d) (newEntry (s.sector d) i n 0x10 c)) := by
  have hc32 := ha.inRange.lt_word
  have hdc : d ≠ c := by
    rintro rfl
    exact ha.fresh.notDir hd
  -- the directory is written first, into a cluster that is none yet
  obtain ⟨hsafe, horderly, hgraph, hsector⟩ := ha.safe.write ha.inRange
    (ha.safe.guarded.setDir ha.fresh.notDir (listing (newDirectory c dotdot)))
  have hfresh := ha.fresh.setDir (c := c) ha.fresh.notDir (listing (newDirectory c dotdot))
  rw [← ht] at hsafe horderly hgraph hsector
  rw [← hgraph] at hfresh
  have hspare : g → c ≠ t.graph.fat 0 := by
    rw [hgraph]
    exact ha.spare
  have hdir : t.graph.dir c = listing (newDirectory c dotdot) := by
    rw [hgraph, Volume.setDir_dir, update_self]
  have hsame : t.sector d = s.sector d := by
    rw [hsector, update_of_ne hdc, ha.sector_eq hd]
  have hb := listing_newEntry (s.sector d) i 0x10 hn hc32
  rw [← hsame] at hb hnew ⊢
  by_cases he5 : (name83 n).getD 0 0 = 0xe5
  · -- the entry is lost at once, the cluster with it
    obtain ⟨hsafe', horderly'⟩ := hsafe.writeSlot hd hb fun e he => by
      rw [created, if_pos he5] at he
      simp at he
    exact ⟨D, hsafe', horderly.trans horderly'⟩
  · have hdots : ∀ j e, t.graph.dir c j = some e → e.IsDots := by
      intro j e he
      rw [hdir] at he
      exact (dots_of_listing hc32 hdotdot he).imp And.right And.right
    have hg := hsafe.guarded.insertDir hfresh hspare hdots (hdir ▸ unique_newDirectory hc32 hdotdot)
    have hsafe₁ : Safe t (insert c D) g := ⟨hsafe.layout, hg, hsafe.next_ge, hsafe.next_le⟩
    obtain ⟨hsafe', horderly'⟩ := hsafe₁.writeSlot (Set.mem_insert_of_mem c hd) hb fun e he => by
      obtain rfl := created_eq_some he
      refine ⟨fits_of_newName hnew (fun h0 => ?_) (fun _ => ?_) (fun _ d' i' e' he' => ?_)
        fun _ => hfresh.notNext, hspare⟩
      · exact absurd h0 ha.inRange.ne_zero
      · exact ⟨ha.inRange, hfresh.ne_root, hfresh.used, by simp⟩
      · -- the new directory itself has only the two dots
        obtain ⟨rfl | hd', hi', hslot, hname⟩ := he'
        · exact absurd (hdots i' e' hslot) hname
        · exact hfresh.notHead d' i' e' ⟨hd', hi', hslot, hname⟩
    exact ⟨_, hsafe', horderly.trans horderly'⟩

/-- Making the entry of a new file. -/
theorem Safe.newFile (h : Safe s D g) (hd : d ∈ D) (hn : 0 ∉ n)
    (hnone : findSlot (s.sector d) n = none) (i : ℕ) :
    Safe (s.write (clusterLba s d) (newEntry (s.sector d) i n 0x20 0)) D g ∧
      Orderly s (s.write (clusterLba s d) (newEntry (s.sector d) i n 0x20 0)) := by
  refine h.writeSlot hd (listing_newEntry _ i 0x20 hn (show 0 < 2 ^ 32 by decide)) fun e he => ?_
  obtain rfl := created_eq_some he
  refine ⟨fits_of_newName (fun j hj e he => listing_of_findSlot_none hnone hj he)
    (fun _ => ⟨isDir_file _ _ _, rfl⟩) (fun hne => absurd rfl hne) (fun hne => absurd rfl hne)
    fun hne => absurd rfl hne, fun hz => (h.guarded.fat_zero_ne hz).symm⟩

/-! ### Storing a large file -/

/-- What the loop of `disk_store_large` keeps: nothing leads to the first cluster of
the chain yet, and the directories are as they were. -/
structure Grown (s : State) (D : Set ℕ) (first : ℕ) (s' : State) : Prop where
  safe : Safe s' D
  fresh : Fresh s'.graph D first
  spare : first ≠ s'.graph.fat 0
  dirs : ∀ d ∈ D, s'.sector d = s.sector d

theorem Grown.trans {s₁ s₂ s₃ : State} (h : Grown s₁ D first s₂)
    (h' : Grown s₂ D first s₃) : Grown s₁ D first s₃ :=
  ⟨h'.safe, h'.fresh, h'.spare, fun d hd => (h'.dirs d hd).trans (h.dirs d hd)⟩

/-- Filling the tail of the chain. -/
theorem Safe.grown_write (h : Safe s D) (hfirst : Fresh s.graph D first)
    (hspare : first ≠ s.graph.fat 0) (htail : InRange tail) (htailD : tail ∉ D) (b : Sector) :
    Grown s D first (s.write (clusterLba s tail) b) ∧ Orderly s (s.write (clusterLba s tail) b) := by
  obtain ⟨hsafe, horderly, hgraph, hsector⟩ := h.write htail (h.guarded.setDir htailD (listing b))
  refine ⟨⟨hsafe, hgraph ▸ hfirst.setDir htailD _, hgraph ▸ hspare, fun d hd => ?_⟩, horderly⟩
  rw [hsector, update_of_ne]
  rintro rfl
  exact htailD hd

/-- Linking the cluster just taken to the tail. -/
theorem Obtained.grown (ha : Obtained s D s' c) (h : Safe s D)
    (hfirst : Fresh s.graph D first) (hspare : first ≠ s.graph.fat 0) (htail : InRange tail)
    (hused : s.fat tail ≠ 0) :
    Grown s D first (fatSet s' tail c) ∧ Orderly s' (fatSet s' tail c) ∧ (fatSet s' tail c).fat c ≠ 0 := by
  have hc0 := ha.inRange.ne_zero
  have hc32 := ha.inRange.lt_word
  have hne : first ≠ c := by
    rintro rfl
    exact hfirst.used ha.free
  have hused' : s'.graph.fat tail ≠ 0 := by
    rw [ha.graph]
    exact setFat_ne_zero (by decide) hused
  obtain ⟨hsafe, horderly, hgraph, hsector⟩ := ha.safe.fatSet htail.2 hused' hc0 hc32
    (ha.safe.guarded.link htail ha.fresh ha.spare)
  refine ⟨⟨hsafe, ?_, ?_, fun d hd => ?_⟩, horderly, ?_⟩
  · rw [hgraph, ha.graph]
    exact (hfirst.take h.sound ha.free).setFat hc0 hne
  · rw [hgraph, ha.graph, Volume.setFat_fat, update_of_ne htail.ne_zero.symm, Volume.take,
      Volume.setFat_fat, update_of_ne (Ne.symm hc0)]
    exact hspare
  · rw [hsector, ha.sector_eq hd]
  · rw [← graph_fat, hgraph]
    exact setFat_ne_zero hc0 ha.fresh.used

/-- What the loop of `disk_store_large` does to the table and the clusters: at its end
the sectors are in the chain from `tail` on; if it stops before, all clusters are in
use. -/
structure Filled (s s' : State) (tail : ℕ) (bs : List Sector) (ok : Bool) : Prop where
  kept : Undisturbed {tail} s s'
  taken : freeCount s'.fat ≤ freeCount s.fat
  done : ok = true → ∃ l, Chains.Chain (fatStep s') tail l ∧ l.map s'.sector = bs ∧
    (∀ x ∈ l, x = tail ∨ s.fat x = 0) ∧ freeCount s'.fat + bs.length = freeCount s.fat + 1
  full : ok = false → s.Counted → freeCount s'.fat = 0 ∧ freeCount s.fat + 1 < bs.length

/-- **`allocate` fails only if no cluster is free**, in a safe state with right
counters. -/
theorem Safe.full_of_allocate (h : Safe s D) (hcounted : s.Counted) (h0 : (Fat.allocate s).2 = 0)
    (hc : InRange c) : s.fat c ≠ 0 := by
  have hge := h.next_ge
  rcases hfind : findFree s with _ | a
  · rcases lt_or_ge c s.nextCluster with hlt | hle
    · exact hcounted.hint c hc.1 hlt
    · rw [← h.fatGet hc]
      refine findFree_eq_none hfind hle ?_
      rw [h.layout.maxCluster]
      exact hc.2
  · obtain ⟨hle, -⟩ := findFree_eq_some hfind
    obtain ⟨ha, -⟩ := allocate_spec h.layout (by omega) hfind
    omega

theorem Safe.freeCount_of_allocate (h : Safe s D) (hcounted : s.Counted)
    (h0 : (Fat.allocate s).2 = 0) : freeCount s.fat = 0 :=
  Finset.card_eq_zero.mpr (Finset.filter_eq_empty_iff.mpr fun _ hc =>
    h.full_of_allocate hcounted h0 (Finset.mem_Ico.mp hc))

/-- The last sector. -/
theorem Safe.filled_last (h : Safe s D) (htail : InRange tail)
    (hend : endOfChain ≤ s.fat tail) (b : Sector) :
    Filled s (s.write (clusterLba s tail) b) tail [b] true := by
  have hup := write_spec h.layout htail.1 htail.2 b
  have hstep : fatStep (s.write (clusterLba s tail) b) tail = some none := by
    have hused : s.fat tail ≠ 0 := by
      rw [endOfChain] at hend
      omega
    rw [h.layout.toGeometry.fatStep_congr hup.layout.toGeometry (by rw [hup.fat]),
      h.fatStep_eq htail hused, if_neg (by omega)]
  refine ⟨fun a ha _ => ⟨by rw [hup.fat], ?_⟩, by rw [hup.fat], fun _ => ?_, fun h => (by cases h)⟩
  · rw [hup.sector, update_of_ne ha]
  · refine ⟨[tail], .last hstep, ?_, fun x hx => .inl (mem_singleton.mp hx), ?_⟩
    · rw [map_singleton, hup.sector, update_self]
    · rw [hup.fat, length_singleton]

/-- A sector more: what is filled from the next cluster on, with the tail linked to
it, is filled from the tail on. -/
theorem Filled.cons {u s' : State} {next : ℕ} {b' : Sector} {bs : List Sector} {ok : Bool}
    (h : Safe s D) (htail : InRange tail) (hused : s.fat tail ≠ 0)
    (ht : t = s.write (clusterLba s tail) b) (ha : Obtained t D u next)
    (hs' : Safe s' D) (hcounted : s.Counted → (fatSet u tail next).Counted)
    (hf : Filled (fatSet u tail next) s' next (b' :: bs) ok) :
    Filled s s' tail (b :: b' :: bs) ok := by
  have hup := write_spec h.layout htail.1 htail.2 b
  rw [← ht] at hup
  have hset := fatSet_spec ha.safe.layout htail.2 ha.inRange.lt_word
  have hne : tail ≠ next := by
    rintro rfl
    exact hused (hup.fat ▸ ha.free)
  have hfree : s.fat next = 0 := hup.fat ▸ ha.free
  -- the entry of the tail is the link from now on
  have hlink : (fatSet u tail next).fat tail = next := by rw [hset.fat, update_self]
  have hlinked : (fatSet u tail next).fat tail ≠ 0 := hlink.trans_ne ha.inRange.ne_zero
  have hbefore : Undisturbed {tail} s (fatSet u tail next) := by
    intro a hat hused'
    rw [← hup.fat] at hused'
    obtain ⟨hfat, hsector⟩ := ha.undisturbed {tail} a hat hused'
    rw [hset.fat, hset.sector, update_of_ne hat, hfat, hsector, hup.fat, hup.sector, update_of_ne hat]
    exact ⟨rfl, rfl⟩
  have hcount : freeCount (fatSet u tail next).fat + 1 = freeCount s.fat := by
    have hused' : u.fat tail ≠ 0 := by
      rw [ha.fat_eq, update_of_ne hne, hup.fat]
      exact hused
    rw [hset.fat, freeCount_used hused' ha.inRange.ne_zero, ha.freeCount_eq, hup.fat]
  obtain ⟨htailFat, htailSector⟩ := hf.kept tail hne hlinked
  refine ⟨fun a hat hused' => ?_, ?_, fun hok => ?_, fun hok hc => ?_⟩
  · have hnext : a ≠ next := by
      rintro rfl
      exact hused' hfree
    obtain ⟨hfat, hsector⟩ := hbefore a hat hused'
    obtain ⟨hfat', hsector'⟩ := hf.kept a hnext (by rwa [hfat])
    exact ⟨hfat'.trans hfat, hsector'.trans hsector⟩
  · have := hf.taken
    omega
  · obtain ⟨l, hl, hmap, hmem, hlen⟩ := hf.done hok
    refine ⟨tail :: l, .link ?_ hl, ?_, fun x hx => ?_, ?_⟩
    · rw [hs'.fatStep_eq htail (by rw [htailFat]; exact hlinked), htailFat, hlink, if_pos ha.inRange.lt_endOfChain]
    · rw [map_cons, hmap, htailSector, hset.sector, ha.sector, update_of_ne hne, hup.sector, update_self]
    · rcases mem_cons.mp hx with rfl | hx
      · exact .inl rfl
      · rcases hmem x hx with rfl | hfree'
        · exact .inr hfree
        · by_cases hxt : x = tail
          · exact .inl hxt
          · refine .inr (Classical.byContradiction fun hne0 => ?_)
            rw [(hbefore x hxt hne0).1] at hfree'
            exact hne0 hfree'
    · rw [length_cons]
      omega
  · obtain ⟨hzero, hlt⟩ := hf.full hok (hcounted hc)
    rw [length_cons]
    omega

/-- **The loop of `disk_store_large`**, whether it comes to its end or not. -/
theorem Safe.storeChain : ∀ (bs : List Sector) {s s' : State} {tail : ℕ} {ok : Bool},
    Safe s D → Fresh s.graph D first → first ≠ s.graph.fat 0 → InRange tail → tail ∉ D →
    endOfChain ≤ s.fat tail → storeChain s tail bs = (s', ok) →
    Grown s D first s' ∧ Orderly s s' ∧ (bs ≠ [] → Filled s s' tail bs ok)
  | [], s, s', tail, ok, h, hfirst, hspare, _, _, _, hres => by
    obtain ⟨rfl, -⟩ := Prod.mk.inj hres
    exact ⟨⟨h, hfirst, hspare, fun _ _ => rfl⟩, .refl s, fun hne => absurd rfl hne⟩
  | [b], s, s', tail, ok, h, hfirst, hspare, htail, htailD, hend, hres => by
    obtain ⟨rfl, rfl⟩ := Prod.mk.inj hres
    obtain ⟨hgrown, horderly⟩ := h.grown_write hfirst hspare htail htailD b
    exact ⟨hgrown, horderly, fun _ => h.filled_last htail hend b⟩
  | b :: b' :: bs, s, s', tail, ok, h, hfirst, hspare, htail, htailD, hend, hres => by
    obtain ⟨hwrite, horderly⟩ := h.grown_write hfirst hspare htail htailD b
    have hup := write_spec h.layout htail.1 htail.2 b
    have hused : s.fat tail ≠ 0 := by
      rw [endOfChain] at hend
      omega
    have hused' : (s.write (clusterLba s tail) b).fat tail ≠ 0 := by
      rw [hup.fat]
      exact hused
    rw [Fat.storeChain] at hres
    · rcases halloc : Fat.allocate (s.write (clusterLba s tail) b) with ⟨s₂, next⟩
      simp only [halloc] at hres
      rcases hwrite.safe.allocate halloc with ⟨rfl, rfl⟩ | ⟨hnext, ha, horderly₂⟩
      · -- no cluster is left for the next sector
        cases hres
        refine ⟨hwrite, horderly, fun _ => ⟨fun a hat _ => ⟨by rw [hup.fat], ?_⟩, by rw [hup.fat],
          fun hok => absurd hok (by simp), fun _ hc => ?_⟩⟩
        · rw [hup.sector, update_of_ne hat]
        · have hzero := hwrite.safe.freeCount_of_allocate (horderly.counted hc) (by rw [halloc])
          refine ⟨hzero, ?_⟩
          rw [hup.fat] at hzero
          rw [hzero, length_cons, length_cons]
          omega
      · rw [if_neg hnext] at hres
        obtain ⟨hgrown, horderly₃, -⟩ := ha.grown hwrite.safe hwrite.fresh hwrite.spare htail hused'
        have hnextEnd : endOfChain ≤ (Fat.fatSet s₂ tail next).fat next := by
          have hne : next ≠ tail := by
            rintro rfl
            exact hused' ha.free
          rw [(fatSet_spec ha.safe.layout htail.2 ha.inRange.lt_word).fat, update_of_ne hne, ha.fat_eq, update_self]
          decide
        obtain ⟨hrest, horderly₄, hfilled⟩ := Safe.storeChain (b' :: bs) hgrown.safe hgrown.fresh
          hgrown.spare ha.inRange ha.fresh.notDir hnextEnd hres
        have horderlyAll := (horderly.trans horderly₂).trans horderly₃
        exact ⟨(hwrite.trans hgrown).trans hrest, horderlyAll.trans horderly₄, fun _ =>
          Filled.cons h htail hused rfl ha hrest.safe horderlyAll.counted
            (hfilled (cons_ne_nil _ _))⟩
    · exact fun hnil => absurd hnil (by simp)

/-- As long as no directory is written, the tree stays as it is. -/
theorem reaches_of_dirs {a b : ℕ} (hdirs : ∀ d ∈ D, s'.sector d = s.sector d)
    (hreach : ReflTransGen (s.graph.HasDir D) a b) : ReflTransGen (s'.graph.HasDir D) a b := by
  refine ReflTransGen.mono (fun x y hxy => ?_) _ _ hreach
  obtain ⟨i, e, ⟨hx, hi, hslot, hdots⟩, hdir, hcluster⟩ := hxy
  refine ⟨i, e, ⟨hx, hi, ?_, hdots⟩, hdir, hcluster⟩
  rw [graph_dir, hdirs x hx]
  exact hslot

end OS64.Fat
