import OS64.Fat.Volume
import OS64.Lib.Forest

/-!
# Volumes without sizes

Where the driver writes depends on the table and on the cluster numbers in the
directories, but not on the sizes of the files. `OS64.Fat.Guarded` is soundness with
the sizes left out, so that an operation that writes a wrong size does no harm, and
with entry 0 of the table taken care of: that entry is of no cluster, but `disk_fill`
makes it the beginning of a chain when it comes upon a file without clusters.

This module has what the changes made by the operations do to a guarded volume. The
one of its own kind is `OS64.Fat.Guarded.copyRoot`: `disk_store_large` reads the
directory of its path, but always writes the root. After that the root is the
directory, and what was in the volume elsewhere is lost. The directory must not be
found below itself, which is so because it was found from the root.
-/

namespace OS64.Fat

open Function Relation

variable {V : Volume} {D : Set ℕ} {g : Prop} {c d i h : ℕ} {e : Entry} {x : Option Entry}

/-! ### The forest of directories -/

/-- The directory `b` has an entry in `a`. -/
def Volume.HasDir (V : Volume) (D : Set ℕ) (a b : ℕ) : Prop :=
  ∃ i e, V.Holds D a i e ∧ e.isDir = true ∧ e.cluster = b

theorem Sound.cluster_ne_zero (hs : Sound V D) {a i : ℕ} {e : Entry} (he : V.Holds D a i e)
    (hdir : e.isDir = true) : e.cluster ≠ 0 := by
  intro h0
  rw [(hs.empty a i e he h0).1] at hdir
  exact Bool.noConfusion hdir

theorem Sound.hasDir_leftUnique (hs : Sound V D) : Relator.LeftUnique (V.HasDir D) := by
  rintro a a' b ⟨i, e, he, hdir, rfl⟩ ⟨i', e', he', -, hcluster⟩
  exact (hs.separate a i e a' i' e' he he' hcluster.symm (hs.cluster_ne_zero he hdir)).1

theorem Sound.not_hasDir_root (hs : Sound V D) (a : ℕ) : ¬V.HasDir D a 2 := by
  rintro ⟨i, e, he, hdir, hcluster⟩
  exact (hs.heads a i e he (hs.cluster_ne_zero he hdir)).2.1 hcluster

/-! ### Guarded volumes -/

/-- A sound volume in which table entry 0 ends a chain or leads to a cluster that
nothing else leads to, if that matters (`g`). -/
structure Guarded (V : Volume) (D : Set ℕ) (g : Prop := True) : Prop where
  sound : Sound V D
  zero : g → V.fat 0 < 2 ^ 28
  spare : g → V.fat 0 < endOfChain → Fresh V D (V.fat 0)

/-- A free cluster is not the one that entry 0 leads to. -/
theorem Guarded.ne_zero_of_free (hg : Guarded V D g) (hz : g) (hc : InRange c) (hfree : V.fat c = 0) : c ≠ V.fat 0 := by
  rintro rfl
  exact (hg.spare hz hc.lt_endOfChain).used hfree

/-- An entry leads elsewhere than entry 0 of the table. -/
theorem Guarded.ne_zero_of_holds (hg : Guarded V D g) (hz : g) (he : V.Holds D d i e)
    (hne : e.cluster ≠ 0) :
    e.cluster ≠ V.fat 0 := by
  intro heq
  have hrange := (hg.sound.heads d i e he hne).1
  exact (hg.spare hz (heq ▸ hrange.lt_endOfChain)).notHead d i e he heq

theorem Fresh.setSlot (hf : Fresh V D h) (hx : ∀ e, x = some e → e.cluster ≠ h) : Fresh (V.setSlot d i x) D h := by
  refine ⟨hf.inRange, hf.ne_root, hf.used, hf.notDir, fun d' i' e he => ?_, hf.notNext⟩
  rcases holds_setSlot he with ⟨-, -, hnew⟩ | ⟨-, hold⟩
  · exact hx e hnew
  · exact hf.notHead d' i' e hold

theorem Fresh.release (hf : Fresh V D h) (hne : h ≠ c) : Fresh (V.setFat c 0) (D \ {c}) h := by
  refine ⟨hf.inRange, hf.ne_root, ?_, fun hD => hf.notDir hD.1, fun d i e he => ?_, fun a ha => ?_⟩
  · rw [Volume.setFat_fat, update_of_ne hne]
    exact hf.used
  · exact hf.notHead d i e ⟨he.1.1, he.2⟩
  · rcases links_setFat ha with hold | ⟨-, h0, -⟩
    · exact hf.notNext a hold
    · exact ha.2.2.1 h0

/-- Whether a cluster is fresh does not depend on entry 0. -/
theorem Fresh.setFat_zero (hf : Fresh V D h) (v : ℕ) : Fresh (V.setFat 0 v) D h := by
  have hne := hf.inRange.ne_zero
  refine ⟨hf.inRange, hf.ne_root, ?_, hf.notDir, hf.notHead, fun a ha => ?_⟩
  · rw [Volume.setFat_fat, update_of_ne hne]
    exact hf.used
  · rcases links_setFat ha with hold | ⟨rfl, -, -⟩
    · exact hf.notNext a hold
    · exact absurd ha.1.1 (by decide)

/-! ### The changes -/

section

variable (hg : Guarded V D g)
include hg

theorem Guarded.setDir (hc : c ∉ D) (t : ℕ → Option Entry) : Guarded (V.setDir c t) D g :=
  ⟨hg.sound.setDir hc t, hg.zero, fun hz h0 => (hg.spare hz h0).setDir hc t⟩

/-- **Taking a free cluster.** -/
theorem Guarded.take (hc : InRange c) (hfree : V.fat c = 0) :
    Guarded (V.take c) D g ∧ Fresh (V.take c) D c ∧ (g → c ≠ (V.take c).fat 0) := by
  have hzero : (V.take c).fat 0 = V.fat 0 := by
    exact update_of_ne hc.ne_zero.symm _ _
  obtain ⟨hsound, hfresh⟩ := hg.sound.take hc hfree
  refine ⟨⟨hsound, ?_, fun hz h0 => ?_⟩, hfresh, fun hz => ?_⟩
  · rw [hzero]
    exact hg.zero
  · rw [hzero] at h0 ⊢
    exact (hg.spare hz h0).take hg.sound hfree
  · rw [hzero]
    exact hg.ne_zero_of_free hz hc hfree

/-- **Linking a fresh cluster to a chain.** -/
theorem Guarded.link (hc : InRange c) (hf : Fresh V D h) (hne : g → h ≠ V.fat 0) : Guarded (V.setFat c h) D g := by
  have hh := hf.inRange
  have hzero : (V.setFat c h).fat 0 = V.fat 0 := by
    exact update_of_ne hc.ne_zero.symm _ _
  refine ⟨hg.sound.setFat ?_ ?_ fun _ => hf, ?_, fun hz h0 => ?_⟩
  · have := hh.1
    omega
  · have := hh.2
    omega
  · rw [hzero]
    exact hg.zero
  · rw [hzero] at h0 ⊢
    refine (hg.spare hz h0).setFat ?_ (hne hz).symm
    have := hh.1
    omega

/-- **Linking a fresh cluster to entry 0.** What that led to before is lost. -/
theorem Guarded.linkZero (hf : Fresh V D h) : Guarded (V.setFat 0 h) D g := by
  have hh := hf.inRange
  have h28 : h < 2 ^ 28 := by
    have := hh.2
    omega
  have hzero : (V.setFat 0 h).fat 0 = h := by
    rw [Volume.setFat_fat, update_self]
  refine ⟨hg.sound.setFat ?_ h28 fun _ => hf, fun _ => ?_, fun _ _ => ?_⟩
  · have := hh.1
    omega
  · exact h28
  · exact hf.setFat_zero h

/-- **Filling or emptying a slot.** -/
theorem Guarded.setSlot (d i : ℕ)
    (hx : ∀ e, x = some e → Fits V D d i e ∧ (g → e.cluster ≠ V.fat 0)) : Guarded (V.setSlot d i x) D g :=
  ⟨hg.sound.setSlot d i fun e he => (hx e he).1, hg.zero,
    fun hz h0 => (hg.spare hz h0).setSlot fun e he => (hx e he).2 hz⟩

/-- **Turning a fresh cluster into a directory.** -/
theorem Guarded.insertDir (hf : Fresh V D c) (hne : g → c ≠ V.fat 0) (hdots : ∀ j e, V.dir c j = some e → e.IsDots)
    (hunique : Slots.Unique Entry.name 16 (V.dir c)) : Guarded V (insert c D) g := by
  refine ⟨hg.sound.insertDir hf hdots hunique, hg.zero, fun hz h0 => ?_⟩
  have hspare := hg.spare hz h0
  refine ⟨hspare.inRange, hspare.ne_root, hspare.used, ?_, ?_, hspare.notNext⟩
  · rintro (heq | hmem)
    · exact hne hz heq.symm
    · exact hspare.notDir hmem
  · rintro d i e ⟨rfl | hd, hi, he, hname⟩
    · exact absurd (hdots i e he) hname
    · exact hspare.notHead d i e ⟨hd, hi, he, hname⟩

/-- **Giving back** a cluster that no entry and no link leads to. -/
theorem Guarded.release (hc : InRange c) (h2 : c ≠ 2) (hne : g → c ≠ V.fat 0)
    (hhead : ∀ d i e, V.Holds D d i e → e.cluster ≠ c) (hnext : ∀ a, ¬V.Links a c) :
    Guarded (V.setFat c 0) (D \ {c}) g := by
  have hzero : (V.setFat c 0).fat 0 = V.fat 0 := by
    exact update_of_ne hc.ne_zero.symm _ _
  refine ⟨hg.sound.release h2 hhead hnext, ?_, fun hz h0 => ?_⟩
  · rw [hzero]
    exact hg.zero
  · rw [hzero] at h0 ⊢
    exact (hg.spare hz h0).release (hne hz).symm

/-- **Removing an entry** and giving its first cluster back. -/
theorem Guarded.remove (he : V.Holds D d i e) (hne : e.cluster ≠ 0) :
    Guarded ((V.setSlot d i none).setFat e.cluster 0) (D \ {e.cluster}) g := by
  obtain ⟨hrange, h2, -⟩ := hg.sound.heads d i e he hne
  refine (hg.setSlot d i fun e' he' => absurd he' (by simp)).release hrange h2
    (fun hz => hg.ne_zero_of_holds hz he hne) (fun d' i' e' => hg.sound.notHead_setSlot he hne) fun a ha => ?_
  exact (hg.sound.links a _ ha).2.2.2.2 d i e he rfl

end

/-! ### The root overwritten with another directory -/

/-- What is below directory `d`, and the root. -/
def below (V : Volume) (D : Set ℕ) (d : ℕ) : Set ℕ := insert 2 {a | TransGen (V.HasDir D) d a}

section

variable (hs : Sound V D)
include hs

theorem Sound.mem_of_hasDir {a b : ℕ} (h : V.HasDir D a b) : b ∈ D := by
  obtain ⟨i, e, he, hdir, rfl⟩ := h
  exact (hs.heads a i e he (hs.cluster_ne_zero he hdir)).2.2.2.mpr hdir

theorem Sound.below_subset (d : ℕ) : below V D d ⊆ D := by
  rintro a (rfl | ha)
  · exact hs.root
  · obtain ⟨b, -, hb⟩ := TransGen.tail'_iff.mp ha
    exact hs.mem_of_hasDir hb

/-- The root is not below anything. -/
theorem Sound.not_transGen_root (d : ℕ) : ¬TransGen (V.HasDir D) d 2 := by
  intro ha
  obtain ⟨b, -, hb⟩ := TransGen.tail'_iff.mp ha
  exact hs.not_hasDir_root b hb

/-- An entry of the volume in which the root is a copy of `d` is one of the volume
before, of `d` itself if it is in the root. -/
theorem Sound.holds_copyRoot (hd : d ∈ D) {a : ℕ} (he : (V.setDir 2 (V.dir d)).Holds (below V D d) a i e) :
    (a = 2 ∧ V.Holds D d i e) ∨ (a ≠ 2 ∧ TransGen (V.HasDir D) d a ∧ V.Holds D a i e) := by
  obtain ⟨ha, hi, hslot, hname⟩ := he
  by_cases h2 : a = 2
  · rw [h2, Volume.setDir_dir, update_self] at hslot
    exact .inl ⟨h2, hd, hi, hslot, hname⟩
  · rw [Volume.setDir_dir, update_of_ne h2] at hslot
    exact .inr ⟨h2, ha.resolve_left h2, hs.below_subset d ha, hi, hslot, hname⟩

/-- **The root overwritten with a directory found from it** leaves a sound volume of
what is below the directory. -/
theorem Sound.copyRoot (hd : d ∈ D) (hreach : ReflTransGen (V.HasDir D) 2 d) :
    Sound (V.setDir 2 (V.dir d)) (below V D d) := by
  have hcycle : ¬TransGen (V.HasDir D) d d := Forest.not_transGen_self hs.hasDir_leftUnique hs.not_hasDir_root hreach
  have hholds : ∀ {a i e}, (V.setDir 2 (V.dir d)).Holds (below V D d) a i e → ∃ a', V.Holds D a' i e ∧
      ReflTransGen (V.HasDir D) d a' := by
    intro a i e he
    rcases hs.holds_copyRoot hd he with ⟨-, hold⟩ | ⟨-, ha, hold⟩
    · exact ⟨d, hold, .refl⟩
    · exact ⟨a, hold, ha.to_reflTransGen⟩
  refine ⟨Set.mem_insert 2 _, fun a ha => hs.dirs a (hs.below_subset d ha), hs.small, fun a ha => ?_,
    fun a i e he hne => ?_, fun a i e he => ?_, fun a i e a' i' e' he he' heq hne => ?_,
    fun a b hab => ?_⟩
  · by_cases h2 : a = 2
    · rw [h2, Volume.setDir_dir, update_self]
      exact hs.unique d hd
    · rw [Volume.setDir_dir, update_of_ne h2]
      exact hs.unique a (hs.below_subset d ha)
  · obtain ⟨a', hold, hbelow⟩ := hholds he
    obtain ⟨hrange, h2, hused, hmem⟩ := hs.heads a' i e hold hne
    refine ⟨hrange, h2, hused, fun h => hmem.mp (hs.below_subset d h), fun hdir => .inr ?_⟩
    exact TransGen.tail' hbelow ⟨i, e, hold, hdir, rfl⟩
  · obtain ⟨a', hold, -⟩ := hholds he
    exact hs.empty a' i e hold
  · -- the directory itself is not below itself, so its entries are there once
    rcases hs.holds_copyRoot hd he with ⟨rfl, hold⟩ | ⟨-, ha, hold⟩
    · rcases hs.holds_copyRoot hd he' with ⟨rfl, hold'⟩ | ⟨-, ha', hold'⟩
      · exact ⟨rfl, (hs.separate d i e d i' e' hold hold' heq hne).2⟩
      · obtain ⟨rfl, -⟩ := hs.separate d i e a' i' e' hold hold' heq hne
        exact absurd ha' hcycle
    · rcases hs.holds_copyRoot hd he' with ⟨rfl, hold'⟩ | ⟨-, ha', hold'⟩
      · obtain ⟨rfl, -⟩ := hs.separate a i e d i' e' hold hold' heq hne
        exact absurd ha hcycle
      · exact hs.separate a i e a' i' e' hold hold' heq hne
  · obtain ⟨hrange, hused, hdir, hback, hhead⟩ := hs.links a b hab
    refine ⟨hrange, hused, fun h => hdir (hs.below_subset d h), hback, fun a' i e he => ?_⟩
    obtain ⟨a'', hold, -⟩ := hholds he
    exact hhead a'' i e hold

end

theorem Fresh.copyRoot (hf : Fresh V D h) (hs : Sound V D) (hd : d ∈ D) :
    Fresh (V.setDir 2 (V.dir d)) (below V D d) h := by
  refine ⟨hf.inRange, hf.ne_root, hf.used, fun hmem => hf.notDir (hs.below_subset d hmem),
    fun a i e he => ?_, hf.notNext⟩
  rcases hs.holds_copyRoot hd he with ⟨-, hold⟩ | ⟨-, -, hold⟩
  · exact hf.notHead d i e hold
  · exact hf.notHead a i e hold

theorem Guarded.copyRoot (hg : Guarded V D g) (hd : d ∈ D) (hreach : ReflTransGen (V.HasDir D) 2 d) :
    Guarded (V.setDir 2 (V.dir d)) (below V D d) g :=
  ⟨hg.sound.copyRoot hd hreach, hg.zero, fun hz h0 => (hg.spare hz h0).copyRoot hg.sound hd⟩

end OS64.Fat
