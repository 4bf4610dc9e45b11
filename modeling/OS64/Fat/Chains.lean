import OS64.Fat.Safe
import OS64.Lib.Chains

/-!
# The chains of the table

What the table says of a cluster, read as the driver reads it (`OS64.Fat.fatStep`):
which cluster comes next, that there is none, or nothing sensible. The clusters of a
file are the chain from the cluster in its entry (`OS64.Fat.Heads`).

In a safe state a cluster in use that nothing leads to is the first one of a chain
(`OS64.Fat.Safe.exists_chain`). `OS64.Fat.Undisturbed` is what taking clusters leaves
alone: everything that was in use before.
-/

namespace OS64.Fat

open Function Chains Finset

variable {s s' : State} {D : Set ℕ} {c : ℕ} {l l' : List ℕ}

/-- What comes after cluster `c`. -/
def fatStep (s : State) (c : ℕ) : Option (Option ℕ) :=
  if 2 ≤ c ∧ c < maxCluster s then
    if fatGet s c = 0 then none
    else if fatGet s c < endOfChain then some (some (fatGet s c)) else some none
  else none

/-- An entry with the cluster `c` heads the chain `l`. -/
def Heads (s : State) (c : ℕ) (l : List ℕ) : Prop := (c = 0 ∧ l = []) ∨ Chain (fatStep s) c l

theorem Geometry.fatStep_congr (h : Geometry s) (h' : Geometry s') (hc : s'.fat c = s.fat c) :
    fatStep s' c = fatStep s c := by
  rw [fatStep, fatStep, h.maxCluster, h'.maxCluster]
  by_cases hrange : 2 ≤ c ∧ c < 127008
  · rw [if_pos hrange, if_pos hrange, h.fatGet hrange.2, h'.fatGet hrange.2, hc]
  · rw [if_neg hrange, if_neg hrange]

/-- Two chains from one cluster are the same. -/
theorem Heads.unique (h : Heads s c l) (h' : Heads s c l') : l = l' := by
  rcases h with ⟨rfl, rfl⟩ | h
  · rcases h' with ⟨-, rfl⟩ | h'
    · rfl
    · exact absurd rfl (h'.step_ne_none h'.head_mem)
  · rcases h' with ⟨rfl, -⟩ | h'
    · exact absurd rfl (h.step_ne_none h.head_mem)
    · exact h.unique h'

/-- The clusters of a chain are clusters of the volume, in use. -/
theorem Geometry.of_mem_chain (h : Geometry s) (hl : Chain (fatStep s) c l) {x : ℕ} (hx : x ∈ l) :
    InRange x ∧ s.fat x ≠ 0 := by
  have hstep := hl.step_ne_none hx
  rw [fatStep, h.maxCluster] at hstep
  split at hstep
  · rename_i hrange
    rw [h.fatGet hrange.2] at hstep
    refine ⟨hrange, fun h0 => ?_⟩
    rw [h0] at hstep
    exact hstep rfl
  · exact absurd rfl hstep

/-- A chain has fewer clusters than the volume. -/
theorem Geometry.chain_length_lt (h : Geometry s) (hl : Chain (fatStep s) c l) : l.length < 127008 := by
  have hle := hl.length_le (S := Ico 2 127008) fun x hx =>
    mem_Ico.mpr (h.of_mem_chain hl hx).1
  rw [Nat.card_Ico] at hle
  omega

/-! ### Chains of a safe state -/

theorem Safe.fatStep_eq (h : Safe s D) (hc : InRange c) (hused : s.fat c ≠ 0) :
    fatStep s c = if s.fat c < endOfChain then some (some (s.fat c)) else some none := by
  rw [fatStep, h.layout.maxCluster, if_pos (show 2 ≤ c ∧ c < 127008 from hc), h.fatGet hc, if_neg hused]

/-- A link of the volume is a step of a chain. -/
theorem Safe.links_of_fatStep (h : Safe s D) {a b : ℕ} (hab : fatStep s a = some (some b)) : s.graph.Links a b := by
  have hstep := hab
  rw [fatStep, h.layout.maxCluster] at hstep
  split at hstep
  · rename_i hrange
    rw [h.fatGet hrange] at hstep
    split at hstep
    · simp at hstep
    rename_i hused
    split at hstep
    · rename_i hend
      obtain rfl := Option.some.inj (Option.some.inj hstep)
      exact ⟨hrange, rfl, hused, hend⟩
    · simp at hstep
  · simp at hstep

/-- **A cluster in use that nothing leads to heads a chain.** -/
theorem Safe.exists_chain (h : Safe s D) (hc : InRange c) (hused : s.fat c ≠ 0)
    (hfirst : ∀ a, ¬s.graph.Links a c) : ∃ l, Chain (fatStep s) c l := by
  have hmem : ∀ {x}, x ∈ (Ico 2 127008).filter (fun c => s.fat c ≠ 0) ↔
      InRange x ∧ s.fat x ≠ 0 := fun {x} => by rw [mem_filter, mem_Ico, InRange]
  have hnext : ∀ x ∈ (Ico 2 127008).filter (fun c => s.fat c ≠ 0), fatStep s x = some none ∨
      ∃ y ∈ (Ico 2 127008).filter (fun c => s.fat c ≠ 0), fatStep s x = some (some y) := by
    intro x hx
    obtain ⟨hrange, hne⟩ := hmem.mp hx
    rw [h.fatStep_eq hrange hne]
    by_cases hend : s.fat x < endOfChain
    · obtain ⟨hrange', hne', -⟩ := h.sound.links x (s.fat x) ⟨hrange, rfl, hne, hend⟩
      rw [if_pos hend]
      exact .inr ⟨_, hmem.mpr ⟨hrange', hne'⟩, rfl⟩
    · rw [if_neg hend]
      exact .inl rfl
  obtain ⟨l, hl, -⟩ := Chains.exists_chain _ c (hmem.mpr ⟨hc, hused⟩) hnext
    (fun x _ y _ z hx hy => (h.sound.links y z (h.links_of_fatStep hy)).2.2.2.1 x (h.links_of_fatStep hx))
    fun x _ hx => hfirst x (h.links_of_fatStep hx)
  exact ⟨l, hl⟩

/-- **Every entry heads a chain.** -/
theorem Safe.exists_heads (h : Safe s D) {d i : ℕ} {e : Entry} (he : s.graph.Holds D d i e) :
    ∃ l, Heads s e.cluster l := by
  by_cases h0 : e.cluster = 0
  · exact ⟨[], .inl ⟨h0, rfl⟩⟩
  · obtain ⟨hrange, -, hused, -⟩ := h.sound.heads d i e he h0
    obtain ⟨l, hl⟩ := h.exists_chain hrange hused fun a ha =>
      (h.sound.links a _ ha).2.2.2.2 d i e he rfl
    exact ⟨l, .inr hl⟩

/-! ### What taking clusters leaves alone -/

/-- What was in use in `s` is as it was, the clusters of `T` apart. -/
def Undisturbed (T : Set ℕ) (s s' : State) : Prop :=
  ∀ a ∉ T, s.fat a ≠ 0 → s'.fat a = s.fat a ∧ s'.sector a = s.sector a

/-- The chains that were there are still there. -/
theorem Undisturbed.chain {T : Set ℕ} (h : Undisturbed T s s') (hs : Geometry s) (hs' : Geometry s')
    (hl : Chain (fatStep s) c l) (hT : ∀ x ∈ l, x ∉ T) :
    Chain (fatStep s') c l ∧ l.map s'.sector = l.map s.sector := by
  have hsame := fun x hx => h x (hT x hx) (hs.of_mem_chain hl hx).2
  exact ⟨hl.congr fun x hx => hs.fatStep_congr hs' (hsame x hx).1, List.map_congr_left fun x hx => (hsame x hx).2⟩

/-- Taking a cluster. -/
theorem Obtained.undisturbed {g : Prop} (ha : Obtained s D s' c g) (T : Set ℕ) : Undisturbed T s s' := by
  intro a _ hused
  have hne : a ≠ c := by
    rintro rfl
    exact hused ha.free
  have hfat : s'.graph.fat a = s.fat a := by
    rw [ha.graph, Volume.take, Volume.setFat_fat, update_of_ne hne]
    rfl
  exact ⟨hfat, by rw [ha.sector, update_of_ne hne]⟩

theorem Obtained.fat_eq {g : Prop} (ha : Obtained s D s' c g) : s'.fat = update s.fat c 0x0fffffff := by
  rw [← graph_fat, ha.graph]
  rfl

theorem Obtained.endOfChain_le (ha : Obtained s D s' c) : endOfChain ≤ s'.fat c := by
  rw [ha.fat_eq, update_self]
  decide

theorem Obtained.freeCount_eq (ha : Obtained s D s' c) : freeCount s'.fat + 1 = freeCount s.fat := by
  rw [ha.fat_eq]
  exact freeCount_take ha.inRange ha.free (by decide)

end OS64.Fat
