import OS64.Fat.Outcomes
import OS64.Lib.Runs

/-!
# Filling the volume

`disk_fill` makes the file `FILL.BIN` longer, by as many clusters as it is asked for
and as there are. It follows the chain of the file to its end without looking where it
is going, so on a damaged volume it may never return; in a safe state it does
(`OS64.Fat.Safe.diskFill`).

A new file has no cluster, and `disk_fill` does not give it one: the chain it makes
starts at entry 0 of the table, which is of no cluster, and the file stays without.
That is the reason why `OS64.Fat.Guarded` speaks of entry 0.

With it the calls of the kernel are complete (`OS64.Fat.KernelCall`). In a run of these
calls all states are safe, and hint and count are right, as long as no
`disk_store_large` comes upon a directory (`OS64.Fat.safe_kernelRun`).
-/

namespace OS64.Fat

open Chains

variable {s s' : State} {D : Set ℕ} {c : ℕ} {l : List ℕ}

/-! ### The function -/

/-- The name of the file. -/
def fillName : Path := chars ['F', 'I', 'L', 'L', '.', 'B', 'I', 'N']

/-- A walk that comes to a table entry for the second time never ends, and there are
`2 ^ 28` of them. -/
def walkLimit : ℕ := 2 ^ 28 + 1

/-- The first loop of `disk_fill`: the end of the chain, and the number of clusters up
to there. -/
def chainEnd (s : State) : ℕ → ℕ → ℕ → Option (ℕ × ℕ)
  | 0, _, _ => none
  | fuel + 1, tail, used =>
    if fatGet s tail < endOfChain then chainEnd s fuel (fatGet s tail) (used + 1)
    else some (tail, used)

/-- The second loop: as many clusters as wanted, each linked to the one before. -/
def fillLoop : State → ℕ → ℕ → State × ℕ
  | s, _, 0 => (s, 0)
  | s, tail, limit + 1 =>
    let (s, c) := allocate s
    if c = 0 then (s, 0)
    else
      let (s, added) := fillLoop (fatSet s tail c) c limit
      (s, added + 1)

/-- The entry of the file, which is created if it is not there. -/
def fillEntry (s : State) : State × Option (Sector × ℕ) :=
  match findEntry s fillName with
  | some found => (s, some found)
  | none => match diskCreate s fillName 0 with
    | (s, false) => (s, none)
    | (s, true) => (s, findEntry s fillName)

/-- `disk_fill`, with the number of clusters added; nothing if it does not return. -/
def diskFill (s : State) (limit : ℕ) : Option (State × ℕ) :=
  if ¬s.mounted ∨ limit = 0 then some (s, 0)
  else match fillEntry s with
    | (s, none) => some (s, 0)
    | (s, some (r, slot)) => match chainEnd s walkLimit (entryCluster r slot) 1 with
      | none => none
      | some (tail, used) =>
        let (s, added) := fillLoop s tail limit
        some (s.write (clusterLba s s.rootCluster) (setSize r slot ((used + added) * 512)), added)

/-! ### The end of a chain -/

/-- A chain is followed to its last cluster, and its clusters are counted. -/
theorem Safe.chainEnd_of_chain (h : Safe s D) (hl : Chain (fatStep s) c l) :
    ∀ {fuel : ℕ} (used : ℕ), l.length ≤ fuel →
      ∃ tail, chainEnd s fuel c (used + 1) = some (tail, used + l.length) ∧ l.getLast? = some tail := by
  induction hl with
  | @last a hstep =>
    rintro (_ | fuel) used hfuel
    · simp at hfuel
    obtain ⟨hrange, hused⟩ := h.layout.toGeometry.of_mem_chain (.last hstep) List.mem_cons_self
    rw [h.fatStep_eq hrange hused] at hstep
    have hend : ¬Fat.fatGet s a < endOfChain := by
      intro hlt
      rw [h.fatGet hrange] at hlt
      simp [hlt] at hstep
    exact ⟨a, by rw [chainEnd, if_neg hend]; rfl, rfl⟩
  | @link a b l hstep hl ih =>
    rintro (_ | fuel) used hfuel
    · simp at hfuel
    obtain ⟨hrange, hab, -, hend⟩ := h.links_of_fatStep hstep
    rw [graph_fat, ← h.fatGet hrange] at hab
    have hshort : l.length ≤ fuel := by
      rw [List.length_cons] at hfuel
      omega
    obtain ⟨tail, hres, htail⟩ := ih (used + 1) hshort
    refine ⟨tail, ?_, ?_⟩
    · rw [chainEnd, hab, if_pos hend, hres, List.length_cons]
      congr 2
      omega
    · rw [List.getLast?_cons, htail]
      rfl

/-- **The walk of `disk_fill` ends**, from the cluster of an entry and from entry 0. -/
theorem Safe.chainEnd_of_holds (h : Safe s D) {d i : ℕ} {e : Entry} (he : s.graph.Holds D d i e) :
    ∃ tail used, chainEnd s walkLimit e.cluster 1 = some (tail, used) ∧ (tail = 0 ∨ InRange tail) ∧ s.fat tail ≠ 0 := by
  have hwalk : ∀ {c l} (fuel used : ℕ), Chain (fatStep s) c l → 127008 ≤ fuel →
      ∃ tail used', chainEnd s fuel c (used + 1) = some (tail, used') ∧ (tail = 0 ∨ InRange tail) ∧ s.fat tail ≠ 0 := by
    intro c l fuel used hl hfuel
    have hlt := h.layout.toGeometry.chain_length_lt hl
    obtain ⟨tail, hres, hlast⟩ := h.chainEnd_of_chain hl used (show l.length ≤ fuel by omega)
    obtain ⟨hrange, hused⟩ := h.layout.toGeometry.of_mem_chain hl (List.mem_of_getLast? hlast)
    exact ⟨tail, _, hres, .inr hrange, hused⟩
  obtain ⟨l, ⟨h0, -⟩ | hl⟩ := h.exists_heads he
  · -- an entry without a cluster: the chain that entry 0 leads to, if there is one
    have hzero : Fat.fatGet s 0 = s.fat 0 := by
      rw [h.layout.toGeometry.fatGet (by decide)]
      exact Nat.mod_eq_of_lt (h.guarded.zero trivial)
    have hne : s.fat 0 ≠ 0 := by
      intro hz
      have hspare := h.guarded.spare trivial (show s.fat 0 < endOfChain by rw [hz]; decide)
      rw [graph_fat, hz] at hspare
      exact absurd hspare.inRange.1 (by decide)
    rw [h0, walkLimit, chainEnd, hzero]
    by_cases hend : s.fat 0 < endOfChain
    · have hspare := h.guarded.spare trivial hend
      obtain ⟨l, hl⟩ := h.exists_chain hspare.inRange hspare.used hspare.notNext
      rw [if_pos hend]
      exact hwalk _ _ hl (by decide)
    · rw [if_neg hend]
      exact ⟨0, 1, rfl, .inl rfl, hne⟩
  · exact hwalk walkLimit 0 hl (by decide)

/-! ### Adding clusters -/

/-- Linking a cluster just taken, to a chain or to entry 0. -/
theorem Obtained.linkTail (ha : Obtained s D s' c) {tail : ℕ} (htail : tail = 0 ∨ InRange tail)
    (hused : s.fat tail ≠ 0) :
    Safe (fatSet s' tail c) D ∧ Orderly s' (fatSet s' tail c) ∧ (fatSet s' tail c).sector = s'.sector ∧
      (fatSet s' tail c).fat c ≠ 0 ∧ freeCount (fatSet s' tail c).fat + 1 = freeCount s.fat := by
  have hc0 := ha.inRange.ne_zero
  have hc32 := ha.inRange.lt_word
  have hlt : tail < 127008 := by
    rcases htail with rfl | htail
    · decide
    · exact htail.2
  have hused' : s'.fat tail ≠ 0 := by
    rw [(ha.undisturbed ∅ tail (Set.notMem_empty tail) hused).1]
    exact hused
  have hg : Guarded (s'.graph.setFat tail c) D := by
    rcases htail with rfl | htail
    · exact ha.safe.guarded.linkZero ha.fresh
    · exact ha.safe.guarded.link htail ha.fresh ha.spare
  obtain ⟨hsafe, horderly, hgraph, hsector⟩ := ha.safe.fatSet hlt hused' hc0 hc32 hg
  refine ⟨hsafe, horderly, hsector, ?_, ?_⟩
  · rw [← graph_fat, hgraph]
    exact setFat_ne_zero hc0 ha.fresh.used
  · rw [← graph_fat, hgraph, Volume.setFat_fat, graph_fat, freeCount_used hused' hc0, ha.freeCount_eq]

/-- **The second loop of `disk_fill`** is orderly and writes no directory; it stops
before its limit only if no cluster is free. -/
theorem Safe.fillLoop : ∀ (limit : ℕ) {s s' : State} {tail added : ℕ}, Safe s D →
    (tail = 0 ∨ InRange tail) → s.fat tail ≠ 0 → fillLoop s tail limit = (s', added) →
    Safe s' D ∧ Orderly s s' ∧ (∀ d ∈ D, s'.sector d = s.sector d) ∧
      freeCount s'.fat + added = freeCount s.fat ∧ (s.Counted → added < limit → freeCount s'.fat = 0)
  | 0, s, s', tail, added, h, _, _, hres => by
    obtain ⟨rfl, rfl⟩ := Prod.mk.inj hres
    exact ⟨h, .refl s, fun _ _ => rfl, rfl, fun _ hlt => absurd hlt (lt_irrefl 0)⟩
  | limit + 1, s, s', tail, added, h, htail, hused, hres => by
    rw [Fat.fillLoop] at hres
    rcases halloc : Fat.allocate s with ⟨s₁, c⟩
    simp only [halloc] at hres
    rcases h.allocate halloc with ⟨rfl, rfl⟩ | ⟨hc, ha, horderly₁⟩
    · obtain ⟨rfl, rfl⟩ := Prod.mk.inj hres
      exact ⟨h, .refl s₁, fun _ _ => rfl, rfl, fun hcounted _ =>
        h.freeCount_of_allocate hcounted (by rw [halloc])⟩
    · rw [if_neg hc] at hres
      obtain ⟨hsafe, horderly₂, hsector, hnew, hone⟩ := ha.linkTail htail hused
      rcases hrest : Fat.fillLoop (Fat.fatSet s₁ tail c) c limit with ⟨s₂, added'⟩
      simp only [hrest] at hres
      obtain ⟨rfl, rfl⟩ := Prod.mk.inj hres
      obtain ⟨hsafe', horderly₃, hdirs, hcount, hfull⟩ := Safe.fillLoop limit hsafe (.inr ha.inRange) hnew hrest
      have horderly := horderly₁.trans horderly₂
      refine ⟨hsafe', horderly.trans horderly₃, fun d hd => ?_, by omega, fun hcounted hlt => ?_⟩
      · rw [hdirs d hd, hsector, ha.sector_eq hd]
      · exact hfull (horderly.counted hcounted) (by omega)

/-! ### The call -/

theorem rootLevel_fillName : RootLevel fillName := by decide

/-- The entry of the file is one of the root. -/
theorem Safe.fillEntry (h : Safe s D) {found : Option (Sector × ℕ)}
    (hres : fillEntry s = (s', found)) :
    ∃ D', Safe s' D' ∧ Orderly s s' ∧ ∀ r i, found = some (r, i) → r = s'.sector 2 ∧ ∃ e, s'.graph.Holds D' 2 i e := by
  have hroot : ∀ {s : State} {D : Set ℕ} {r : Sector} {i : ℕ}, Safe s D →
      Fat.findEntry s fillName = some (r, i) → r = s.sector 2 ∧ ∃ e, s.graph.Holds D 2 i e := by
    intro s D r i h hfind
    obtain ⟨d, e, rfl, hf⟩ := h.found hfind
    obtain ⟨rfl, -⟩ := h.parentDir_rootLevel rootLevel_fillName hf.parent
    exact ⟨rfl, e, hf.holds⟩
  rw [Fat.fillEntry] at hres
  rcases hfind : Fat.findEntry s fillName with _ | found'
  · obtain ⟨D', hsafe, horderly⟩ := h.diskCreate (n := fillName) (by decide) 0
    rw [hfind] at hres
    generalize Fat.diskCreate s fillName 0 = res at hres hsafe horderly
    obtain ⟨s₁, ok⟩ := res
    cases ok with
    | false =>
      cases hres
      exact ⟨D', hsafe, horderly, fun r i h => nomatch h⟩
    | true =>
      cases hres
      exact ⟨D', hsafe, horderly, fun r i h => hroot hsafe h⟩
  · rw [hfind] at hres
    cases hres
    exact ⟨D, h, .refl s, fun r i heq => hroot h (hfind.trans heq)⟩

/-- How `disk_fill` ends. -/
inductive Filling (s : State) (limit : ℕ) : State → ℕ → Prop
  /-- The volume is not mounted, or nothing is wanted. -/
  | refused (h : ¬s.mounted ∨ limit = 0) : Filling s limit s 0
  /-- There is no entry, and none can be made. -/
  | notFound {s₁ : State} (hentry : fillEntry s = (s₁, none)) : Filling s limit s₁ 0
  /-- Clusters have been added, all there are if fewer than wanted. -/
  | filled {s₁ s' : State} {r : Sector} {i added : ℕ} (hentry : fillEntry s = (s₁, some (r, i)))
      (hroot : listing (s'.sector 2) = listing (s₁.sector 2))
      (hfull : s.Counted → added < limit → freeCount s'.fat = 0)
      (hcount : freeCount s'.fat + added = freeCount s₁.fat) : Filling s limit s' added

/-- **`disk_fill` returns**, and is orderly. -/
theorem Safe.diskFill (h : Safe s D) (limit : ℕ) :
    ∃ s' added D', diskFill s limit = some (s', added) ∧ Safe s' D' ∧ Orderly s s' ∧ Filling s limit s' added := by
  rw [Fat.diskFill]
  split
  · rename_i hrefused
    exact ⟨s, 0, D, rfl, h, .refl s, .refused hrefused⟩
  rcases hentry : Fat.fillEntry s with ⟨s₁, found⟩
  obtain ⟨D₁, h₁, horderly₁, hfound⟩ := h.fillEntry hentry
  rcases found with _ | ⟨r, i⟩
  · exact ⟨s₁, 0, D₁, rfl, h₁, horderly₁, .notFound hentry⟩
  obtain ⟨rfl, e, he⟩ := hfound r i rfl
  obtain ⟨-, -, hcluster, -⟩ := listing_eq_some he.2.2.1
  obtain ⟨tail, used, hend, htail, hused⟩ := h₁.chainEnd_of_holds he
  simp only [hcluster, hend]
  rcases hloop : Fat.fillLoop s₁ tail limit with ⟨s₂, added⟩
  obtain ⟨h₂, horderly₂, hdirs, hcount, hfull⟩ := Safe.fillLoop limit h₁ htail hused hloop
  simp only [h₂.layout.rootCluster]
  -- only the size in the root changes
  obtain ⟨hsafe, horderly₃⟩ := h₂.writeSizes h₂.sound.root
    (b := setSize (s₁.sector 2) i ((used + added) * 512)) (by rw [listing_setSize, hdirs 2 he.1])
  have hup := write_spec h₂.layout le_rfl (by decide) (setSize (s₁.sector 2) i ((used + added) * 512))
  refine ⟨_, added, D₁, rfl, hsafe, (horderly₁.trans horderly₂).trans horderly₃, .filled hentry ?_ ?_ ?_⟩
  · rw [hup.sector, Function.update_self, listing_setSize]
  · rw [hup.fat]
    exact fun hcounted => hfull (horderly₁.counted hcounted)
  · rw [hup.fat, hcount]

/-! ### Runs of the kernel -/

/-- The calls of the kernel. -/
inductive KernelCall where
  | call (op : Op)
  | fill (limit : ℕ)

/-- The state after a call; one that does not return leads nowhere. -/
def KernelCall.exec (s : State) : KernelCall → State
  | .call op => (Fat.call s op).1
  | .fill limit => match diskFill s limit with
    | some (s', _) => s'
    | none => s

/-- The path of the call is a string. -/
def KernelCall.ZeroFree : KernelCall → Prop
  | .call op => op.ZeroFree
  | .fill _ => True

/-- The call is not one of `disk_store_large` that comes upon a directory. -/
def KernelCall.SparesDirectories (s : State) : KernelCall → Prop
  | .call op => op.SparesDirectories s
  | .fill _ => True

/-- A run of the kernel on a new volume. -/
def kernelRun (s₀ : State) (calls : List KernelCall) : State :=
  calls.foldl KernelCall.exec (diskFormat s₀)

/-- **Every call of the kernel** leads from a safe state with right counters to another,
by writes to the volume. -/
theorem Safe.exec (h : Safe s D) (hcounted : s.Counted) {call : KernelCall} (hzero : call.ZeroFree)
    (hspares : call.SparesDirectories s) :
    ∃ D', Safe (call.exec s) D' ∧ (call.exec s).Counted ∧ Store.Writes InHome s.disk (call.exec s).disk := by
  cases call with
  | call op => exact h.call hcounted hzero hspares
  | fill limit =>
    obtain ⟨s', added, D', hres, hsafe', horderly, -⟩ := h.diskFill limit
    refine ⟨D', ?_⟩
    rw [KernelCall.exec, hres]
    exact ⟨hsafe', horderly.counted hcounted, horderly.writes⟩

/-- **All states of a run are safe, with right counters**, as long as no
`disk_store_large` comes upon a directory. -/
theorem safe_kernelRun (s₀ : State) {calls : List KernelCall} (hzero : ∀ call ∈ calls, call.ZeroFree)
    (hspares : Runs.Throughout (fun before call => call.SparesDirectories (kernelRun s₀ before)) calls) :
    ∃ D, Safe (kernelRun s₀ calls) D ∧ (kernelRun s₀ calls).Counted := by
  refine Runs.foldl_invariant (I := fun s => ∃ D, Safe s D ∧ s.Counted) ?_ ?_
  · exact ⟨{2}, safe_diskFormat s₀, (diskFormat_inv s₀).counted⟩
  · rintro before call after rfl ⟨D, hsafe, hcounted⟩
    have hmem : call ∈ before ++ call :: after := by simp
    obtain ⟨D', hsafe', hcounted', -⟩ := hsafe.exec hcounted (hzero call hmem) (hspares before call after rfl)
    exact ⟨D', hsafe', hcounted'⟩

end OS64.Fat
