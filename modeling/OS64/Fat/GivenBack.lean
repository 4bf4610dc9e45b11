import OS64.Fat.Fill

/-!
# What removing and overwriting give back

`disk_remove` frees one cluster, the one in the entry, and `disk_store_large` frees none
when it replaces a file. So of the clusters of a file the rest stay in use for ever:
removing gives everything back exactly for files of at most one cluster, and replacing
for files that have none (`OS64.Fat.chain_given_back_iff`).

Both halves rest on what the calls do to the table and to the count, which
`OS64.Fat.Removal` and `OS64.Fat.LargeStore` say case by case.
-/

namespace OS64.Fat

open List Chains

variable {s s' : State} {D : Set ℕ} {n : Path} {l : List ℕ}

/-- The clusters of `l` are free, in both copies of the table, and have been counted. -/
def GivenBack (s s' : State) (l : List ℕ) : Prop :=
  (∀ c ∈ l, fatEntry s' 0 c = 0 ∧ fatEntry s' 1 c = 0) ∧ s'.freeClusters = s.freeClusters + l.length

/-! ### Removing -/

/-- The two copies of the table agree. -/
theorem Layout.fatEntry_copy (h : Layout s) {c : ℕ} (hc : c < 127008) : fatEntry s 1 c = fatEntry s 0 c := by
  rw [Fat.fatEntry, Fat.fatEntry, h.toGeometry.fatLba, h.toGeometry.fatLba, Nat.zero_mul, one_mul,
    add_zero, h.copies _ (by omega)]

/-- The cluster in the entry that is found. -/
theorem Found.cluster_eq {d i : ℕ} {e : Entry} (hf : Found s D n d i e) :
    entryCluster (s.sector d) i = e.cluster := (listing_eq_some hf.holds.2.2.1).2.2.1

/-- **Removing gives back the chain exactly if it has at most one cluster.** -/
theorem Safe.givenBack_iff (h : Safe s D) {r : Sector} {i : ℕ} (hfind : Fat.findEntry s n = some (r, i))
    (hl : Heads s (entryCluster r i) l) (hres : Fat.diskRemove s n = (s', true)) :
    GivenBack s s' l ↔ l.length ≤ 1 := by
  have hrem := h.removal n
  rw [hres] at hrem
  cases hrem with
  | @removed d i' e _ hf hup =>
    rw [hf.findEntry h] at hfind
    cases hfind
    rw [hf.cluster_eq] at hl
    have hfree := hup.freeClusters
    rcases hl with ⟨h0, rfl⟩ | hl
    · rw [if_pos h0] at hfree
      exact ⟨fun _ => Nat.zero_le 1, fun _ => ⟨fun c hc => absurd hc not_mem_nil, hfree⟩⟩
    · obtain ⟨hrange, -⟩ := h.layout.toGeometry.of_mem_chain hl hl.head_mem
      have hne := hrange.ne_zero
      rw [if_neg hne] at hfree
      constructor
      · -- the count goes up by one, whatever the length of the chain
        rintro ⟨-, hcount⟩
        omega
      · intro hlen
        have hpos := length_pos_of_mem hl.head_mem
        refine ⟨fun c hc => ?_, by omega⟩
        obtain rfl : c = e.cluster := by
          obtain ⟨a, rfl⟩ := length_eq_one_iff.mp (show l.length = 1 by omega)
          rw [mem_singleton.mp hc, mem_singleton.mp hl.head_mem]
        have hzero : fatEntry s' 0 e.cluster = 0 := by
          rw [hup.layout.toGeometry.fatEntry hrange.2, hup.fat, if_neg hne, Function.update_self]
        exact ⟨hzero, (hup.layout.fatEntry_copy hrange.2).trans hzero⟩

/-! ### Overwriting -/

variable {data : ℕ → UInt8} {size : ℕ} {ok : Bool}

/-- **Storing a large file leaves every table entry in use as it is.** -/
theorem Safe.fat_of_diskStoreLarge (h : Safe s D) (hn : 0 ∉ n) (hres : Fat.diskStoreLarge s n data size = (s', ok)) :
    Layout s' ∧ ∀ c, s.fat c ≠ 0 → s'.fat c = s.fat c := by
  obtain ⟨D₁, h₁, -⟩ := h.deleteOld n
  obtain ⟨_, hup₁⟩ := h.deleteOld_updates n
  obtain ⟨_, hup₂, -⟩ := (h₁.creation n).updates h₁
  have hlayout := hup₂.layout
  have hcreate : (Fat.diskCreate (Fat.deleteOld s n) n 0).1.fat = s.fat := hup₂.fat.trans hup₁.fat
  have hout := h.largeStore hn data size
  rw [hres] at hout
  cases hout with
  | refused _ => exact ⟨h.layout, fun _ _ => rfl⟩
  | notCreated hc =>
    rw [hc] at hlayout hcreate
    exact ⟨hlayout, fun c _ => by rw [← hcreate]⟩
  | notFound hc _ =>
    rw [hc] at hlayout hcreate
    exact ⟨hlayout, fun c _ => by rw [← hcreate]⟩
  | noCluster hc _ _ _ _ =>
    rw [hc] at hlayout hcreate
    exact ⟨hlayout, fun c _ => by rw [← hcreate]⟩
  | broken hc _ _ ha hg hfill _ =>
    rw [hc] at hcreate
    rw [← hcreate]
    exact ⟨hg.safe.layout, fun c hused => (ha.undisturbed_filled hfill c (Set.notMem_empty c) hused).1⟩
  | stored hc _ _ ha hg hfill =>
    have hup := write_spec hg.safe.layout le_rfl (by decide)
    rw [hc] at hcreate
    rw [← hcreate, (hup _).fat]
    exact ⟨(hup _).layout, fun c hused =>
      (ha.undisturbed_filled hfill c (Set.notMem_empty c) hused).1⟩

/-- **Overwriting leaves no cluster of the chain in use exactly if it has none.** -/
theorem Safe.overwritten_iff (h : Safe s D) (hn : 0 ∉ n)
    {c₀ : ℕ} (hl : Heads s c₀ l) (hres : Fat.diskStoreLarge s n data size = (s', ok)) :
    (∀ c ∈ l, fatEntry s' 0 c = 0) ↔ l = [] := by
  obtain ⟨hlayout, hkept⟩ := h.fat_of_diskStoreLarge hn hres
  constructor
  · intro hzero
    rcases hl with ⟨-, hnil⟩ | hl
    · exact hnil
    · -- the first cluster of the chain is still in use
      obtain ⟨hrange, hused⟩ := h.layout.toGeometry.of_mem_chain hl hl.head_mem
      have hfirst := hzero c₀ hl.head_mem
      rw [hlayout.toGeometry.fatEntry hrange.2, hkept c₀ hused] at hfirst
      exact absurd hfirst hused
  · rintro rfl c hc
    exact absurd hc not_mem_nil

/-! ### Along a run -/

/-- **Removing a file gives its clusters back exactly if there is at most one, and
overwriting it exactly if there is none**, in every state of a run in which no
`disk_store_large` comes upon a directory. -/
theorem chain_given_back_iff (s₀ : State) {calls : List KernelCall}
    (hzero : ∀ call ∈ calls, call.ZeroFree)
    (hspares : Runs.Throughout (fun before call => call.SparesDirectories (kernelRun s₀ before)) calls)
    {p : Path} (hp : 0 ∉ p) {r : Sector} {slot : ℕ} {l : List ℕ}
    (hfind : findEntry (kernelRun s₀ calls) p = some (r, slot))
    (hl : Heads (kernelRun s₀ calls) (entryCluster r slot) l) :
    (∀ s', diskRemove (kernelRun s₀ calls) p = (s', true) → (GivenBack (kernelRun s₀ calls) s' l ↔ l.length ≤ 1)) ∧
    ∀ data size s', diskStoreLarge (kernelRun s₀ calls) p data size = (s', true) →
      ((∀ c ∈ l, fatEntry s' 0 c = 0) ↔ l = []) := by
  obtain ⟨D, hsafe, -⟩ := safe_kernelRun s₀ hzero hspares
  exact ⟨fun s' hres => hsafe.givenBack_iff hfind hl hres, fun data size s' hres => hsafe.overwritten_iff hp hl hres⟩

/-- A new volume with one file of `size` bytes. -/
def oneFile (size : ℕ) : State :=
  kernelRun (State.initial fun _ => zero) [.call (.storeLarge pathA (fun _ => 65) size)]

theorem oneFile_eq (size : ℕ) : oneFile size =
    (diskStoreLarge (diskFormat (State.initial fun _ => zero)) pathA (fun _ => 65) size).1 := rfl

/-- A file of three bytes is removed, and its cluster is given back. -/
theorem one_cluster_given_back : GivenBack (oneFile 3) (diskRemove (oneFile 3) pathA).1 [3] := by
  have hfind : (findEntry (oneFile 3) pathA).map (fun x => (x.2, entryCluster x.1 x.2)) = some (1, 3) := by
    rw [oneFile_eq, diskFormat_eq]
    decide +kernel
  have hstep : fatStep (oneFile 3) 3 = some none := by
    rw [oneFile_eq, diskFormat_eq]
    decide +kernel
  have hremove : (diskRemove (oneFile 3) pathA).2 = true := by
    rw [oneFile_eq, diskFormat_eq]
    decide +kernel
  obtain ⟨⟨r, slot⟩, hfind, hslot⟩ := Option.map_eq_some_iff.mp hfind
  obtain ⟨rfl, hcluster⟩ := Prod.mk.inj hslot
  have hl : Heads (oneFile 3) (entryCluster r 1) [3] := by
    rw [hcluster]
    exact .inr (.last hstep)
  refine ((chain_given_back_iff (State.initial fun _ => zero) ?_ ?_ (by decide) hfind hl).1 _
    (eq_mk_true hremove)).mpr le_rfl
  · intro call hcall
    rw [mem_singleton.mp hcall]
    exact (by decide : (0 : UInt8) ∉ pathA)
  · rw [← nil_append [_], Runs.throughout_concat]
    have hspares := (safe_diskFormat (State.initial fun _ => zero)).fillsDirectory_rootLevel
      (show RootLevel pathA by decide) (by decide)
    exact ⟨Runs.throughout_nil _, hspares⟩

/-- A file of 513 bytes, which has the clusters 3 and 4, is removed: cluster 4 stays in
use, and the count goes up by one only. When it is replaced instead, cluster 3 stays in
use. -/
theorem second_cluster_lost :
    (findEntry (oneFile 513) pathA).map (fun x => entryCluster x.1 x.2) = some 3 ∧
    Heads (oneFile 513) 3 [3, 4] ∧ (diskRemove (oneFile 513) pathA).2 = true ∧
    fatEntry (diskRemove (oneFile 513) pathA).1 0 4 = 0x0fffffff ∧
    (diskRemove (oneFile 513) pathA).1.freeClusters = (oneFile 513).freeClusters + 1 ∧
    (diskStoreLarge (oneFile 513) pathA (fun _ => 66) 1).2 = true ∧
    fatEntry (diskStoreLarge (oneFile 513) pathA (fun _ => 66) 1).1 0 3 = 4 := by
  have hfirst : fatStep (oneFile 513) 3 = some (some 4) := by
    rw [oneFile_eq, diskFormat_eq]
    decide +kernel
  have hlast : fatStep (oneFile 513) 4 = some none := by
    rw [oneFile_eq, diskFormat_eq]
    decide +kernel
  refine ⟨?_, .inr (.link hfirst (.last hlast)), ?_⟩
  · rw [oneFile_eq, diskFormat_eq]
    decide +kernel
  · rw [oneFile_eq, diskFormat_eq]
    decide +kernel

end OS64.Fat
