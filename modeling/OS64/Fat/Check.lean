import OS64.Fat.Sizes

/-!
# Checking a volume

`disk_check` looks at the signatures, compares the two copies of the table and follows
the chain of each entry of the root. This module says what it accepts, for any contents
of the disk (`OS64.Fat.Geometry.isSome_diskCheck`), and sets that against what a
consistent volume is (`OS64.Fat.Intact`).

The walk needs no care: a chain that comes back to itself has no end, and the chains
that have one are shorter than the cut-off. The two notions differ in three places.
A file without clusters is consistent, and `touch` makes one, but `disk_check` rejects
it. It does not compare the chains of two entries with each other. And it does not
find every size too large: it does not look at the size of a directory, and rounding the
size of a file up to sectors wraps around at 32 bits.
-/

namespace OS64.Fat

open List Chains

variable {s : State} {D : Set ℕ} {r : Sector} {c i n : ℕ} {l : List ℕ}

/-! ### The check -/

/-- `root_read`. -/
def rootRead (s : State) : Sector := dirRead s s.rootCluster

/-- The partition table, the boot sector and the FSInfo sector have their signatures, and
the partition starts where the volume does. -/
def signaturesValid (s : State) : Bool :=
  let m := s.disk 0
  let boot := s.disk s.volumeStart
  let info := s.disk (s.volumeStart + 1)
  m 510 = 0x55 ∧ m 511 = 0xaa ∧ m 450 = 0x0c ∧ r32 m 454 = s.volumeStart ∧
    boot 510 = 0x55 ∧ boot 511 = 0xaa ∧ r16 boot 11 = 512 ∧ r32 boot 82 = 0x33544146 ∧
    r32 info 0 = 0x41615252 ∧ r32 info 484 = 0x61417272 ∧ r32 info 508 = 0xaa550000

/-- The loop over the sectors of the table: the two copies are the same. -/
def copiesAgree (s : State) : Bool :=
  (List.range s.fatSectors).all fun k => (List.range 512).all fun i =>
    s.disk (s.volumeStart + s.reserved + k) i = s.disk (s.volumeStart + s.reserved + s.fatSectors + k) i

/-- The loop along a chain, as long as `remaining` more clusters are allowed: the number
of clusters walked. -/
def chainLength (s : State) : ℕ → ℕ → Option ℕ
  | 0, c => if c < endOfChain then none else some 0
  | remaining + 1, c =>
    if c < endOfChain then
      if c < 2 ∨ maxCluster s ≤ c then none
      else if fatGet s c = 0 then none
      else (chainLength s remaining (fatGet s c)).map (· + 1)
    else some 0

/-- The slot is looked at: it has an entry, and not the label. -/
def entryChecked (r : Sector) (i : ℕ) : Bool := entryLive r i ∧ entryAttr r i &&& 8 = 0

/-- `needed`: the number of sectors for the size in slot `i`, in 32 bits. -/
def needed (r : Sector) (i : ℕ) : ℕ := (entrySize r i + 511) % 2 ^ 32 / 512

/-- The check of one entry: the number of its clusters. `walked++ > max` lets a walk go on
for `max + 1` clusters. -/
def checkEntry (s : State) (r : Sector) (i : ℕ) : Option ℕ :=
  if entryCluster r i = 0 ∨ maxCluster s ≤ entryCluster r i then none
  else match chainLength s (maxCluster s + 1) (entryCluster r i) with
    | none => none
    | some walked => if ¬entryIsDir r i ∧ walked < needed r i then none else some walked

/-- `disk_check`: the number of files and of clusters in use. -/
def diskCheck (s : State) : Option (ℕ × ℕ) :=
  if ¬signaturesValid s ∨ ¬copiesAgree s then none
  else (List.range 16).foldlM (fun counts i =>
    if entryChecked (rootRead s) i then
      (checkEntry s (rootRead s) i).map fun walked => (counts.1 + 1, counts.2 + walked)
    else some counts) (0, 1)

/-! ### The walk -/

theorem chainLength_end (hc : ¬c < endOfChain) : ∀ remaining, chainLength s remaining c = some 0
  | 0 => if_neg hc
  | _ + 1 => if_neg hc

/-- **The walk follows chains, to their ends**, if it may go on for long enough. -/
theorem chainLength_eq_some (remaining : ℕ) (hc : c < endOfChain) :
    chainLength s remaining c = some n ↔ ∃ l, Chain (fatStep s) c l ∧ l.length = n ∧ n ≤ remaining := by
  induction remaining generalizing c n with
  | zero =>
    rw [chainLength, if_pos hc]
    refine ⟨fun hnone => absurd hnone (by simp), ?_⟩
    rintro ⟨l, hl, rfl, hle⟩
    exact absurd (length_eq_zero_iff.mp (Nat.le_zero.mp hle)) hl.ne_nil
  | succ remaining ih =>
    rw [chainLength, if_pos hc]
    by_cases hrange : c < 2 ∨ maxCluster s ≤ c
    · rw [if_pos hrange]
      refine ⟨fun hnone => absurd hnone (by simp), ?_⟩
      rintro ⟨l, hl, -⟩
      refine absurd ?_ (hl.step_ne_none hl.head_mem)
      rw [fatStep, if_neg (by omega)]
    rw [if_neg hrange]
    have hin : 2 ≤ c ∧ c < maxCluster s := by omega
    by_cases h0 : fatGet s c = 0
    · rw [if_pos h0]
      refine ⟨fun hnone => absurd hnone (by simp), ?_⟩
      rintro ⟨l, hl, -⟩
      refine absurd ?_ (hl.step_ne_none hl.head_mem)
      rw [fatStep, if_pos hin, if_pos h0]
    rw [if_neg h0]
    have hstep : fatStep s c = if fatGet s c < endOfChain then some (some (fatGet s c)) else some none := by
      rw [fatStep, if_pos hin, if_neg h0]
    by_cases hend : fatGet s c < endOfChain
    · rw [if_pos hend] at hstep
      rw [Option.map_eq_some_iff]
      constructor
      · rintro ⟨k, hk, rfl⟩
        obtain ⟨l, hl, rfl, hle⟩ := (ih hend).mp hk
        exact ⟨c :: l, .link hstep hl, rfl, by omega⟩
      · rintro ⟨l, hl, rfl, hle⟩
        cases hl with
        | last hlast =>
          rw [hstep] at hlast
          simp at hlast
        | @link _ b l hlink hl =>
          rw [hstep] at hlink
          obtain rfl := Option.some.inj (Option.some.inj hlink)
          rw [length_cons] at hle
          exact ⟨l.length, (ih hend).mpr ⟨l, hl, rfl, by omega⟩, rfl⟩
    · rw [if_neg hend] at hstep
      rw [chainLength_end hend, Option.map_some]
      constructor
      · intro hn
        cases hn
        exact ⟨[c], .last hstep, rfl, by omega⟩
      · rintro ⟨l, hl, rfl, -⟩
        rw [hl.unique (.last hstep), length_singleton]

/-- The cut-off is never what ends the walk: a chain has fewer clusters than the volume. -/
theorem Geometry.chainLength_iff (h : Geometry s) (hc : c < endOfChain) :
    chainLength s (Fat.maxCluster s + 1) c = some n ↔ ∃ l, Chain (fatStep s) c l ∧ l.length = n := by
  rw [chainLength_eq_some _ hc]
  refine exists_congr fun l => and_congr_right fun hl => and_iff_left_of_imp ?_
  rintro rfl
  have := h.chain_length_lt hl
  rw [h.maxCluster]
  omega

/-! ### What is accepted -/

/-- Slot `i` of the root has an entry, other than the label. -/
def RootEntry (s : State) (i : ℕ) : Prop := i < 16 ∧ entryChecked (rootRead s) i = true

/-- The cluster in slot `i` of the root. -/
def clusterAt (s : State) (i : ℕ) : ℕ := entryCluster (rootRead s) i

/-- The size in slot `i` of the root. -/
def sizeAt (s : State) (i : ℕ) : ℕ := entrySize (rootRead s) i

theorem Geometry.isSome_checkEntry (h : Geometry s) : (checkEntry s r i).isSome = true ↔
    ∃ l, Chain (fatStep s) (entryCluster r i) l ∧ (entryIsDir r i = true ∨ needed r i ≤ l.length) := by
  rw [checkEntry]
  by_cases hrange : entryCluster r i = 0 ∨ Fat.maxCluster s ≤ entryCluster r i
  · rw [if_pos hrange]
    refine ⟨fun hnone => absurd hnone (by simp), ?_⟩
    rintro ⟨l, hl, -⟩
    obtain ⟨hge, hlt⟩ := (h.of_mem_chain hl hl.head_mem).1
    rw [h.maxCluster] at hrange
    omega
  rw [if_neg hrange]
  have hlt : entryCluster r i < endOfChain := by
    rw [h.maxCluster] at hrange
    rw [endOfChain]
    omega
  rcases hwalk : chainLength s (Fat.maxCluster s + 1) (entryCluster r i) with _ | walked
  · refine ⟨fun hnone => absurd hnone (by simp), ?_⟩
    rintro ⟨l, hl, -⟩
    rw [(h.chainLength_iff hlt).mpr ⟨l, hl, rfl⟩] at hwalk
    simp at hwalk
  · obtain ⟨l, hl, rfl⟩ := (h.chainLength_iff hlt).mp hwalk
    have hunique : (∃ l', Chain (fatStep s) (entryCluster r i) l' ∧
        (entryIsDir r i = true ∨ needed r i ≤ l'.length)) ↔
        entryIsDir r i = true ∨ needed r i ≤ l.length := by
      refine ⟨?_, fun hsize => ⟨l, hl, hsize⟩⟩
      rintro ⟨l', hl', hsize⟩
      rwa [← hl'.unique hl]
    rw [hunique]
    by_cases hshort : ¬entryIsDir r i = true ∧ l.length < needed r i
    · simp only [if_pos hshort, Option.isSome_none]
      refine ⟨fun hfalse => absurd hfalse (by simp), ?_⟩
      rintro (hdir | hle)
      · exact absurd hdir hshort.1
      · omega
    · simp only [if_neg hshort, Option.isSome_some, true_iff]
      by_cases hdir : entryIsDir r i = true
      · exact .inl hdir
      · exact .inr (not_lt.mp fun hlt' => hshort ⟨hdir, hlt'⟩)

/-- What `disk_check` makes sure of. -/
structure Passes (s : State) : Prop where
  signatures : signaturesValid s = true
  copies : copiesAgree s = true
  entries : ∀ i, RootEntry s i → ∃ l, Chain (fatStep s) (clusterAt s i) l ∧
    (entryIsDir (rootRead s) i = true ∨ needed (rootRead s) i ≤ l.length)

/-- **What `disk_check` accepts.** -/
theorem Geometry.isSome_diskCheck (h : Geometry s) : (diskCheck s).isSome = true ↔ Passes s := by
  rw [diskCheck]
  by_cases hbad : ¬signaturesValid s = true ∨ ¬copiesAgree s = true
  · rw [if_pos hbad]
    refine ⟨fun hnone => absurd hnone (by simp), fun hp => ?_⟩
    rcases hbad with hbad | hbad
    · exact absurd hp.signatures hbad
    · exact absurd hp.copies hbad
  rw [if_neg hbad, Loops.isSome_foldlM (P := fun i => entryChecked (rootRead s) i = true →
    (checkEntry s (rootRead s) i).isSome = true)]
  · obtain ⟨hsigned, hcopies⟩ := not_or.mp hbad
    constructor
    · intro hall
      refine ⟨not_not.mp hsigned, not_not.mp hcopies, fun i hi => ?_⟩
      exact h.isSome_checkEntry.mp (hall i (mem_range.mpr hi.1) hi.2)
    · intro hp i hi hchecked
      exact h.isSome_checkEntry.mpr (hp.entries i ⟨mem_range.mp hi, hchecked⟩)
  · intro counts i
    split
    · rename_i hchecked
      simp [hchecked]
    · rename_i hchecked
      simp [hchecked]

/-! ### Consistent volumes -/

/-- Slot `i` of the root has an empty file without clusters. -/
def EmptyFile (s : State) (i : ℕ) : Prop :=
  entryIsDir (rootRead s) i = false ∧ clusterAt s i = 0 ∧ sizeAt s i = 0

/-- The chains of the entries of the root have no cluster in common. -/
def Apart (s : State) : Prop :=
  ∀ i j l l', RootEntry s i → RootEntry s j → i ≠ j → Chain (fatStep s) (clusterAt s i) l →
    Chain (fatStep s) (clusterAt s j) l' → l.Disjoint l'

/-- The chains of the entries of the root are long enough for their sizes. -/
def LongEnough (s : State) : Prop :=
  ∀ i l, RootEntry s i → Chain (fatStep s) (clusterAt s i) l → sizeAt s i ≤ 512 * l.length

/-- The volume is consistent. A chain stays in the volume, comes to an end and does not
come back to a cluster, by its definition. -/
structure Intact (s : State) : Prop where
  signatures : signaturesValid s = true
  copies : ∀ k < s.fatSectors, ∀ i < 512, s.disk (s.volumeStart + s.reserved + k) i =
    s.disk (s.volumeStart + s.reserved + s.fatSectors + k) i
  entries : ∀ i, RootEntry s i → EmptyFile s i ∨ ∃ l, Chain (fatStep s) (clusterAt s i) l ∧
    sizeAt s i ≤ 512 * l.length
  apart : Apart s

theorem copiesAgree_iff : copiesAgree s = true ↔ ∀ k < s.fatSectors, ∀ i < 512,
    s.disk (s.volumeStart + s.reserved + k) i = s.disk (s.volumeStart + s.reserved + s.fatSectors + k) i := by
  simp only [copiesAgree, all_eq_true, mem_range, decide_eq_true_eq]

/-- Rounding up in 32 bits never asks for more than there has to be. -/
theorem needed_le (h : entrySize r i ≤ 512 * n) : needed r i ≤ n := by
  rw [needed]
  have := Nat.mod_le (entrySize r i + 511) (2 ^ 32)
  omega

/-- **Where `disk_check` is right**: where a consistent volume has no file without
clusters, and where the chains, if `disk_check` finds nothing wrong with them, have no
cluster in common and are long enough. -/
theorem Geometry.diskCheck_right_iff (h : Geometry s) :
    ((diskCheck s).isSome = true ↔ Intact s) ↔
      (Intact s → ∀ i, RootEntry s i → clusterAt s i ≠ 0) ∧ (Passes s → Apart s ∧ LongEnough s) := by
  rw [h.isSome_diskCheck]
  constructor
  · intro hright
    refine ⟨fun hintact i hi h0 => ?_, fun hp => ⟨(hright.mp hp).apart, fun i l hi hl => ?_⟩⟩
    · obtain ⟨l, hl, -⟩ := (hright.mpr hintact).entries i hi
      have hrange := (h.of_mem_chain hl hl.head_mem).1.1
      omega
    · rcases (hright.mp hp).entries i hi with ⟨-, h0, -⟩ | ⟨l', hl', hsize⟩
      · have hrange := (h.of_mem_chain hl hl.head_mem).1.1
        omega
      · rwa [hl.unique hl']
  · rintro ⟨hclusters, hfine⟩
    constructor
    · intro hp
      obtain ⟨hapart, hlong⟩ := hfine hp
      refine ⟨hp.signatures, copiesAgree_iff.mp hp.copies, fun i hi => .inr ?_, hapart⟩
      obtain ⟨l, hl, -⟩ := hp.entries i hi
      exact ⟨l, hl, hlong i l hi hl⟩
    · intro hintact
      refine ⟨hintact.signatures, copiesAgree_iff.mpr hintact.copies, fun i hi => ?_⟩
      rcases hintact.entries i hi with ⟨-, h0, -⟩ | ⟨l, hl, hsize⟩
      · exact absurd h0 (hclusters hintact i hi)
      · exact ⟨l, hl, .inr (needed_le hsize)⟩

/-! ### Volumes of the driver -/

theorem infoSector_signatures (free next : ℕ) : r32 (infoSector free next) 0 = 0x41615252 ∧
    r32 (infoSector free next) 484 = 0x61417272 ∧ r32 (infoSector free next) 508 = 0xaa550000 := by
  rw [infoSector, r32, r32, r32]
  simp only [w32]
  refine ⟨?_, ?_, ByteMem.readLE_writeLE_same _ 4 508 _⟩
  · rw [ByteMem.readLE_writeLE_of_disjoint _ (by omega), ByteMem.readLE_writeLE_of_disjoint _ (by omega),
      ByteMem.readLE_writeLE_of_disjoint _ (by omega), ByteMem.readLE_writeLE_of_disjoint _ (by omega)]
    exact ByteMem.readLE_writeLE_same _ 4 0 _
  · rw [ByteMem.readLE_writeLE_of_disjoint _ (by omega), ByteMem.readLE_writeLE_of_disjoint _ (by omega),
      ByteMem.readLE_writeLE_of_disjoint _ (by omega)]
    exact ByteMem.readLE_writeLE_same _ 4 484 _

theorem Layout.signaturesValid (h : Layout s) : signaturesValid s = true := by
  obtain ⟨hlead, hstruct, htrail⟩ := infoSector_signatures s.freeClusters s.nextCluster
  simp only [Fat.signaturesValid, h.volumeStart, h.partition, h.boot, h.info, hlead, hstruct, htrail]
  decide +kernel

theorem Layout.copiesAgree (h : Layout s) : copiesAgree s = true := by
  refine copiesAgree_iff.mpr fun k hk i _ => ?_
  rw [h.fatSectors] at hk ⊢
  rw [h.volumeStart, h.reserved]
  exact (congrFun (h.copies k hk) i).symm

/-- What slot `i` of the root has. -/
theorem Safe.has_root (h : Safe s D) (hi : RootEntry s i) : ∃ e, s.Has 2 i e ∧
    entryName (rootRead s) i = e.name ∧ entryIsDir (rootRead s) i = e.isDir ∧
    clusterAt s i = e.cluster ∧ sizeAt s i = e.size := by
  obtain ⟨hlt, hchecked⟩ := hi
  have hlive := (of_decide_eq_true hchecked).1
  have hsector : rootRead s = s.sector 2 := by
    rw [rootRead, h.layout.rootCluster]
    exact h.dirRead h.sound.root
  rw [hsector] at hlive
  rw [clusterAt, sizeAt, hsector]
  obtain ⟨e, he⟩ := Option.isSome_iff_exists.mp (entry_isSome.trans hlive)
  exact ⟨e, ⟨h.liveDir_root, hlt, he⟩, entry_eq_some he⟩

/-- The entry in slot `i` of the root is `.` or `..`, as the root has them once it is a
copy of another directory. -/
def DotsAt (s : State) (i : ℕ) : Prop :=
  entryName (rootRead s) i = dotName ∨ entryName (rootRead s) i = dotdotName

/-- **What `disk_check` says of a volume the driver has written**: it is accepted exactly
if every file in its root has a cluster, and the entries `.` and `..` there, if any, lead
to chains. -/
theorem Safe.isSome_diskCheck (h : Safe s D) (hs : Sized s) : (diskCheck s).isSome = true ↔
    ∀ i, RootEntry s i → clusterAt s i ≠ 0 ∧ (DotsAt s i → ∃ l, Chain (fatStep s) (clusterAt s i) l) := by
  rw [h.layout.toGeometry.isSome_diskCheck]
  constructor
  · intro hp i hi
    obtain ⟨l, hl, -⟩ := hp.entries i hi
    have hrange := (h.layout.toGeometry.of_mem_chain hl hl.head_mem).1.1
    exact ⟨by omega, fun _ => ⟨l, hl⟩⟩
  · intro hall
    refine ⟨h.layout.signaturesValid, h.layout.copiesAgree, fun i hi => ?_⟩
    obtain ⟨h0, hdotsChain⟩ := hall i hi
    obtain ⟨e, he, hname, hdir, hcluster, hsize⟩ := h.has_root hi
    have hchain : ∃ l, Chain (fatStep s) (clusterAt s i) l := by
      by_cases hdots : e.IsDots
      · refine hdotsChain ?_
        rw [DotsAt, hname]
        exact hdots
      · rw [hcluster] at h0 ⊢
        obtain ⟨l, ⟨hzero, -⟩ | hl⟩ := h.exists_heads (h.holds_of_has he hdots)
        · exact absurd hzero h0
        · exact ⟨l, hl⟩
    obtain ⟨l, hl⟩ := hchain
    refine ⟨l, hl, .inr (needed_le ?_)⟩
    have hfits := (hs 2 i e he).2 l (hcluster ▸ hl)
    rwa [← hsize] at hfits

/-- **`disk_check` accepts exactly the consistent volumes** where these have no file
without clusters, and where chains in which it finds nothing wrong have no cluster in
common and are long enough. A volume written by calls, none of which makes a directory of
the data of a file, is accepted exactly if every entry of its root has a cluster, with a
chain in the case of `.` and `..`. -/
theorem disk_check_exact (h : Geometry s) (s₀ : State) {ops : List Op}
    (hzero : ∀ op ∈ ops, op.ZeroFree)
    (hspares : Runs.Throughout (fun before op => op.SparesDirectories (run (diskFormat s₀) before)) ops) :
    (((diskCheck s).isSome = true ↔ Intact s) ↔
      (Intact s → ∀ i, RootEntry s i → clusterAt s i ≠ 0) ∧ (Passes s → Apart s ∧ LongEnough s)) ∧
    ((diskCheck (run (diskFormat s₀) ops)).isSome = true ↔
      ∀ i, RootEntry (run (diskFormat s₀) ops) i → clusterAt (run (diskFormat s₀) ops) i ≠ 0 ∧
        (DotsAt (run (diskFormat s₀) ops) i → ∃ l, Chain (fatStep (run (diskFormat s₀) ops))
          (clusterAt (run (diskFormat s₀) ops) i) l)) := by
  obtain ⟨D, hsafe, hs⟩ := sized_run s₀ hzero hspares
  exact ⟨h.diskCheck_right_iff, hsafe.isSome_diskCheck hs⟩

/-- A new volume on an empty disk. -/
def emptyVolume : State := diskFormat (State.initial fun _ => zero)

/-- The root of a new volume has the label only. -/
theorem not_rootEntry_emptyVolume (i : ℕ) : ¬RootEntry emptyVolume i := by
  have hnone : ∀ i < 16, entryChecked (rootRead emptyVolume) i = false := by
    rw [emptyVolume, diskFormat_eq]
    decide +kernel
  rintro ⟨hi, hchecked⟩
  rw [hnone i hi] at hchecked
  simp at hchecked

/-- A new volume is consistent and accepted; so is one with a small file. -/
theorem disk_check_emptyVolume : ((diskCheck emptyVolume).isSome = true ↔ Intact emptyVolume) ∧
    (diskCheck (run emptyVolume [.store pathA (fun _ => 65) 3])).isSome = true := by
  have hzero : ∀ op ∈ [Op.store pathA (fun _ => 65) 3], op.ZeroFree := by
    intro op hop
    rw [mem_singleton.mp hop]
    exact (by decide : 0 ∉ pathA)
  have hspares : Runs.Throughout (fun before op => op.SparesDirectories
      (run (diskFormat (State.initial fun _ => zero)) before)) [Op.store pathA (fun _ => 65) 3] := by
    rw [← nil_append [_], Runs.throughout_concat]
    exact ⟨Runs.throughout_nil _, trivial⟩
  have hfile : ∀ i < 16, entryChecked (rootRead (run emptyVolume [.store pathA (fun _ => 65) 3])) i =
      true → clusterAt (run emptyVolume [.store pathA (fun _ => 65) 3]) i ≠ 0 ∧
      entryName (rootRead (run emptyVolume [.store pathA (fun _ => 65) 3])) i ≠ dotName ∧
      entryName (rootRead (run emptyVolume [.store pathA (fun _ => 65) 3])) i ≠ dotdotName := by
    rw [emptyVolume, diskFormat_eq]
    decide +kernel
  obtain ⟨hright, haccepted⟩ := disk_check_exact (s := emptyVolume) (diskFormat_layout _).toGeometry
    (State.initial fun _ => zero) hzero hspares
  refine ⟨hright.mpr ⟨fun _ i hi => ?_, fun _ => ⟨fun i _ _ _ hi => ?_, fun i _ hi => ?_⟩⟩,
    haccepted.mpr fun i hi => ?_⟩
  · exact absurd hi (not_rootEntry_emptyVolume i)
  · exact absurd hi (not_rootEntry_emptyVolume i)
  · exact absurd hi (not_rootEntry_emptyVolume i)
  · obtain ⟨h0, hdot, hdotdot⟩ := hfile i hi.1 hi.2
    exact ⟨h0, fun hdots => absurd hdots (not_or.mpr ⟨hdot, hdotdot⟩)⟩

/-- **`touch` makes a consistent volume that `disk_check` rejects.** -/
theorem disk_check_rejects_touched : Intact (run emptyVolume [.create pathA 0]) ∧
    (diskCheck (run emptyVolume [.create pathA 0])).isSome = false := by
  obtain ⟨D, hsafe, -⟩ := (safe_diskFormat (State.initial fun _ => zero)).diskCreate
    (show 0 ∉ pathA by decide) 0
  have hempty : ∀ i < 16, entryChecked (rootRead (run emptyVolume [.create pathA 0])) i = true →
      entryIsDir (rootRead (run emptyVolume [.create pathA 0])) i = false ∧
      entryCluster (rootRead (run emptyVolume [.create pathA 0])) i = 0 ∧
      entrySize (rootRead (run emptyVolume [.create pathA 0])) i = 0 := by
    rw [emptyVolume, diskFormat_eq]
    decide +kernel
  have hentry : RootEntry (run emptyVolume [.create pathA 0]) 1 := by
    refine ⟨by decide, ?_⟩
    rw [emptyVolume, diskFormat_eq]
    decide +kernel
  change Safe (run emptyVolume [.create pathA 0]) D at hsafe
  generalize run emptyVolume [.create pathA 0] = s at *
  have hno : ∀ i l, RootEntry s i → ¬Chain (fatStep s) (clusterAt s i) l := by
    intro i l hi hl
    have hrange := (hsafe.layout.toGeometry.of_mem_chain hl hl.head_mem).1.1
    rw [clusterAt, (hempty i hi.1 hi.2).2.1] at hrange
    omega
  refine ⟨⟨hsafe.layout.signaturesValid, copiesAgree_iff.mp hsafe.layout.copiesAgree, fun i hi => ?_,
    fun i _ l _ hi _ _ hl => absurd hl (hno i l hi)⟩, ?_⟩
  · exact .inl (hempty i hi.1 hi.2)
  · rw [← Bool.not_eq_true, hsafe.layout.toGeometry.isSome_diskCheck]
    intro hp
    obtain ⟨l, hl, -⟩ := hp.entries 1 hentry
    exact hno 1 l hentry hl

end OS64.Fat
