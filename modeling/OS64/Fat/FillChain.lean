import OS64.Fat.GivenBack

/-!
# The chain of `FILL.BIN`

`disk_fill` is there to make the chain of `FILL.BIN` longer. Whether it does is
decided by the cluster in the entry. A file that has one, because `disk_store` has
written it before, gets a longer chain with every call, and its size is that of the
chain (`OS64.Fat.Safe.diskFill_chain`).

The file that `disk_fill` creates itself has none. Then cluster 0 is taken for the
first one: the clusters are linked to entry 0 of the table, which is a reserved one,
and the entry of the file is never told. So the first call on a new volume already
damages the table, and all later ones go on from there
(`OS64.Fat.fill_chain_iff`).
-/

namespace OS64.Fat

open List Function Chains Option

variable {s s' : State} {D : Set ℕ} {c : ℕ} {l : List ℕ}

/-! ### A chain that grows -/

/-- Taking a cluster and linking it to the last one of a chain. -/
theorem Obtained.chain_concat (ha : Obtained s D s' c) (h : Safe s D) {first tail : ℕ}
    (hl : Chain (fatStep s) first l) (hlast : l.getLast? = some tail)
    (hsafe : Safe (fatSet s' tail c) D) :
    Chain (fatStep (fatSet s' tail c)) first (l ++ [c]) ∧ ∀ x < 2, (fatSet s' tail c).fat x = s.fat x := by
  obtain ⟨htail, hused⟩ := h.layout.toGeometry.of_mem_chain hl (mem_of_getLast? hlast)
  have hc := ha.inRange
  have hset := fatSet_spec ha.safe.layout htail.2 (show c < 2 ^ 32 by have := hc.2; omega)
  have hfat : (fatSet s' tail c).fat = update (update s.fat c 0x0fffffff) tail c := by
    rw [hset.fat, ha.fat_eq]
  have hne : c ≠ tail := by
    rintro rfl
    exact hused ha.free
  have hfat_tail : (fatSet s' tail c).fat tail = c := by
    rw [hfat, update_self]
  have hfat_c : (fatSet s' tail c).fat c = 0x0fffffff := by
    rw [hfat, update_of_ne hne, update_self]
  have hother : ∀ x, x ≠ tail → x ≠ c → (fatSet s' tail c).fat x = s.fat x := by
    intro x hx hxc
    rw [hfat, update_of_ne hx, update_of_ne hxc]
  refine ⟨hl.concat hlast (fun x hx hxt => ?_) ?_ ?_, fun x hx => ?_⟩
  · -- the other clusters of the chain were in use before
    refine h.layout.toGeometry.fatStep_congr hsafe.layout.toGeometry (hother x hxt ?_)
    rintro rfl
    exact (h.layout.toGeometry.of_mem_chain hl hx).2 ha.free
  · have hc0 : (fatSet s' tail c).fat tail ≠ 0 := by
      rw [hfat_tail]
      have := hc.1
      omega
    rw [hsafe.fatStep_eq htail hc0, hfat_tail, if_pos hc.lt_endOfChain]
  · rw [hsafe.fatStep_eq hc (by rw [hfat_c]; decide), hfat_c, if_neg (by decide)]
  · have := htail.1
    have := hc.1
    exact hother x (by omega) (by omega)

/-- **The second loop of `disk_fill`** makes a chain longer by the clusters it adds. -/
theorem Safe.fillLoop_chain : ∀ (limit : ℕ) {s s' : State} {first tail added : ℕ} {l : List ℕ}, Safe s D →
    Chain (fatStep s) first l → l.getLast? = some tail → Fat.fillLoop s tail limit = (s', added) →
    (∃ m, Chain (fatStep s') first (l ++ m) ∧ m.length = added) ∧ ∀ x < 2, s'.fat x = s.fat x
  | 0, s, s', first, tail, added, l, _, hl, _, hres => by
    obtain ⟨rfl, rfl⟩ := Prod.mk.inj hres
    exact ⟨⟨[], by rwa [append_nil], rfl⟩, fun _ _ => rfl⟩
  | limit + 1, s, s', first, tail, added, l, h, hl, hlast, hres => by
    rw [Fat.fillLoop] at hres
    rcases halloc : Fat.allocate s with ⟨s₁, c⟩
    simp only [halloc] at hres
    rcases h.allocate halloc with ⟨rfl, rfl⟩ | ⟨hc, ha, -⟩
    · obtain ⟨rfl, rfl⟩ := Prod.mk.inj hres
      exact ⟨⟨[], by rwa [append_nil], rfl⟩, fun _ _ => rfl⟩
    · rw [if_neg hc] at hres
      obtain ⟨htail, hused⟩ := h.layout.toGeometry.of_mem_chain hl (mem_of_getLast? hlast)
      obtain ⟨hsafe, -⟩ := ha.linkTail (.inr htail) hused
      obtain ⟨hl', hlow⟩ := ha.chain_concat h hl hlast hsafe
      rcases hrest : Fat.fillLoop (Fat.fatSet s₁ tail c) c limit with ⟨s₂, added'⟩
      simp only [hrest] at hres
      obtain ⟨rfl, rfl⟩ := Prod.mk.inj hres
      obtain ⟨⟨m, hm, hlen⟩, hlow'⟩ := Safe.fillLoop_chain limit hsafe hl' (by rw [List.getLast?_concat]) hrest
      refine ⟨⟨c :: m, ?_, ?_⟩, fun x hx => (hlow' x hx).trans (hlow x hx)⟩
      · rwa [append_assoc, singleton_append] at hm
      · rw [length_cons, hlen]

/-! ### The call -/

/-- The entries 0 and 1 of both copies of the table are the reserved ones. -/
def Reserved (s : State) : Prop := ∀ f < 2, fatEntry s f 0 = 0x0ffffff8 ∧ fatEntry s f 1 = 0xffffffff

/-- In `s'`, `FILL.BIN` heads a chain of the length that is recorded, and one that
begins with what it headed in `s`. -/
def Prolonged (s s' : State) : Prop :=
  ∃ r i l, findEntry s' fillName = some (r, i) ∧ 2 ≤ entryCluster r i ∧ entryCluster r i < maxCluster s' ∧
    Chain (fatStep s') (entryCluster r i) l ∧ l.length * 512 = entrySize r i ∧
    ∀ r₀ i₀ l₀, findEntry s fillName = some (r₀, i₀) → Heads s (entryCluster r₀ i₀) l₀ → l₀ <+: l

/-- From `s` to `s'`, `FILL.BIN` has become longer, `a` clusters more are in use, and the
reserved entries of the table are what they should be. -/
structure FillsChain (s s' : State) (a : ℕ) : Prop where
  prolonged : Prolonged s s'
  used : freeCount s'.fat + a = freeCount s.fat
  reserved : Reserved s'

theorem Layout.reserved_iff (h : Layout s) : Reserved s ↔ s.fat 0 = 0x0ffffff8 ∧ s.fat 1 = 0xffffffff := by
  have h0 := h.toGeometry.fatEntry (show 0 < 127008 by decide)
  have h1 := h.toGeometry.fatEntry (show 1 < 127008 by decide)
  rw [← h0, ← h1]
  constructor
  · exact fun hr => hr 0 (by decide)
  · rintro hr (_ | _ | f) hf
    · exact hr
    · rw [h.fatEntry_copy (by decide), h.fatEntry_copy (by decide)]
      exact hr
    · omega

/-- The entry of the file is one of the root. -/
theorem Safe.findEntry_fillName (h : Safe s D) : Fat.findEntry s fillName =
    (findSlot (s.sector 2) fillName).map fun i => (s.sector 2, i) := by
  have hp := h.layout.toGeometry.parentDir_rootLevel rootLevel_fillName (show leafOf fillName ≠ [] by decide)
  have hleaf : leafOf fillName = fillName := by decide
  rw [Fat.findEntry, hp, hleaf]
  simp only [h.dirRead h.sound.root]
  rcases findSlot (s.sector 2) fillName with _ | j
  · rfl
  · rfl

/-- There is a `FILL.BIN`, and it has a cluster. -/
def HasFill (s : State) : Prop := ∃ r i, findEntry s fillName = some (r, i) ∧ entryCluster r i ≠ 0

variable {limit a : ℕ}

section

variable (h : Safe s D)
include h

/-- **Where the file has a cluster, its chain gets longer**, and the reserved entries
stay what they are. -/
theorem Safe.diskFill_chain (hfill : Fat.diskFill s limit = some (s', a)) (ha : 0 < a) (hhas : HasFill s) :
    Prolonged s s' ∧ freeCount s'.fat + a = freeCount s.fat ∧ ∀ x < 2, s'.fat x = s.fat x := by
  obtain ⟨r, i, hfind, hne⟩ := hhas
  have hentry : Fat.fillEntry s = (s, some (r, i)) := by
    rw [Fat.fillEntry, hfind]
  have hfind' := hfind
  rw [h.findEntry_fillName] at hfind'
  obtain ⟨i, hslot, heq⟩ := map_eq_some_iff.mp hfind'
  cases heq
  obtain ⟨e, he, -⟩ := holds_of_findSlot h.sound.root hslot
  obtain ⟨-, -, hcluster, -⟩ := listing_eq_some he.2.2.1
  obtain ⟨l, ⟨h0, -⟩ | hl⟩ := h.exists_heads he
  · exact absurd (hcluster.trans h0) hne
  rw [← hcluster] at hl
  -- the walk to the end of the chain
  have hlt := h.layout.toGeometry.chain_length_lt hl
  obtain ⟨tail, hend, hlast⟩ := h.chainEnd_of_chain hl 0 (show l.length ≤ walkLimit by rw [walkLimit]; omega)
  obtain ⟨hrange, hused⟩ := h.layout.toGeometry.of_mem_chain hl (mem_of_getLast? hlast)
  rcases hloop : Fat.fillLoop s tail limit with ⟨s₂, added⟩
  have hcall : ¬(¬s.mounted ∨ limit = 0) := by
    intro hrefused
    rw [Fat.diskFill, if_pos hrefused] at hfill
    cases hfill
    omega
  rw [Fat.diskFill, if_neg hcall, hentry] at hfill
  simp only [hend, hloop] at hfill
  cases hfill
  -- the new clusters
  obtain ⟨h₂, -, hdirs, hcount, -⟩ := Safe.fillLoop limit h (.inr hrange) hused hloop
  obtain ⟨⟨m, hm, rfl⟩, hlow⟩ := Safe.fillLoop_chain limit h hl hlast hloop
  rw [h₂.layout.rootCluster]
  obtain ⟨b, hb⟩ : ∃ b, b = setSize (s.sector 2) i ((0 + l.length + m.length) * 512) := ⟨_, rfl⟩
  rw [← hb]
  have hup := write_spec h₂.layout le_rfl (by decide) b
  have hlist : listing b = listing (s.sector 2) := by
    rw [hb, listing_setSize]
  obtain ⟨h₃, -⟩ := h₂.writeSizes h₂.sound.root (b := b) (by rw [hlist, hdirs 2 he.1])
  have hchain : Chain (fatStep (s₂.write (clusterLba s₂ 2) b)) (entryCluster (s.sector 2) i) (l ++ m) :=
    hm.congr fun x _ => h₂.layout.toGeometry.fatStep_congr h₃.layout.toGeometry (by rw [hup.fat])
  have hfound : Fat.findEntry (s₂.write (clusterLba s₂ 2) b) fillName = some (b, i) := by
    rw [h₃.findEntry_fillName, hup.sector, update_self, findSlot_eq_listing, hlist, ← findSlot_eq_listing, hslot]
    rfl
  have hcluster' : entryCluster b i = entryCluster (s.sector 2) i := by
    have hb' := he.2.2.1
    rw [graph_dir, ← hlist] at hb'
    rw [hcluster, (listing_eq_some hb').2.2.1]
  have hlen := h₃.layout.toGeometry.chain_length_lt hchain
  rw [length_append] at hlen
  have hfirst := (h₃.layout.toGeometry.of_mem_chain hchain hchain.head_mem).1
  refine ⟨⟨b, i, l ++ m, hfound, ?_, ?_, ?_, ?_, ?_⟩, by rw [hup.fat, hcount], fun x hx => ?_⟩
  · rw [hcluster']
    exact hfirst.1
  · rw [hcluster', h₃.layout.toGeometry.maxCluster]
    exact hfirst.2
  · rw [hcluster']
    exact hchain
  · rw [hb, entrySize_setSize, length_append]
    omega
  · intro r₀ i₀ l₀ hfind₀ hl₀
    rw [hfind] at hfind₀
    obtain ⟨rfl, rfl⟩ := Prod.mk.inj (some.inj hfind₀)
    rw [hl₀.unique (.inr hl)]
    exact prefix_append l m
  · rw [hup.fat, hlow x hx]

/-- Whether the file has a cluster is seen in the listing of the root. -/
theorem Safe.hasFill_iff : HasFill s ↔ ∃ i e, i < 16 ∧ listing (s.sector 2) i = some e ∧
    findSlot (s.sector 2) fillName = some i ∧ e.cluster ≠ 0 := by
  rw [HasFill, h.findEntry_fillName]
  constructor
  · rintro ⟨r, i, hfind, hne⟩
    obtain ⟨_, hslot, heq⟩ := map_eq_some_iff.mp hfind
    cases heq
    obtain ⟨e, he, -⟩ := holds_of_findSlot h.sound.root hslot
    rw [(listing_eq_some he.2.2.1).2.2.1] at hne
    exact ⟨_, e, he.2.1, he.2.2.1, hslot, hne⟩
  · rintro ⟨i, e, -, he, hslot, hne⟩
    refine ⟨s.sector 2, i, by rw [hslot]; rfl, ?_⟩
    rwa [(listing_eq_some he).2.2.1]

theorem Safe.hasFill_congr {D' : Set ℕ} (h' : Safe s' D')
    (hroot : listing (s'.sector 2) = listing (s.sector 2)) : HasFill s' ↔ HasFill s := by
  rw [h.hasFill_iff, h'.hasFill_iff, findSlot_eq_listing, findSlot_eq_listing, hroot]

/-- An entry made for the file has no cluster. -/
theorem Safe.hasFill_of_fillEntry {found : Option (Sector × ℕ)}
    (hentry : Fat.fillEntry s = (s', found)) (hhas : HasFill s') : HasFill s := by
  obtain ⟨D', h', -⟩ := h.fillEntry hentry
  rw [Fat.fillEntry] at hentry
  rcases hfind : Fat.findEntry s fillName with _ | ⟨r', i'⟩
  · have hc := h.creation fillName
    rw [hfind] at hentry
    generalize Fat.diskCreate s fillName 0 = res at hc hentry
    cases hc with
    | refused _ =>
      cases hentry
      exact hhas
    | full _ _ _ _ _ =>
      cases hentry
      exact hhas
    | present _ hf => simp [hf.findEntry h] at hfind
    | @new d j hm hp hd hnone hfree =>
      obtain ⟨rfl, -⟩ := h.parentDir_rootLevel rootLevel_fillName hp
      cases hentry
      have hup := write_spec h.layout le_rfl (by decide) (newEntry (s.sector 2) j (leafOf fillName) 0x20 0)
      obtain ⟨i, e, hi, he, hslot, hne⟩ := h'.hasFill_iff.mp hhas
      rw [hup.sector, update_self] at he hslot
      obtain ⟨-, e', he', hname⟩ := listing_of_findSlot hslot
      rw [listing_newEntry _ _ _ (by decide) (by decide)] at he he'
      obtain rfl := some.inj (he.symm.trans he')
      by_cases hij : i = j
      · -- the new entry
        rw [hij, update_self, created, if_neg (by decide)] at he
        cases he
        exact absurd rfl hne
      · -- the other entries have other names
        rw [update_of_ne hij] at he
        exact absurd hname (listing_of_findSlot_none hnone hi he)
  · rw [hfind] at hentry
    cases hentry
    exact hhas

/-- **A call that adds clusters makes the chain longer exactly if there is one**, and if
the reserved entries were what they should be. -/
theorem Safe.fillsChain_iff (hfill : Fat.diskFill s limit = some (s', a))
    (ha : 0 < a) : FillsChain s s' a ↔ HasFill s ∧ Reserved s := by
  obtain ⟨D', h', hout⟩ : ∃ D', Safe s' D' ∧ Filling s limit s' a := by
    obtain ⟨_, _, D', hres, h', -, hout⟩ := h.diskFill limit
    obtain ⟨rfl, rfl⟩ := Prod.mk.inj (some.inj (hres.symm.trans hfill))
    exact ⟨D', h', hout⟩
  have hreserved : HasFill s → (Reserved s' ↔ Reserved s) := by
    intro hhas
    obtain ⟨-, -, hlow⟩ := h.diskFill_chain hfill ha hhas
    rw [h'.layout.reserved_iff, h.layout.reserved_iff, hlow 0 (by decide), hlow 1 (by decide)]
  constructor
  · intro hf
    have hhas' : HasFill s' := by
      obtain ⟨r, i, l, hfind, hrange, -⟩ := hf.prolonged
      exact ⟨r, i, hfind, by omega⟩
    have hhas : HasFill s := by
      cases hout with
      | refused _ => omega
      | notFound _ => omega
      | @filled s₁ _ r₁ i₁ _ hentry hroot hfull hcount =>
        obtain ⟨D₁, h₁, -⟩ := h.fillEntry hentry
        exact h.hasFill_of_fillEntry hentry ((h₁.hasFill_congr h' hroot).mp hhas')
    exact ⟨hhas, (hreserved hhas).mp hf.reserved⟩
  · rintro ⟨hhas, hr⟩
    obtain ⟨hprolonged, hused, -⟩ := h.diskFill_chain hfill ha hhas
    exact ⟨hprolonged, hused, (hreserved hhas).mpr hr⟩

/-! ### The other calls -/

/-- **No other call changes the reserved entries.** -/
theorem Safe.reserved_call (hcounted : s.Counted) {op : Op} (hop : op.ZeroFree)
    (hspares : op.SparesDirectories s) (hr : Reserved s) : Reserved (Fat.call s op).1 := by
  obtain ⟨D', h', -⟩ := h.call hcounted hop hspares
  rw [h.layout.reserved_iff] at hr
  obtain ⟨h0, h1⟩ := hr
  -- a call that only takes or frees proper clusters
  have hlow : ∀ x < 2, (Fat.call s op).1.fat x = s.fat x := by
    have htaken : ∀ {s s' : State} {D : Set ℕ} {c : ℕ}, Obtained s D s' c → ∀ x < 2, s'.fat x = s.fat x := by
      intro s s' D c ha x hx
      have := ha.inRange.1
      rw [ha.fat_eq, update_of_ne (by omega)]
    have hcreated : ∀ n x, (Fat.diskCreate s n 0).1.fat x = s.fat x := by
      intro n x
      obtain ⟨_, hup, -⟩ := (h.creation n).updates h
      rw [hup.fat]
    intro x hx
    have hused : s.fat x ≠ 0 := by
      rcases (by omega : x = 0 ∨ x = 1) with rfl | rfl
      · omega
      · omega
    cases op with
    | create n type =>
      rw [Fat.call]
      by_cases ht : type = 0
      · rw [ht, hcreated]
      · have hout := h.directoryCreation n ht
        generalize Fat.diskCreate s n type = res at hout
        cases hout with
        | unchanged ok => rfl
        | new hp ha hdotdot hup => rw [hup.fat, htaken ha x hx]
    | store n data size =>
      have hout := h.smallStore hop data size
      rw [Fat.call]
      have hc := hcreated n x
      generalize Fat.diskStore s n data size = res at hout
      cases hout with
      | refused _ => rfl
      | stopped hcreate => rwa [hcreate] at hc
      | written _ hcreate _ _ _ hw =>
        rw [hcreate] at hc
        rw [hw.fat x (hc ▸ hused), hc]
    | remove n =>
      have hout := h.removal n
      rw [Fat.call]
      generalize Fat.diskRemove s n = res at hout
      cases hout with
      | refused => rfl
      | @removed d i e _ hf hup =>
        rw [hup.fat]
        split
        · rfl
        · rename_i hne
          have := (h.sound.heads d i e hf.holds hne).1.1
          exact update_of_ne (by omega) _ _
    | storeLarge n data size =>
      exact (h.fat_of_diskStoreLarge hop rfl).2 x hused
    | remount =>
      rw [Fat.call, diskInit_of_layout h.layout hcounted.freeClusters_lt h.next_ge h.next_le rfl, diskMount, if_pos rfl]
      rfl
  rw [h'.layout.reserved_iff, hlow 0 (by decide), hlow 1 (by decide)]
  exact ⟨h0, h1⟩

/-- A call of `disk_fill` that adds nothing leaves the table alone. -/
theorem Safe.fat_of_diskFill_zero (hfill : Fat.diskFill s limit = some (s', 0)) : s'.fat = s.fat := by
  have hloop : ∀ {s s' : State} {D : Set ℕ} {tail limit : ℕ}, Safe s D →
      Fat.fillLoop s tail limit = (s', 0) → s' = s := by
    rintro s s' D tail (_ | limit) h hres
    · exact (Prod.mk.inj hres).1.symm
    · rw [Fat.fillLoop] at hres
      rcases halloc : Fat.allocate s with ⟨s₁, c⟩
      simp only [halloc] at hres
      rcases h.allocate halloc with ⟨rfl, rfl⟩ | ⟨hc, -, -⟩
      · exact (Prod.mk.inj hres).1.symm
      · rw [if_neg hc] at hres
        exact absurd (Prod.mk.inj hres).2 (Nat.succ_ne_zero _)
  have hcreated : ∀ {s₁ found}, Fat.fillEntry s = (s₁, found) → s₁.fat = s.fat := by
    intro s₁ found hentry
    obtain ⟨_, hup, -⟩ := (h.creation fillName).updates h
    rw [Fat.fillEntry] at hentry
    split at hentry
    · rw [← (Prod.mk.inj hentry).1]
    · rcases hc : Fat.diskCreate s fillName 0 with ⟨s₂, ok⟩
      rw [hc] at hup hentry
      cases ok with
      | false =>
        cases hentry
        exact hup.fat
      | true =>
        cases hentry
        exact hup.fat
  rw [Fat.diskFill] at hfill
  split at hfill
  · rw [← (Prod.mk.inj (some.inj hfill)).1]
  rcases hentry : Fat.fillEntry s with ⟨s₁, _ | ⟨r, i⟩⟩
  · rw [hentry] at hfill
    rw [← (Prod.mk.inj (some.inj hfill)).1, hcreated hentry]
  · obtain ⟨D₁, h₁, -⟩ := h.fillEntry hentry
    rw [hentry] at hfill
    rcases hend : chainEnd s₁ walkLimit (entryCluster r i) 1 with _ | ⟨tail, used⟩
    · simp [hend] at hfill
    rcases hadd : Fat.fillLoop s₁ tail limit with ⟨s₂, added⟩
    simp only [hend, hadd] at hfill
    cases hfill
    obtain rfl := hloop h₁ hadd
    rw [h₁.layout.rootCluster, (write_spec h₁.layout le_rfl (by decide) _).fat, hcreated hentry]

end

/-! ### Along a run -/

/-- A call of `disk_fill` that adds clusters finds a `FILL.BIN` with a cluster. -/
def KernelCall.FillsFile (s : State) : KernelCall → Prop
  | .call _ => True
  | .fill limit => (∃ s' a, diskFill s limit = some (s', a) ∧ 0 < a) → HasFill s

/-- A call of `disk_fill` that adds clusters makes the chain of the file longer. -/
def KernelCall.FillsChain (s : State) : KernelCall → Prop
  | .call _ => True
  | .fill limit => ∀ s' a, diskFill s limit = some (s', a) → 0 < a → Fat.FillsChain s s' a

/-- The reserved entries are what they should be as long as `FILL.BIN` has a cluster
when it is filled. -/
theorem reserved_kernelRun (s₀ : State) {calls : List KernelCall} (hzero : ∀ call ∈ calls, call.ZeroFree)
    (hspares : Runs.Throughout (fun before call => call.SparesDirectories (kernelRun s₀ before)) calls)
    (hfile : Runs.Throughout (fun before call => call.FillsFile (kernelRun s₀ before)) calls) :
    Reserved (kernelRun s₀ calls) := by
  induction calls using List.reverseRecOn with
  | nil =>
    rw [kernelRun, foldl_nil, (safe_diskFormat s₀).layout.reserved_iff, State.fat, State.fat,
      if_pos (by decide), if_pos (by decide), diskFormat_table s₀ (by decide)]
    decide
  | append_singleton calls call ih =>
    obtain ⟨hspares, hlast⟩ := Runs.throughout_concat.mp hspares
    obtain ⟨hfile, hfilled⟩ := Runs.throughout_concat.mp hfile
    have hz := fun c hc => hzero c (mem_append_left [call] hc)
    have hlastZero := hzero call (by simp)
    have hr := ih hz hspares hfile
    obtain ⟨D, h, hcounted⟩ := safe_kernelRun s₀ hz hspares
    rw [kernelRun, foldl_append]
    change Reserved (KernelCall.exec (kernelRun s₀ calls) call)
    cases call with
    | call op => exact h.reserved_call hcounted hlastZero hlast hr
    | fill limit =>
      obtain ⟨s', a, D', hres, h', -, -⟩ := h.diskFill limit
      rw [KernelCall.exec, hres]
      rcases eq_zero_or_pos a with rfl | ha
      · rw [h'.layout.reserved_iff, h.fat_of_diskFill_zero hres, ← h.layout.reserved_iff]
        exact hr
      · exact ((h.fillsChain_iff hres ha).mpr ⟨hfilled ⟨s', a, hres, ha⟩, hr⟩).reserved

/-- **Every call of `disk_fill` makes the chain of `FILL.BIN` longer exactly if each of
them finds one to go on with**, in a run in which no `disk_store_large` comes upon a
directory. -/
theorem fill_chain_iff (s₀ : State) {calls : List KernelCall} (hzero : ∀ call ∈ calls, call.ZeroFree)
    (hspares : Runs.Throughout (fun before call => call.SparesDirectories (kernelRun s₀ before)) calls) :
    Runs.Throughout (fun before call => call.FillsChain (kernelRun s₀ before)) calls ↔
      Runs.Throughout (fun before call => call.FillsFile (kernelRun s₀ before)) calls := by
  induction calls using List.reverseRecOn with
  | nil => simp only [Runs.throughout_nil]
  | append_singleton calls call ih =>
    obtain ⟨hspares, -⟩ := Runs.throughout_concat.mp hspares
    have hz := fun c hc => hzero c (mem_append_left [call] hc)
    rw [Runs.throughout_concat, Runs.throughout_concat, ih hz hspares]
    refine and_congr_right fun hfile => ?_
    obtain ⟨D, h, -⟩ := safe_kernelRun s₀ hz hspares
    have hr := reserved_kernelRun s₀ hz hspares hfile
    cases call with
    | call op => exact Iff.rfl
    | fill limit =>
      constructor
      · rintro hchain ⟨s', a, hres, ha⟩
        exact ((h.fillsChain_iff hres ha).mp (hchain s' a hres ha)).1
      · intro hfilled s' a hres ha
        exact (h.fillsChain_iff hres ha).mpr ⟨hfilled ⟨s', a, hres, ha⟩, hr⟩

/-- A new volume with a `FILL.BIN` of one byte. -/
def smallFill : State := kernelRun (State.initial fun _ => zero) [.call (.store fillName (fun _ => 65) 1)]

/-- It is filled up with two clusters. -/
theorem small_fill_prolonged : ∃ s', diskFill smallFill 2 = some (s', 2) ∧ FillsChain smallFill s' 2 := by
  have hstate : smallFill = (diskStore (diskFormat (State.initial fun _ => zero)) fillName (fun _ => 65) 1).1 := rfl
  have hadded : (diskFill smallFill 2).map Prod.snd = some 2 := by
    rw [hstate, diskFormat_eq]
    decide +kernel
  have hentry : (findEntry smallFill fillName).map (fun x => entryCluster x.1 x.2) = some 3 := by
    rw [hstate, diskFormat_eq]
    decide +kernel
  obtain ⟨⟨s', a⟩, hres, rfl⟩ := map_eq_some_iff.mp hadded
  obtain ⟨⟨r, i⟩, hfind, hcluster⟩ := map_eq_some_iff.mp hentry
  refine ⟨s', hres, ?_⟩
  have hchain := (@fill_chain_iff (State.initial fun _ => zero)
    [.call (.store fillName (fun _ => 65) 1), .fill 2] ?_ ?_).mpr ?_
  · exact hchain [.call (.store fillName (fun _ => 65) 1)] (.fill 2) [] rfl s' 2 hres (by decide)
  · intro call hcall
    simp only [mem_cons, not_mem_nil, or_false] at hcall
    rcases hcall with rfl | rfl
    · exact (by decide : (0 : UInt8) ∉ fillName)
    · exact trivial
  · rw [show ∀ a b : KernelCall, [a, b] = ([] ++ [a]) ++ [b] from fun _ _ => rfl, Runs.throughout_concat,
      Runs.throughout_concat]
    exact ⟨⟨Runs.throughout_nil _, trivial⟩, trivial⟩
  · rw [show ∀ a b : KernelCall, [a, b] = ([] ++ [a]) ++ [b] from fun _ _ => rfl, Runs.throughout_concat,
      Runs.throughout_concat]
    exact ⟨⟨Runs.throughout_nil _, trivial⟩, fun _ => ⟨r, i, hfind, by rw [hcluster]; decide⟩⟩

/-- The first `disk_fill` on a new volume adds a cluster to entry 0 of the table: the file
is said to have 1024 bytes, and has no cluster. -/
theorem first_fill_breaks_table :
    let s := diskFormat (State.initial fun _ => zero)
    (diskFill s 1).map (fun x => (x.2, fatEntry s 0 0, fatEntry x.1 0 0,
      (findEntry x.1 fillName).map fun y => (entryCluster y.1 y.2, entrySize y.1 y.2))) =
        some (1, 0x0ffffff8, 3, some (0, 1024)) := by
  simp only [diskFormat_eq]
  decide +kernel

end OS64.Fat
