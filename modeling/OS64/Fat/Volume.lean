import OS64.Fat.Directory
import OS64.Lib.Counting
import Mathlib.Order.Interval.Finset.Nat

/-!
# The volume as a graph

Away from the bytes, a volume is a table of links and, for some clusters, a table
of entries. This module says when such a volume is sound, for a set `D` of
clusters that holds all directories (`OS64.Fat.Sound`), and what the changes are
that keep it so: taking a free cluster, linking it to the end of a chain, filling
a slot, turning a cluster into a directory, and giving a cluster back.

The set `D` may hold directories that nothing leads to any more: removing a
directory leaves what was in it as it is. What matters is that a directory
entry of a directory of `D` leads to one of `D` again.

Clusters are shared by nothing because nothing leads twice to the same cluster:
a cluster is the first one of at most one entry, or the successor of at most one
cluster, and never both (`OS64.Fat.Sound.chains_disjoint`).
-/

namespace OS64.Fat

open Function

variable {e : Entry} {d d' free h i i' next v : ℕ} {fat : ℕ → ℕ}

/-- The table and the directories. -/
structure Volume where
  fat : ℕ → ℕ
  dir : ℕ → ℕ → Option Entry

/-- The clusters of the volume. -/
def InRange (c : ℕ) : Prop := 2 ≤ c ∧ c < 127008

variable {c : ℕ} {e' : Entry} {x : Option Entry}

theorem InRange.lt_word (h : InRange c) : c < 2 ^ 32 := h.2.trans (by decide)

theorem InRange.ne_zero (h : InRange c) : c ≠ 0 := (lt_of_lt_of_le two_pos h.1).ne'

/-- From here on a table entry ends a chain. -/
def endOfChain : ℕ := 0x0ffffff8

theorem InRange.lt_endOfChain (h : InRange c) : c < endOfChain := h.2.trans (by decide)

/-- The directory `d` of `D` has the entry `e`, other than `.` and `..`, in its
slot `i`. -/
def Volume.Holds (V : Volume) (D : Set ℕ) (d i : ℕ) (e : Entry) : Prop :=
  d ∈ D ∧ i < 16 ∧ V.dir d i = some e ∧ ¬e.IsDots

/-- Cluster `a` is followed by `b` in its chain. -/
def Volume.Links (V : Volume) (a b : ℕ) : Prop :=
  InRange a ∧ V.fat a = b ∧ b ≠ 0 ∧ b < endOfChain

/-- A sound volume whose directories are among `D`. -/
structure Sound (V : Volume) (D : Set ℕ) : Prop where
  root : 2 ∈ D
  dirs : ∀ d ∈ D, InRange d ∧ V.fat d ≠ 0
  small : ∀ c, InRange c → V.fat c < 2 ^ 28
  unique : ∀ d ∈ D, Slots.Unique Entry.name 16 (V.dir d)
  /-- An entry with a cluster has a used one, not the root's, and is a directory
  exactly if the cluster is. -/
  heads : ∀ d i e, V.Holds D d i e → e.cluster ≠ 0 →
    InRange e.cluster ∧ e.cluster ≠ 2 ∧ V.fat e.cluster ≠ 0 ∧ (e.cluster ∈ D ↔ e.isDir = true)
  /-- An entry without a cluster is an empty file. -/
  empty : ∀ d i e, V.Holds D d i e → e.cluster = 0 → e.isDir = false ∧ e.size = 0
  separate : ∀ d i e d' i' e', V.Holds D d i e → V.Holds D d' i' e' → e.cluster = e'.cluster →
    e.cluster ≠ 0 → d = d' ∧ i = i'
  /-- A successor is used, is no directory and no first cluster, and follows one
  cluster only. -/
  links : ∀ a b, V.Links a b → InRange b ∧ V.fat b ≠ 0 ∧ b ∉ D ∧ (∀ a', V.Links a' b → a' = a) ∧
    ∀ d i e, V.Holds D d i e → e.cluster ≠ b

variable {V : Volume} {D : Set ℕ} {c : ℕ}

/-- A used cluster that nothing leads to. -/
structure Fresh (V : Volume) (D : Set ℕ) (c : ℕ) : Prop where
  inRange : InRange c
  ne_root : c ≠ 2
  used : V.fat c ≠ 0
  notDir : c ∉ D
  notHead : ∀ d i e, V.Holds D d i e → e.cluster ≠ c
  notNext : ∀ a, ¬V.Links a c

/-! ### Chains -/

/-- Cluster `c` belongs to the chain that starts at `h`. -/
def Volume.InChain (V : Volume) (h c : ℕ) : Prop := Relation.ReflTransGen V.Links h c

/-- A chain can be walked back in one way only. -/
theorem Sound.inChain_eq (hs : Sound V D) {h' c : ℕ} (hfirst : ∀ a, ¬V.Links a h)
    (hfirst' : ∀ a, ¬V.Links a h') (hc : V.InChain h c) (hc' : V.InChain h' c) : h = h' := by
  induction hc with
  | refl =>
    rcases hc'.cases_tail with heq | ⟨b, -, hb⟩
    · exact heq
    · exact absurd hb (hfirst b)
  | tail hab hbc ih =>
    rcases hc'.cases_tail with heq | ⟨b', hb', hb'c⟩
    · rw [heq] at hbc
      exact absurd hbc (hfirst' _)
    · obtain ⟨-, -, -, hback, -⟩ := hs.links _ _ hbc
      rw [hback b' hb'c] at hb'
      exact ih hb'

/-- **No cluster is in the chains of two entries.** -/
theorem Sound.chains_disjoint (hs : Sound V D) (he : V.Holds D d i e) (he' : V.Holds D d' i' e') (hc : e.cluster ≠ 0)
    (hin : V.InChain e.cluster c) (hin' : V.InChain e'.cluster c) : d = d' ∧ i = i' := by
  have hfirst : ∀ {d i e}, V.Holds D d i e → ∀ a, ¬V.Links a e.cluster := by
    intro d i e he a ha
    exact (hs.links a _ ha).2.2.2.2 d i e he rfl
  exact hs.separate d i e d' i' e' he he' (hs.inChain_eq (hfirst he) (hfirst he') hin hin') hc

/-! ### Changing the table -/

/-- The volume with another table entry. -/
def Volume.setFat (V : Volume) (c v : ℕ) : Volume := ⟨update V.fat c v, V.dir⟩

/-- The volume with another directory in a cluster. -/
def Volume.setDir (V : Volume) (c : ℕ) (t : ℕ → Option Entry) : Volume :=
  ⟨V.fat, update V.dir c t⟩

@[simp] theorem Volume.setFat_fat (V : Volume) (c v : ℕ) : (V.setFat c v).fat = update V.fat c v := rfl

@[simp] theorem Volume.setDir_dir (V : Volume) (c : ℕ) (t : ℕ → Option Entry) :
    (V.setDir c t).dir = update V.dir c t := rfl

theorem setFat_ne_zero {a : ℕ} (hv : v ≠ 0) (h : V.fat a ≠ 0) : (V.setFat c v).fat a ≠ 0 := by
  rw [Volume.setFat_fat, update_apply]
  split
  · exact hv
  · exact h

/-- The links after a change of the table. -/
theorem links_setFat {a b : ℕ} (hab : (V.setFat c v).Links a b) : V.Links a b ∨ a = c ∧ b = v ∧ v < endOfChain := by
  obtain ⟨ha, hfat, hb, hend⟩ := hab
  by_cases hac : a = c
  · rw [hac, Volume.setFat_fat, update_self] at hfat
    exact .inr ⟨hac, hfat.symm, hfat ▸ hend⟩
  · rw [Volume.setFat_fat, update_of_ne hac] at hfat
    exact .inl ⟨ha, hfat, hb, hend⟩

/-- Giving a cluster a new table entry: the end of a chain, or a fresh
cluster. -/
theorem Sound.setFat (hs : Sound V D) (hv : v ≠ 0) (hv' : v < 2 ^ 28)
    (hnew : v < endOfChain → Fresh V D v) : Sound (V.setFat c v) D := by
  refine ⟨hs.root, fun d hd => ?_, fun a ha => ?_, hs.unique, ?_, hs.empty, hs.separate, ?_⟩
  · exact ⟨(hs.dirs d hd).1, setFat_ne_zero hv (hs.dirs d hd).2⟩
  · rw [Volume.setFat_fat, update_apply]
    split
    · exact hv'
    · exact hs.small a ha
  · intro d i e he hne
    obtain ⟨hrange, h2, hused, hdir⟩ := hs.heads d i e he hne
    exact ⟨hrange, h2, setFat_ne_zero hv hused, hdir⟩
  · intro a b hab
    rcases links_setFat hab with hold | ⟨rfl, rfl, hend⟩
    · obtain ⟨hrange, hused, hdir, hback, hhead⟩ := hs.links a b hold
      refine ⟨hrange, setFat_ne_zero hv hused, hdir, fun a' ha' => ?_, hhead⟩
      rcases links_setFat ha' with hold' | ⟨-, rfl, hend⟩
      · exact hback a' hold'
      · exact absurd hold ((hnew hend).notNext a)
    · have hfresh := hnew hend
      refine ⟨hfresh.inRange, setFat_ne_zero hv hfresh.used, hfresh.notDir, fun a' ha' => ?_, hfresh.notHead⟩
      rcases links_setFat ha' with hold' | ⟨rfl, -, -⟩
      · exact absurd hold' (hfresh.notNext a')
      · rfl

theorem Fresh.setFat (hf : Fresh V D h) (hv : v ≠ 0) (hne : h ≠ v) : Fresh (V.setFat c v) D h := by
  refine ⟨hf.inRange, hf.ne_root, setFat_ne_zero hv hf.used, hf.notDir, hf.notHead, fun a ha => ?_⟩
  rcases links_setFat ha with hold | ⟨-, heq, -⟩
  · exact hf.notNext a hold
  · exact hne heq

/-! ### Changing a cluster that is no directory -/

theorem holds_setDir {t : ℕ → Option Entry} (hc : c ∉ D) : (V.setDir c t).Holds D d i e ↔ V.Holds D d i e := by
  refine and_congr_right fun hd => ?_
  have hne : d ≠ c := by
    rintro rfl
    exact hc hd
  rw [Volume.setDir_dir, update_of_ne hne]

/-- What is in a cluster that is no directory does not matter. -/
theorem Sound.setDir (hs : Sound V D) (hc : c ∉ D) (t : ℕ → Option Entry) : Sound (V.setDir c t) D := by
  refine ⟨hs.root, hs.dirs, hs.small, fun d hd => ?_, fun d i e he => ?_, fun d i e he => ?_,
    fun d i e d' i' e' he he' => ?_, fun a b hab => ?_⟩
  · have hne : d ≠ c := by
      rintro rfl
      exact hc hd
    rw [Volume.setDir_dir, update_of_ne hne]
    exact hs.unique d hd
  · exact hs.heads d i e ((holds_setDir hc).mp he)
  · exact hs.empty d i e ((holds_setDir hc).mp he)
  · exact hs.separate d i e d' i' e' ((holds_setDir hc).mp he) ((holds_setDir hc).mp he')
  · obtain ⟨hrange, hused, hdir, hback, hhead⟩ := hs.links a b hab
    exact ⟨hrange, hused, hdir, hback, fun d i e he => hhead d i e ((holds_setDir hc).mp he)⟩

theorem Fresh.setDir (hf : Fresh V D h) (hc : c ∉ D) (t : ℕ → Option Entry) : Fresh (V.setDir c t) D h :=
  ⟨hf.inRange, hf.ne_root, hf.used, hf.notDir, fun d i e he => hf.notHead d i e ((holds_setDir hc).mp he), hf.notNext⟩

/-! ### Taking a cluster -/

/-- The volume after `allocate` has taken the cluster `c`. -/
def Volume.take (V : Volume) (c : ℕ) : Volume := (V.setDir c fun _ => none).setFat c 0x0fffffff

theorem Sound.notMem_of_free (hs : Sound V D) (hfree : V.fat c = 0) : c ∉ D := fun hc => (hs.dirs c hc).2 hfree

/-- **Taking a free cluster** keeps the volume sound, and the cluster is fresh
afterwards. -/
theorem Sound.take (hs : Sound V D) (hc : InRange c) (hfree : V.fat c = 0) :
    Sound (V.take c) D ∧ Fresh (V.take c) D c := by
  have hnotMem := hs.notMem_of_free hfree
  have hs' := hs.setDir hnotMem fun _ => none
  refine ⟨hs'.setFat (by decide) (by decide) fun h => absurd h (by decide), hc, ?_, ?_, hnotMem, ?_, ?_⟩
  · rintro rfl
    exact hnotMem hs.root
  · rw [Volume.take, Volume.setFat_fat, update_self]
    decide
  · intro d i e he heq
    by_cases h0 : e.cluster = 0
    · rw [← heq, h0] at hc
      exact absurd hc.1 (by decide)
    · exact (hs'.heads d i e he h0).2.2.1 (heq ▸ hfree)
  · intro a ha
    rcases links_setFat ha with hold | ⟨-, heq, -⟩
    · exact (hs'.links a c hold).2.1 hfree
    · rw [heq] at hc
      exact absurd hc.2 (by decide)

/-- Another fresh cluster stays fresh. -/
theorem Fresh.take (hf : Fresh V D h) (hs : Sound V D) (hfree : V.fat c = 0) : Fresh (V.take c) D h := by
  have hne : h ≠ 0x0fffffff := by
    have hlt := hf.inRange.2
    omega
  exact (hf.setDir (hs.notMem_of_free hfree) _).setFat (by decide) hne

/-! ### Changing a slot of a directory -/

/-- The volume with another slot `i` in directory `d`. -/
def Volume.setSlot (V : Volume) (d i : ℕ) (x : Option Entry) : Volume :=
  V.setDir d (update (V.dir d) i x)

theorem Volume.setSlot_dir (V : Volume) (d i : ℕ) (x : Option Entry) :
    (V.setSlot d i x).dir d = update (V.dir d) i x := by
  rw [setSlot, setDir_dir, update_self]

theorem Volume.setSlot_dir_of_ne (V : Volume) (i : ℕ) (x : Option Entry) (h : d' ≠ d) :
    (V.setSlot d i x).dir d' = V.dir d' := by
  rw [setSlot, setDir_dir, update_of_ne h]

/-- An entry after a change of a slot is the new one, or was there before in
another slot. -/
theorem holds_setSlot (h : (V.setSlot d i x).Holds D d' i' e) :
    (d' = d ∧ i' = i ∧ x = some e) ∨ ((d' ≠ d ∨ i' ≠ i) ∧ V.Holds D d' i' e) := by
  obtain ⟨hd, hi, he, hname⟩ := h
  by_cases hdd : d' = d
  · rw [hdd, Volume.setSlot_dir] at he
    by_cases hii : i' = i
    · rw [hii, update_self] at he
      exact .inl ⟨hdd, hii, he⟩
    · rw [update_of_ne hii] at he
      exact .inr ⟨.inr hii, hd, hi, hdd ▸ he, hname⟩
  · rw [Volume.setSlot_dir_of_ne V i x hdd] at he
    exact .inr ⟨.inl hdd, hd, hi, he, hname⟩

/-- What makes an entry good for slot `i` of directory `d`: nothing else has its
name there, and it is an empty file, or has a cluster nothing else leads to. -/
structure Fits (V : Volume) (D : Set ℕ) (d i : ℕ) (e : Entry) : Prop where
  newName : ∀ j < 16, j ≠ i → ∀ e', V.dir d j = some e' → e'.name ≠ e.name
  empty : e.cluster = 0 → e.isDir = false ∧ e.size = 0
  head : e.cluster ≠ 0 → InRange e.cluster ∧ e.cluster ≠ 2 ∧ V.fat e.cluster ≠ 0 ∧
    (e.cluster ∈ D ↔ e.isDir = true)
  notHead : e.cluster ≠ 0 → ∀ d' i' e', V.Holds D d' i' e' → (d' ≠ d ∨ i' ≠ i) →
    e'.cluster ≠ e.cluster
  notNext : e.cluster ≠ 0 → ∀ a, ¬V.Links a e.cluster

/-- **Filling or emptying a slot** keeps the volume sound, if what is put there
fits. -/
theorem Sound.setSlot (hs : Sound V D) (d i : ℕ)
    (hx : ∀ e, x = some e → Fits V D d i e) : Sound (V.setSlot d i x) D := by
  refine ⟨hs.root, hs.dirs, hs.small, fun d' hd' => ?_, ?_, ?_, ?_, ?_⟩
  · by_cases hdd : d' = d
    · rw [hdd, Volume.setSlot_dir]
      cases x with
      | none => exact (hs.unique d (hdd ▸ hd')).erase i
      | some e => exact (hs.unique d (hdd ▸ hd')).insert (hx e rfl).newName
    · rw [Volume.setSlot_dir_of_ne V i x hdd]
      exact hs.unique d' hd'
  · intro d' i' e he
    rcases holds_setSlot he with ⟨-, -, hnew⟩ | ⟨-, hold⟩
    · exact (hx e hnew).head
    · exact hs.heads d' i' e hold
  · intro d' i' e he
    rcases holds_setSlot he with ⟨-, -, hnew⟩ | ⟨-, hold⟩
    · exact (hx e hnew).empty
    · exact hs.empty d' i' e hold
  · intro d₁ i₁ e₁ d₂ i₂ e₂ he₁ he₂ heq hne
    rcases holds_setSlot he₁ with ⟨rfl, rfl, hnew₁⟩ | ⟨hother₁, hold₁⟩
    · rcases holds_setSlot he₂ with ⟨rfl, rfl, -⟩ | ⟨hother₂, hold₂⟩
      · exact ⟨rfl, rfl⟩
      · exact absurd heq.symm ((hx e₁ hnew₁).notHead hne _ _ _ hold₂ hother₂)
    · rcases holds_setSlot he₂ with ⟨rfl, rfl, hnew₂⟩ | ⟨hother₂, hold₂⟩
      · exact absurd heq ((hx e₂ hnew₂).notHead (heq ▸ hne) _ _ _ hold₁ hother₁)
      · exact hs.separate _ _ _ _ _ _ hold₁ hold₂ heq hne
  · intro a b hab
    obtain ⟨hrange, hused, hdir, hback, hhead⟩ := hs.links a b hab
    refine ⟨hrange, hused, hdir, hback, fun d' i' e he => ?_⟩
    rcases holds_setSlot he with ⟨-, -, hnew⟩ | ⟨-, hold⟩
    · rintro rfl
      exact (hx e hnew).notNext hab.2.2.1 a hab
    · exact hhead d' i' e hold

/-- Without its entry nothing leads to the first cluster of a chain. -/
theorem Sound.notHead_setSlot (hs : Sound V D)
    (he : V.Holds D d i e) (hne : e.cluster ≠ 0) (he' : (V.setSlot d i none).Holds D d' i' e') :
    e'.cluster ≠ e.cluster := by
  intro heq
  rcases holds_setSlot he' with ⟨-, -, hnone⟩ | ⟨hother, hold⟩
  · cases hnone
  · obtain ⟨hdd, hii⟩ := hs.separate d' i' e' d i e hold he heq (heq ▸ hne)
    rcases hother with hother | hother
    · exact hother hdd
    · exact hother hii

/-- An entry with a name that is new in the directory fits into a slot, if it has no
cluster, or a fresh one. -/
theorem fits_of_newName
    (hnew : ∀ j < 16, ∀ e', V.dir d j = some e' → e'.name ≠ e.name)
    (hempty : e.cluster = 0 → e.isDir = false ∧ e.size = 0)
    (hhead : e.cluster ≠ 0 → InRange e.cluster ∧ e.cluster ≠ 2 ∧ V.fat e.cluster ≠ 0 ∧ (e.cluster ∈ D ↔ e.isDir = true))
    (hnotHead : e.cluster ≠ 0 → ∀ d' i' e', V.Holds D d' i' e' → e'.cluster ≠ e.cluster)
    (hnotNext : e.cluster ≠ 0 → ∀ a, ¬V.Links a e.cluster) : Fits V D d i e where
  newName j hj _ e' he' := hnew j hj e' he'
  empty := hempty
  head := hhead
  notHead hne d' i' e' he' _ := hnotHead hne d' i' e' he'
  notNext := hnotNext

/-- A file fits where it is with a fresh cluster. -/
theorem fits_fresh (hs : Sound V D) (he : V.Holds D d i e)
    (hdir : e.isDir = false) (hf : Fresh V D c) (size : ℕ) :
    Fits V D d i { e with cluster := c, size := size } where
  newName j hj hji e' he' hname := by
    obtain ⟨hd, hi, hdir, -⟩ := he
    exact hji (hs.unique d hd j hj i hi e' e he' hdir hname)
  empty h0 := by
    obtain rfl : c = 0 := h0
    exact absurd hf.inRange.1 (by decide : ¬2 ≤ 0)
  head _ := ⟨hf.inRange, hf.ne_root, hf.used, ⟨fun hmem => absurd hmem hf.notDir, fun hdir' =>
    absurd (hdir.symm.trans hdir') (by decide)⟩⟩
  notHead _ d' i' e' he' _ := hf.notHead d' i' e' he'
  notNext _ := hf.notNext

/-- A file's cluster is no directory. -/
theorem Sound.file_notMem (hs : Sound V D) (he : V.Holds D d i e)
    (hdir : e.isDir = false) (hne : e.cluster ≠ 0) : e.cluster ∉ D := by
  intro hmem
  rw [(hs.heads d i e he hne).2.2.2.mp hmem] at hdir
  exact Bool.noConfusion hdir

/-! ### Making and removing directories -/

/-- A fresh cluster with nothing but `.` and `..` in it may count as a
directory. -/
theorem Sound.insertDir (hs : Sound V D) (hf : Fresh V D c)
    (hdots : ∀ j e, V.dir c j = some e → e.IsDots)
    (hunique : Slots.Unique Entry.name 16 (V.dir c)) : Sound V (insert c D) := by
  have hholds : ∀ {d i e}, V.Holds (insert c D) d i e → V.Holds D d i e := by
    rintro d i e ⟨rfl | hd, hi, he, hname⟩
    · exact absurd (hdots i e he) hname
    · exact ⟨hd, hi, he, hname⟩
  refine ⟨Set.mem_insert_of_mem c hs.root, ?_, hs.small, ?_, ?_, ?_, ?_, ?_⟩
  · rintro d (rfl | hd)
    · exact ⟨hf.inRange, hf.used⟩
    · exact hs.dirs d hd
  · rintro d (rfl | hd)
    · exact hunique
    · exact hs.unique d hd
  · intro d i e he hne
    obtain ⟨hrange, h2, hused, hdir⟩ := hs.heads d i e (hholds he) hne
    refine ⟨hrange, h2, hused, ?_⟩
    rw [Set.mem_insert_iff, or_iff_right (hf.notHead d i e (hholds he)), hdir]
  · exact fun d i e he => hs.empty d i e (hholds he)
  · exact fun d i e d' i' e' he he' => hs.separate d i e d' i' e' (hholds he) (hholds he')
  · intro a b hab
    obtain ⟨hrange, hused, hdir, hback, hhead⟩ := hs.links a b hab
    refine ⟨hrange, hused, ?_, hback, fun d i e he => hhead d i e (hholds he)⟩
    rintro (rfl | hb)
    · exact hf.notNext a hab
    · exact hdir hb

/-- **Giving a cluster back** that no entry and no link leads to. -/
theorem Sound.release (hs : Sound V D) (hc : c ≠ 2)
    (hhead : ∀ d i e, V.Holds D d i e → e.cluster ≠ c) (hnext : ∀ a, ¬V.Links a c) :
    Sound (V.setFat c 0) (D \ {c}) := by
  have hholds : ∀ {d i e}, (V.setFat c 0).Holds (D \ {c}) d i e → V.Holds D d i e := fun he => ⟨he.1.1, he.2⟩
  have hused : ∀ {a}, a ≠ c → V.fat a ≠ 0 → (V.setFat c 0).fat a ≠ 0 := by
    intro a ha hfat
    rwa [Volume.setFat_fat, update_of_ne ha]
  have hlinks : ∀ {a b}, (V.setFat c 0).Links a b → V.Links a b := by
    intro a b hab
    rcases links_setFat hab with hold | ⟨-, rfl, -⟩
    · exact hold
    · exact absurd rfl hab.2.2.1
  refine ⟨⟨hs.root, hc.symm⟩, fun d hd => ?_, fun a ha => ?_, fun d hd => hs.unique d hd.1, ?_, ?_, ?_, ?_⟩
  · exact ⟨(hs.dirs d hd.1).1, hused hd.2 (hs.dirs d hd.1).2⟩
  · rw [Volume.setFat_fat, update_apply]
    split
    · decide
    · exact hs.small a ha
  · intro d i e he hne
    have hec := hhead d i e (hholds he)
    obtain ⟨hrange, h2, hfat, hdir⟩ := hs.heads d i e (hholds he) hne
    exact ⟨hrange, h2, hused hec hfat, (and_iff_left hec).trans hdir⟩
  · exact fun d i e he => hs.empty d i e (hholds he)
  · exact fun d i e d' i' e' he he' => hs.separate d i e d' i' e' (hholds he) (hholds he')
  · intro a b hab
    obtain ⟨hrange, hfat, hdir, hback, hhead'⟩ := hs.links a b (hlinks hab)
    have hbc : b ≠ c := by
      rintro rfl
      exact hnext a (hlinks hab)
    exact ⟨hrange, hused hbc hfat, fun hb => hdir hb.1, fun a' ha' => hback a' (hlinks ha'),
      fun d i e he => hhead' d i e (hholds he)⟩

/-! ### Counting free clusters -/

/-- The number of free clusters. -/
def freeCount (fat : ℕ → ℕ) : ℕ := Counting.count (Finset.Ico 2 127008) fat (· = 0)

theorem freeCount_take (hc : InRange c) (hfree : fat c = 0) (hv : v ≠ 0) :
    freeCount (update fat c v) + 1 = freeCount fat :=
  Counting.count_update_lost (Finset.mem_Ico.mpr hc) hfree hv

theorem freeCount_release (hc : InRange c) (hused : fat c ≠ 0) : freeCount (update fat c 0) = freeCount fat + 1 :=
  Counting.count_update_won (Finset.mem_Ico.mpr hc) hused rfl

theorem freeCount_used (hused : fat c ≠ 0) (hv : v ≠ 0) : freeCount (update fat c v) = freeCount fat :=
  Counting.count_update_same ⟨fun h => absurd h hv, fun h => absurd h hused⟩

/-- The hint and the count are right for the table: no cluster below the hint is
free, and the count is the number of free clusters. -/
structure Counted (fat : ℕ → ℕ) (next free : ℕ) : Prop where
  hint : ∀ c, 2 ≤ c → c < next → fat c ≠ 0
  count : free = freeCount fat

/-- Taking the first free cluster from the hint on. -/
theorem Counted.take (h : Counted fat next free) (hc : InRange c)
    (hfree : fat c = 0) (hv : v ≠ 0) (hbefore : ∀ a, next ≤ a → a < c → fat a ≠ 0) :
    Counted (update fat c v) (c + 1) (free - 1) := by
  refine ⟨fun a ha hlt => ?_, ?_⟩
  · rw [update_apply]
    split
    · exact hv
    · -- between the old hint and the cluster everything was used
      rcases lt_or_ge a next with hold | hnew
      · exact h.hint a ha hold
      · exact hbefore a hnew (by omega)
  · have hcount := freeCount_take hc hfree hv
    rw [h.count]
    omega

/-- Giving a cluster back. -/
theorem Counted.release (h : Counted fat next free) (hc : InRange c)
    (hused : fat c ≠ 0) :
    Counted (update fat c 0) (if c < next then c else next) (free + 1) := by
  refine ⟨fun a ha hlt => ?_, ?_⟩
  · rw [update_of_ne]
    · refine h.hint a ha ?_
      split at hlt <;> omega
    · rintro rfl
      split at hlt <;> omega
  · rw [freeCount_release hc hused, h.count]

/-- Changing the entry of a used cluster. -/
theorem Counted.setUsed (h : Counted fat next free)
    (hused : fat c ≠ 0) (hv : v ≠ 0) : Counted (update fat c v) next free := by
  refine ⟨fun a ha hlt => ?_, ?_⟩
  · rw [update_apply]
    split
    · exact hv
    · exact h.hint a ha hlt
  · rw [freeCount_used hused hv, h.count]

end OS64.Fat
