import OS64.Fat.Model
import OS64.Lib.Slots
import Mathlib.Data.List.TakeWhile

/-!
# Directories as tables of entries

A directory sector, read as a table of sixteen slots: a slot is empty or holds an
entry (`OS64.Fat.entry`). Every change the driver makes to a directory sector is
a change of one slot of the table, and the search of `find_entry_at` is the
search of the table for a name (`OS64.Fat.findSlot_eq`).

A name that a path can spell starts neither with a dot nor with a zero byte
(`OS64.Fat.name83_first_ne_dot`, `OS64.Fat.name83_first_ne_zero`). So the entries
`.` and `..` are never found, and a new entry is empty only if its name starts
with the byte 0xe5.
-/

namespace OS64.Fat

open List Function ByteMem Option

/-- What a directory entry says. -/
structure Entry where
  name : List UInt8
  attr : UInt8
  cluster : ℕ
  size : ℕ
  deriving DecidableEq

/-- `attr & 0x10`. -/
def Entry.isDir (e : Entry) : Bool := e.attr &&& 0x10 ≠ 0

@[simp] theorem isDir_file (name : List UInt8) (cluster size : ℕ) : Entry.isDir ⟨name, 0x20, cluster, size⟩ = false :=
  decide_eq_false (show ¬(0x20 : UInt8) &&& 0x10 ≠ 0 by decide)

@[simp] theorem isDir_directory (name : List UInt8) (cluster size : ℕ) :
    Entry.isDir ⟨name, 0x10, cluster, size⟩ = true :=
  decide_eq_true (show (0x10 : UInt8) &&& 0x10 ≠ 0 by decide)

/-- The entry in slot `i`, if it holds one. -/
def entry (r : Sector) (i : ℕ) : Option Entry :=
  if entryLive r i then some ⟨entryName r i, entryAttr r i, entryCluster r i, entrySize r i⟩
  else none

variable {r r' : Sector} {i j c : ℕ} {e : Entry}

theorem entry_eq_some (h : entry r i = some e) : entryName r i = e.name ∧
    entryIsDir r i = e.isDir ∧ entryCluster r i = e.cluster ∧ entrySize r i = e.size := by
  rw [entry] at h
  split at h
  · cases h
    exact ⟨rfl, rfl, rfl, rfl⟩
  · simp at h

theorem entry_isSome : (entry r i).isSome = entryLive r i := by
  rw [entry]
  split
  · rename_i h
    exact h.symm
  · rename_i h
    exact (Bool.eq_false_iff.mpr h).symm

/-! ### Searching -/

theorem findSlot_eq (r : Sector) (n : Path) : findSlot r n = Slots.find Entry.name 16 (entry r) (name83 n) := by
  rw [findSlot, Slots.find]
  congr 1
  funext i
  rw [entry]
  split
  · rename_i h
    rw [h, Bool.true_and, map_some]
    exact decide_eq_decide.mpr (some_inj).symm
  · rename_i h
    rw [Bool.eq_false_iff.mpr h]
    simp

variable {n : Path} {dotdot : ℕ}

theorem findSlot_eq_some (h : findSlot r n = some i) : i < 16 ∧ ∃ e, entry r i = some e ∧ e.name = name83 n := by
  rw [findSlot_eq] at h
  exact Slots.find_eq_some h

theorem freeSlot_eq_some (h : freeSlot r = some i) : i < 16 ∧ entry r i = none := by
  have hlive : entryLive r i = false := by simpa using List.find?_some h
  refine ⟨mem_range.mp (mem_of_find?_eq_some h), ?_⟩
  rw [entry, if_neg (by rw [hlive]; decide)]

/-! ### Changing a slot -/

/-- An entry depends on the 32 bytes of its slot. -/
theorem entry_congr (r r' : Sector) (i : ℕ) (h : ∀ x, i * 32 ≤ x → x < i * 32 + 32 → r x = r' x) :
    entry r i = entry r' i := by
  have hfirst : entryFirst r i = entryFirst r' i := h _ le_rfl (by omega)
  have hattr : entryAttr r i = entryAttr r' i := h _ (by omega) (by omega)
  have hname : entryName r i = entryName r' i := bytes_congr fun x hx hx' => h x hx (by omega)
  have hcluster : entryCluster r i = entryCluster r' i := by
    rw [entryCluster, entryCluster, r16, r16, r16, r16,
      readLE_congr fun x hx hx' => h x (by omega) (by omega),
      readLE_congr (a := i * 32 + 26) fun x hx hx' => h x (by omega) (by omega)]
  have hsize : entrySize r i = entrySize r' i := readLE_congr fun x hx hx' => h x (by omega) (by omega)
  rw [entry, entry, entryLive, entryLive, hfirst, hattr, hname, hcluster, hsize]

/-- A change within the bytes of slot `i` is a change of that slot of the
table. -/
theorem entry_eq_update (r r' : Sector) (i : ℕ) (h : ∀ x, x < i * 32 ∨ i * 32 + 32 ≤ x → r' x = r x) :
    entry r' = update (entry r) i (entry r' i) := by
  funext j
  by_cases hj : j = i
  · rw [hj, update_self]
  · rw [update_of_ne hj]
    exact entry_congr r' r j fun x hx hx' => h x (by omega)

theorem entry_setDeleted (r : Sector) (i : ℕ) : entry (setDeleted r i) = update (entry r) i none := by
  rw [entry_eq_update r (setDeleted r i) i]
  · rw [entry, if_neg]
    simp [entryLive, entryFirst, setDeleted, w8]
  · intro x hx
    exact update_of_ne (by omega) _ _

theorem entrySize_setSize (r : Sector) (i size : ℕ) : entrySize (setSize r i size) i = size % 2 ^ 32 :=
  readLE_writeLE_same _ 4 _ size

theorem entry_setSize_mod (r : Sector) (i size : ℕ) : entry (setSize r i size) =
    update (entry r) i ((entry r i).map fun e => { e with size := size % 2 ^ 32 }) := by
  have hother : ∀ x, x < i * 32 + 28 ∨ i * 32 + 32 ≤ x → setSize r i size x = r x := by
    intro x hx
    exact writeLE_of_notMem _ (by omega)
  rw [entry_eq_update r (setSize r i size) i fun x hx => hother x (by omega)]
  have hfirst : entryFirst (setSize r i size) i = entryFirst r i := hother (i * 32) (by omega)
  have hattr : entryAttr (setSize r i size) i = entryAttr r i := hother (i * 32 + 11) (by omega)
  have hname : entryName (setSize r i size) i = entryName r i := bytes_congr fun x hx hx' => hother x (by omega)
  have hcluster : entryCluster (setSize r i size) i = entryCluster r i := by
    rw [entryCluster, entryCluster, setSize, w32, r16, r16, r16, r16,
      readLE_writeLE_of_disjoint _ (by omega), readLE_writeLE_of_disjoint _ (by omega)]
  rw [entry, entry, entryLive, entryLive, hfirst, hattr, hname, hcluster, entrySize_setSize]
  split <;> rfl

theorem entry_setSize (r : Sector) (i : ℕ) {size : ℕ} (h : size < 2 ^ 32) :
    entry (setSize r i size) = update (entry r) i ((entry r i).map fun e => { e with size := size }) := by
  rw [entry_setSize_mod, Nat.mod_eq_of_lt h]

theorem entryCluster_setCluster (r : Sector) (i : ℕ) (h : c < 2 ^ 32) : entryCluster (setCluster r i c) i = c := by
  rw [entryCluster, setCluster, w16, w16, r16, r16, readLE_writeLE_same,
    readLE_writeLE_of_disjoint _ (by omega), readLE_writeLE_same]
  omega

theorem setCluster_of_notMem (x : ℕ)
    (h : x < i * 32 + 20 ∨ i * 32 + 22 ≤ x ∧ x < i * 32 + 26 ∨ i * 32 + 28 ≤ x) :
    setCluster r i c x = r x := by
  rw [setCluster, w16, w16, writeLE_of_notMem _ (by omega), writeLE_of_notMem _ (by omega)]

theorem entry_setCluster (r : Sector) (i : ℕ) (h : c < 2 ^ 32) :
    entry (setCluster r i c) = update (entry r) i ((entry r i).map fun e => { e with cluster := c }) := by
  rw [entry_eq_update r (setCluster r i c) i fun x hx => setCluster_of_notMem x (by omega)]
  have hfirst : entryFirst (setCluster r i c) i = entryFirst r i := setCluster_of_notMem (i * 32) (by omega)
  have hattr : entryAttr (setCluster r i c) i = entryAttr r i := setCluster_of_notMem (i * 32 + 11) (by omega)
  have hname : entryName (setCluster r i c) i = entryName r i :=
    bytes_congr fun x hx hx' => setCluster_of_notMem x (by omega)
  have hsize : entrySize (setCluster r i c) i = entrySize r i :=
    readLE_congr fun x hx hx' => setCluster_of_notMem x (by omega)
  rw [entry, entry, entryLive, entryLive, hfirst, hattr, hname, hsize, entryCluster_setCluster r i h]
  split <;> rfl

/-! ### Names -/

@[simp] theorem length_pad {k : ℕ} {l : List UInt8} (h : l.length ≤ k) : (pad k l).length = k := by
  rw [pad, length_append, length_replicate]
  omega

@[simp] theorem length_name83 (n : Path) : (name83 n).length = 11 := by
  rw [name83, length_append, length_pad, length_pad]
  · rw [length_map]
    exact length_take_le _ _
  · rw [length_map]
    exact length_take_le _ _

/-- Upper case letters are not below `A`. -/
theorem upper_ne {x y : UInt8} (h : x ≠ y) (hy : y.toNat < 65) : upper x ≠ y := by
  rw [upper]
  split
  · rename_i hlower
    have hle : 97 ≤ x.toNat := hlower.1
    have hsub : (x - 32).toNat = x.toNat - 32 := UInt8.toNat_sub_of_le x 32 (le_trans (by decide) hle)
    intro hxy
    rw [hxy] at hsub
    omega
  · exact h

/-- The first byte of a name is a space, or the first character of the path
component in upper case. -/
theorem name83_first (n : Path) : (name83 n).getD 0 0 = 32 ∨ ∃ x ∈ rel n, x ≠ 46 ∧ (name83 n).getD 0 0 = upper x := by
  rw [name83]
  generalize hbase : ((rel n).takeWhile fun c => c ≠ 46 ∧ c ≠ 47).take 8 = base
  cases base with
  | nil => exact .inl rfl
  | cons x base =>
    have hx : x ∈ (rel n).takeWhile fun c => c ≠ 46 ∧ c ≠ 47 := mem_of_mem_take (hbase ▸ mem_cons_self)
    have hdot := mem_takeWhile_imp hx
    exact .inr ⟨x, (takeWhile_sublist _).subset hx, (of_decide_eq_true hdot).1, rfl⟩

/-- **A path never spells a name that starts with a dot.** -/
theorem name83_first_ne_dot (n : Path) : (name83 n).getD 0 0 ≠ 46 := by
  rcases name83_first n with h | ⟨x, -, hx, h⟩
  · rw [h]
    decide
  · rw [h]
    exact upper_ne hx (by decide)

theorem skipCommon_subset : ∀ p n : List UInt8, skipCommon p n ⊆ n
  | [], n => by
    rw [skipCommon]
    · exact List.Subset.refl n
    · simp
  | p :: ps, [] => by
    rw [skipCommon]
    · exact List.Subset.refl _
    · simp
  | p :: ps, c :: cs => by
    rw [skipCommon]
    split
    · exact fun x hx => mem_cons_of_mem c (skipCommon_subset ps cs hx)
    · exact List.Subset.refl _

theorem rel_subset (n : Path) : rel n ⊆ n := by
  rw [rel]
  split
  · exact skipCommon_subset _ n
  · exact skipCommon_subset _ n

/-- Nor one that starts with a zero byte, which no path contains. -/
theorem name83_first_ne_zero (hn : 0 ∉ n) : (name83 n).getD 0 0 ≠ 0 := by
  rcases name83_first n with h | ⟨x, hmem, -, h⟩
  · rw [h]
    decide
  · rw [h]
    refine upper_ne ?_ (by decide)
    rintro rfl
    exact hn (rel_subset n hmem)

/-! ### New entries -/

/-- The entry `disk_create` makes, which counts as empty if its name starts with
the mark of a deleted one. -/
def created (leaf : Path) (attr : UInt8) (c : ℕ) : Option Entry :=
  if (name83 leaf).getD 0 0 = 0xe5 then none else some ⟨name83 leaf, attr, c, 0⟩

/-- What a path without zero bytes makes of a slot. -/
theorem created_eq_some {attr : UInt8} (h : created n attr c = some e) : e = ⟨name83 n, attr, c, 0⟩ := by
  rw [created] at h
  split at h
  · simp at h
  · exact (some.inj h).symm

theorem entry_newEntry (r : Sector) (i : ℕ) {leaf : Path} (attr : UInt8) (hleaf : 0 ∉ leaf)
    (hc : c < 2 ^ 32) :
    entry (newEntry r i leaf attr c) = update (entry r) i (created leaf attr c) := by
  have hlen := length_name83 leaf
  rw [newEntry]
  generalize hb : w8 (store (fill r (i * 32) 0 32) (i * 32) (name83 leaf)) (i * 32 + 11) attr = b
  -- the bytes of the slot: the name, the attribute, zeros
  have hname : entryName b i = name83 leaf := by
    have hstored := bytes_store (fill r (i * 32) 0 32) (i * 32) (name83 leaf)
    rw [hlen] at hstored
    refine Eq.trans (bytes_congr fun x hx hx' => ?_) hstored
    rw [← hb]
    exact update_of_ne (by omega) _ _
  have hfirst : entryFirst b i = (name83 leaf).getD 0 0 := by
    rw [← hname]
    simp [entryName, bytes, entryFirst]
  have hattr : entryAttr b i = attr := by
    rw [← hb]
    exact update_self ..
  have hzero : ∀ x, i * 32 + 12 ≤ x → x < i * 32 + 32 → b x = 0 := by
    intro x hx hx'
    rw [← hb, w8, update_of_ne (by omega), store_of_notMem _ (by omega), fill_apply, if_pos (by omega)]
  have hcluster : entryCluster b i = 0 := by
    rw [entryCluster, r16, r16, readLE_eq_zero fun x hx hx' => hzero x (by omega) (by omega),
      readLE_eq_zero fun x hx hx' => hzero x (by omega) (by omega), Nat.zero_mul]
  have hsize : entrySize b i = 0 := readLE_eq_zero fun x hx hx' => hzero x (by omega) (by omega)
  have hother : ∀ x, x < i * 32 ∨ i * 32 + 32 ≤ x → b x = r x := by
    intro x hx
    rw [← hb, w8, update_of_ne (by omega), store_of_notMem _ (by omega), fill_apply, if_neg (by omega)]
  have hentry : (entry b i).map (fun e => { e with cluster := c }) = created leaf attr c := by
    rw [entry, entryLive, hfirst, hname, hattr, hcluster, hsize, created]
    by_cases he5 : (name83 leaf).getD 0 0 = 0xe5
    · rw [if_pos he5, if_neg]
      · rfl
      · rw [decide_eq_true_eq]
        exact fun h => h.2 he5
    · rw [if_neg he5, if_pos]
      · rfl
      · exact decide_eq_true ⟨name83_first_ne_zero hleaf, he5⟩
  rw [entry_setCluster b i hc, entry_eq_update r b i hother, update_idem, update_self, hentry]

@[simp] theorem entry_zero : entry zero = fun _ => none := rfl

/-- The names of the entries `.` and `..`. -/
def dotName : List UInt8 := pad 11 [46]

@[inherit_doc dotName]
def dotdotName : List UInt8 := pad 11 [46, 46]

/-- The entry is `.` or `..`. -/
def Entry.IsDots (e : Entry) : Prop := e.name = dotName ∨ e.name = dotdotName

/-- No path spells the names of `.` and `..`. -/
theorem Entry.not_isDots (h : e.name = name83 n) : ¬e.IsDots := by
  have hfirst := name83_first_ne_dot n
  rw [← h] at hfirst
  rintro (hdot | hdot)
  · rw [hdot] at hfirst
    exact hfirst rfl
  · rw [hdot] at hfirst
    exact hfirst rfl

/-- A new directory has the entries `.` and `..`. -/
theorem entry_newDirectory (hc : c < 2 ^ 32) (hd : dotdot < 2 ^ 32) :
    entry (newDirectory c dotdot) = update (update (fun _ => none) 0
      (some ⟨dotName, 0x10, c, 0⟩)) 1 (some ⟨dotdotName, 0x10, dotdot, 0⟩) := by
  rw [newDirectory]
  generalize hb : w8 (w8 (fill zero 0 32 11) 0 46) 11 0x10 = b
  have hbother : ∀ x, 32 ≤ x → b x = 0 := by
    intro x hx
    rw [← hb, w8, w8, update_of_ne (by omega), update_of_ne (by omega), fill_apply, if_neg (by omega), zero]
  have hdot : entry b = update (fun _ => none) 0 (some ⟨dotName, 0x10, 0, 0⟩) := by
    rw [entry_eq_update zero b 0 fun x hx => hbother x (by omega), entry_zero]
    congr 1
    rw [← hb]
    decide
  generalize hd' : setCluster b 0 c = d
  have hdother : ∀ x, 32 ≤ x → d x = 0 := by
    intro x hx
    rw [← hd', setCluster_of_notMem x (by omega), hbother x hx]
  have hdentry : entry d = update (fun _ => none) 0 (some ⟨dotName, 0x10, c, 0⟩) := by
    rw [← hd', entry_setCluster b 0 hc, hdot, update_self, update_idem]
    rfl
  -- the second slot does not depend on the first
  have hslot : entry (w8 (w8 (w8 (fill d 32 32 11) 32 46) 33 46) 43 0x10) 1 = some ⟨dotdotName, 0x10, 0, 0⟩ := by
    rw [entry_congr _ (w8 (w8 (w8 (fill zero 32 32 11) 32 46) 33 46) 43 0x10)]
    · decide
    · intro x hx hx'
      simp only [w8, update_apply, fill_apply, hdother x (by omega), zero]
  rw [entry_setCluster _ 1 hd, entry_eq_update d _ 1, hslot, update_self, update_idem, hdentry]
  · rfl
  · intro x hx
    rw [w8, w8, w8, update_of_ne (by omega), update_of_ne (by omega),
      update_of_ne (by omega), fill_apply, if_neg (by omega)]

/-- The only entries of a new directory are `.` and `..`. -/
theorem dots_of_newDirectory (hc : c < 2 ^ 32) (hd : dotdot < 2 ^ 32) (h : entry (newDirectory c dotdot) j = some e) :
    (j = 0 ∧ e.name = dotName) ∨ (j = 1 ∧ e.name = dotdotName) := by
  rw [entry_newDirectory hc hd, update_apply, update_apply] at h
  split at h
  · cases h
    exact .inr ⟨‹_›, rfl⟩
  · split at h
    · cases h
      exact .inl ⟨‹_›, rfl⟩
    · simp at h

/-- A new root directory has the label as its only entry. -/
theorem entry_newRoot : entry newRoot = update (fun _ => none) 0 (some ⟨volumeLabel, 8, 0, 0⟩) := by
  have hlen : volumeLabel.length = 11 := rfl
  rw [entry_eq_update zero newRoot 0, entry_zero]
  · congr 1
  · intro x hx
    rw [newRoot, w8, update_of_ne (by omega), store_of_notMem _ (by omega)]

end OS64.Fat
