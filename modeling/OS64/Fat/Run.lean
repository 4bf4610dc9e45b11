import OS64.Fat.Mount

/-!
# Runs of the FAT32 volume

The states of the driver that calls of `disk_create`, `disk_store`,
`disk_remove`, `disk_store_large` and remounting lead to from a newly formatted
volume, whether the calls succeed or not (`OS64.Fat.Reachable`).

What the invariant says is said again in the driver's own terms
(`OS64.Fat.Consistent`): the copies of the table, the counters in memory and on the
disk, the hint, and the chains of the entries one can get to from the root.

`disk_store_large` works on the root directory whatever the path is, so its calls are
those for names without directories (`OS64.Fat.RootLevel`).
-/

namespace OS64.Fat

variable {s : State}

/-! ### Runs -/

/-- A name without directories before it. -/
def RootLevel (n : Path) : Prop := directoriesOf n = []

instance (n : Path) : Decidable (RootLevel n) := inferInstanceAs (Decidable (_ = _))

/-- The calls. -/
inductive Op where
  | create (n : Path) (type : UInt8)
  | store (n : Path) (d : ℕ → UInt8) (size : ℕ)
  | remove (n : Path)
  | storeLarge (n : Path) (d : ℕ → UInt8) (size : ℕ)
  | remount

/-- A path is a string, which ends at its first zero; large files have root-level
names. -/
def Op.WellFormed : Op → Prop
  | .create n _ => 0 ∉ n
  | .store n _ _ => 0 ∉ n
  | .remove n => 0 ∉ n
  | .storeLarge n _ _ => 0 ∉ n ∧ RootLevel n
  | .remount => True

/-- One call, with what it returns. -/
def call (s : State) : Op → State × Bool
  | .create n type => diskCreate s n type
  | .store n d size => diskStore s n d size
  | .remove n => diskRemove s n
  | .storeLarge n d size => diskStoreLarge s n d size
  | .remount => diskMount (diskInit s)

/-- The states calls can lead to. -/
inductive Reachable : State → Prop
  | format (s : State) : Reachable (diskFormat s)
  | call {s : State} {op : Op} (h : Reachable s) (hop : op.WellFormed) : Reachable (call s op).1

/-- A sequence of calls. -/
def run (s : State) (ops : List Op) : State := ops.foldl (fun s op => (call s op).1) s

theorem mounted_of_diskCreate {s' : State} {n : Path} {type : UInt8} (h : diskCreate s n type = (s', true)) :
    s.mounted = true := by
  by_contra hm
  rw [diskCreate, if_pos hm] at h
  exact absurd (Prod.mk.inj h).2 (by decide)

theorem mounted_of_diskStore {s' : State} {n : Path} {data : ℕ → UInt8} {size : ℕ}
    (h : diskStore s n data size = (s', true)) : s.mounted = true := by
  rw [diskStore] at h
  split at h
  · exact absurd (Prod.mk.inj h).2 (by decide)
  · split at h
    · exact absurd (Prod.mk.inj h).2 (by decide)
    · rename_i hcreate
      exact mounted_of_diskCreate hcreate

/-- The path of the examples. -/
def pathA : Path := chars ['/', 'h', 'o', 'm', 'e', '/', 'A']

theorem eq_mk_true {α : Type*} {x : α × Bool} (h : x.2 = true) : x = (x.1, true) := Prod.ext rfl h

/-! ### The invariant in terms of the driver -/

/-- Slot `i` of a directory sector has an entry other than `.` and `..`. -/
def Listed (r : Sector) (i : ℕ) : Prop :=
  i < 16 ∧ entryLive r i = true ∧ entryName r i ≠ dotName ∧ entryName r i ≠ dotdotName

/-- The directories one gets to from the root. -/
inductive LiveDir (s : State) : ℕ → Prop
  | root : LiveDir s s.rootCluster
  | child {d i : ℕ} (hd : LiveDir s d) (hi : Listed (dirRead s d) i)
      (hdir : entryIsDir (dirRead s d) i = true) : LiveDir s (entryCluster (dirRead s d) i)

/-- Slot `i` of directory `d` has a live entry. -/
def LiveEntry (s : State) (d i : ℕ) : Prop := LiveDir s d ∧ Listed (dirRead s d) i

/-- The table leads from cluster `a` to cluster `b`. -/
def Follows (s : State) (a b : ℕ) : Prop :=
  2 ≤ a ∧ a < maxCluster s ∧ fatGet s a = b ∧ b ≠ 0 ∧ b < endOfChain

/-- Cluster `c` is in the chain with first cluster `h`. -/
def InChain (s : State) (h c : ℕ) : Prop := 2 ≤ h ∧ Relation.ReflTransGen (Follows s) h c

/-- The number of zero entries in the table. -/
def freeEntries (s : State) : ℕ :=
  ((Finset.Ico 2 (maxCluster s)).filter fun c => fatEntry s 0 c = 0).card

/-- The volume is consistent. -/
structure Consistent (s : State) : Prop where
  /-- The two copies of the table are identical. -/
  copies : s.fatCount = 2 ∧ ∀ i < s.fatSectors,
    s.disk (s.volumeStart + s.reserved + s.fatSectors + i) = s.disk (s.volumeStart + s.reserved + i)
  /-- The counters are right, in memory and in both FSInfo sectors. -/
  counters : s.freeClusters = freeEntries s ∧ r32 (s.disk (s.volumeStart + 1)) 488 = freeEntries s ∧
    r32 (s.disk (s.volumeStart + 7)) 488 = freeEntries s
  /-- There is no free cluster below the hint. -/
  hint : ∀ c, 2 ≤ c → c < s.nextCluster → fatEntry s 0 c ≠ 0
  /-- `allocate` finds a free cluster if there is one. -/
  allocate_eq_zero : (allocate s).2 = 0 → ∀ c, 2 ≤ c → c < maxCluster s → fatEntry s 0 c ≠ 0
  /-- Two live entries share no cluster. -/
  chains : ∀ d i d' i' c, LiveEntry s d i → LiveEntry s d' i' →
    InChain s (entryCluster (dirRead s d) i) c → InChain s (entryCluster (dirRead s d') i') c →
    d = d' ∧ i = i'

theorem Geometry.freeEntries (h : Geometry s) : freeEntries s = freeCount s.fat := by
  rw [Fat.freeEntries, freeCount, Counting.count, h.maxCluster]
  congr 1
  refine Finset.filter_congr fun c hc => ?_
  rw [h.fatEntry (Finset.mem_Ico.mp hc).2]

end OS64.Fat
