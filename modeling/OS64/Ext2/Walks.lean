import OS64.Ext2.Making

/-!
# Walks that make directories

`ext2_store` follows its path component by component, and where `dir_find` finds
nothing it calls `make_dir` and goes on in the new directory. `OS64.Ext2.Walk` is
such a walk, with the number of the directories it has made; it may get stuck at one
that cannot be made (`OS64.Ext2.Stuck`), and then keeps those before.

Nothing keeps the walk inside the tree. A component below a regular file is not
found there, so a directory is made in the file, and the walk continues in a place
that no path leads to; with `..` it comes back to the file. What can be said of all
walks is that they stay in a set of nodes in use (`Tree.Closed`), so that what is
found at the end is an inode in use (`OS64.Ext2.Good.wp_walkFrom`).
-/

namespace OS64.Ext2

open ByteMem Bits Fallible Pointers

/-- A walk over some names from `cur` to `d`, on which `m` directories are made. -/
inductive Walk : View → ℕ → List Path → ℕ → View → ℕ → Prop
  | here (v : View) (cur : ℕ) : Walk v cur [] 0 v cur
  | found {v v' : View} {cur next m d : ℕ} {name : Path} {names : List Path}
    (hlook : v.look cur name = some next) (h : Walk v next names m v' d) : Walk v cur (name :: names) m v' d
  | made {v v₁ v' : View} {cur i m d : ℕ} {name : Path} {names : List Path}
    (hlook : v.look cur name = none) (hm : Making v cur name (some i) v₁) (h : Walk v₁ i names m v' d) :
    Walk v cur (name :: names) (m + 1) v' d

/-- The walk cannot go on from `t`, after `m` directories: the next one is not
made. -/
def Stuck (v : View) (cur : ℕ) (names : List Path) (m : ℕ) (t v' : View) : Prop :=
  ∃ ns name rest d, names = ns ++ name :: rest ∧ Walk v cur ns m t d ∧ t.look d name = none ∧
    Making t d name none v'

variable {v v' t : View} {cur m d : ℕ} {names : List Path}

variable {A : Set ℕ} {name : Path} {Q : Walked → State → Prop} {P : ℕ → ℕ}

/-- The walk stays among nodes in use, on a sound volume. -/
theorem Walk.sound (hw : Walk v cur names m v' d) (h : Sound v fun _ => 0)
    (hA : Tree.Closed v.dirs A) (hcur : cur ∈ A) :
    Sound v' (fun _ => 0) ∧ ∃ A', Tree.Closed v'.dirs A' ∧ d ∈ A' := by
  induction hw generalizing A with
  | here v cur => exact ⟨h, A, hA, hcur⟩
  | found hlook hw ih => exact ih h hA ((hA _ hcur).2 _ _ hlook)
  | made hlook hm hw ih =>
    exact ih (hm.sound h (hA _ hcur).1 hlook) (hm.closed h hlook hA hcur) (.inl rfl)

/-- A step before a walk that gets stuck. -/
theorem Stuck.found {next : ℕ} (hlook : v.look cur name = some next)
    (h : Stuck v next names m t v') : Stuck v cur (name :: names) m t v' := by
  obtain ⟨ns, name', rest, d, rfl, hw, hnone, hm⟩ := h
  exact ⟨name :: ns, name', rest, d, rfl, hw.found hlook, hnone, hm⟩

theorem Stuck.made {i : ℕ} {v₁ : View} (hlook : v.look cur name = none)
    (hmk : Making v cur name (some i) v₁) (h : Stuck v₁ i names m t v') :
    Stuck v cur (name :: names) (m + 1) t v' := by
  obtain ⟨ns, name', rest, d, rfl, hw, hnone, hm⟩ := h
  exact ⟨name :: ns, name', rest, d, rfl, hw.made hlook hmk, hnone, hm⟩

/-! ### The loop -/

variable {s : State} {E : State → Prop}

/-- The end of the loop of `walk`. -/
theorem Good.wp_walkFrom_leaf (h : Good s P) (create : Bool)
    (cur : ℕ) (leaf : Path) (hQ : Q ⟨cur, leaf, (s.view.look cur leaf).getD 0⟩ s) :
    wp (walkFrom create cur [leaf]) Q E s := by
  rw [walkFrom, wp_bind, wp_recover, wp, h.run_dirFind]
  cases hlook : s.view.look cur leaf with
  | none =>
    rw [hlook] at hQ
    exact hQ
  | some i =>
    rw [hlook] at hQ
    exact hQ

/-- **The loop of `walk`** follows the names, and makes the directories that are
missing, or gets stuck. -/
theorem Good.wp_walkFrom (leaf : Path) (names : List Path)
    (h : Good s fun _ => 0) (hA : Tree.Closed s.view.dirs A) (hcur : cur ∈ A)
    (hQ : ∀ m d s', Good s' (fun _ => 0) → Walk s.view cur names m s'.view d →
      Q ⟨d, leaf, (s'.view.look d leaf).getD 0⟩ s')
    (hE : ∀ m t s', Good s' (fun _ => 0) → Stuck s.view cur names m t s'.view → E s') :
    wp (walkFrom true cur (names ++ [leaf])) Q E s := by
  induction names generalizing s A cur with
  | nil => exact h.wp_walkFrom_leaf true cur leaf (hQ 0 cur s h (Walk.here _ _))
  | cons name names ih =>
    rw [List.cons_append, walkFrom_cons, wp_bind, wp_recover, wp, h.run_dirFind]
    cases hlook : s.view.look cur name with
    | some next =>
      refine ih h hA ((hA cur hcur).2 name next hlook) ?_ ?_
      · exact fun m d s' h' hw => hQ m d s' h' (hw.found hlook)
      · exact fun m t s' h' hstuck => hE m t s' h' (hstuck.found hlook)
    | none =>
      simp only [if_true]
      rw [wp_bind]
      refine h.wp_makeDir (hA cur hcur).1 hlook ?_ ?_
      · intro i s₁ h₁ hm
        refine ih h₁ (hm.closed h.sound hlook hA hcur) (.inl rfl) ?_ ?_
        · exact fun m d s' h' hw => hQ (m + 1) d s' h' (hw.made hlook hm)
        · exact fun m t s' h' hstuck => hE (m + 1) t s' h' (hstuck.made hlook hm)
      · intro s' h' hm
        exact hE 0 s.view s' h' ⟨[], name, names, cur, rfl, Walk.here _ _, hlook, hm⟩

/-- The nodes that the root leads to, where the walk begins. -/
theorem Good.closed_reached (h : Good s P) :
    Tree.Closed s.view.dirs (Tree.reached rootIno s.view.dirs) := h.sound.tree.closed_reached

/-- **`walk`**, when it is to make directories. -/
theorem Good.wp_walk (h : Good s fun _ => 0) {path : Path} (hroot : components path = [] → Q ⟨0, [], rootIno⟩ s)
    (hQ : ∀ names leaf m d s', components path = names ++ [leaf] → Good s' (fun _ => 0) →
      Walk s.view rootIno names m s'.view d → Q ⟨d, leaf, (s'.view.look d leaf).getD 0⟩ s')
    (hE : ∀ names leaf m t s', components path = names ++ [leaf] → Good s' (fun _ => 0) →
      Stuck s.view rootIno names m t s'.view → E s') : wp (walk true path) Q E s := by
  rw [walk]
  rcases List.eq_nil_or_concat (components path) with hnil | ⟨names, leaf, hconcat⟩
  · rw [hnil]
    exact hroot hnil
  · rw [List.concat_eq_append] at hconcat
    rw [hconcat]
    refine h.wp_walkFrom leaf names h.closed_reached Tree.root_mem_reached ?_ ?_
    · exact fun m d s' => hQ names leaf m d s' hconcat
    · exact fun m t s' => hE names leaf m t s' hconcat

end OS64.Ext2
