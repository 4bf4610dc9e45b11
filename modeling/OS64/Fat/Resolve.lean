import OS64.Fat.Directories
import OS64.Fat.Fill

/-!
# The names of new directories

`disk_create` makes the 8.3 name of a directory from the last component of the path as it
stands. When the directory is then gone through, `parent_dir` first copies the component
to a buffer of thirteen bytes, and makes the name from that. The two names differ if a
dot comes late and an extension is cut, and then the new directory cannot be entered, or
another one is entered in its place.

A component that starts with the byte 0xe5 makes an entry that counts as deleted, and
such a directory is never found either. Apart from these two cases the new directory is
where its path leads to (`OS64.Fat.new_directory_resolves_iff`).
-/

namespace OS64.Fat

open List

variable {s s' : State} {D : Set ℕ} {n x : Path} {d c : ℕ}

/-! ### Longer paths -/

theorem skipCommon_append : ∀ {p n : Path} (m : Path), skipCommon p n ≠ [] → skipCommon p (n ++ m) = skipCommon p n ++ m
  | [], _, _, _ => rfl
  | _ :: _, [], _, h => absurd rfl h
  | p :: ps, c :: cs, m, h => by
    rw [cons_append, skipCommon, skipCommon]
    by_cases hc : c = p
    · rw [skipCommon, if_pos hc] at h
      rw [if_pos hc, if_pos hc, skipCommon_append m h]
    · rw [if_neg hc, if_neg hc, cons_append]

/-- A path that does not start with a slash has no mount point. -/
theorem rel_cons_of_ne {c : UInt8} (hc : c ≠ 47) (m : Path) : rel (c :: m) = c :: m := by
  rw [rel, if_neg fun hand => hc hand.1, chars, map_cons, skipCommon]
  exact if_neg hc

/-- What a path has after the mount point gets longer with it. -/
theorem rel_append (m : Path) (h : rel n ≠ []) : rel (n ++ m) = rel n ++ m := by
  match n, h with
  | [], h => exact absurd rfl h
  | [c], h =>
    -- a slash alone would be skipped
    have hc : c ≠ 47 := by
      rintro rfl
      exact h rfl
    rw [singleton_append, rel_cons_of_ne hc, rel_cons_of_ne hc, singleton_append]
  | c :: c' :: cs, h =>
    rw [rel] at h ⊢
    rw [rel]
    simp only [cons_append, getD_cons_zero, getD_cons_succ] at h ⊢
    split_ifs at h ⊢
    · exact skipCommon_append m h
    · exact skipCommon_append m h

/-- Splitting a list at the last separator. -/
theorem splitOn_append_of_notMem {sep : UInt8} (hx : sep ∉ x) : ∀ l : Path,
    (l ++ sep :: x).splitOn sep = l.splitOn sep ++ [x]
  | [] => by
    rw [splitOn_nil, splitOn_append_cons_self_of_not_mem not_mem_nil, splitOn_eq_singleton hx, singleton_append]
  | c :: l => by
    rw [cons_append, splitOn_cons_eq_if_modifyHead, splitOn_cons_eq_if_modifyHead, splitOn_append_of_notMem hx l]
    split
    · rw [cons_append]
    · rcases hl : l.splitOn sep with _ | ⟨p, ps⟩
      · exact absurd hl (splitOn_ne_nil sep l)
      · rfl

theorem rel_ne_nil_of_leafOf (h : leafOf n ≠ []) : rel n ≠ [] := by
  intro hrel
  rw [leafOf, hrel] at h
  exact h rfl

/-- The last component of a path is a directory for a longer one. -/
theorem components_append (h : leafOf n ≠ []) (hx : 47 ∉ x) :
    leafOf (n ++ 47 :: x) = x ∧ directoriesOf (n ++ 47 :: x) = directoriesOf n ++ [leafOf n] := by
  have hsplit : (rel (n ++ 47 :: x)).splitOn 47 = (rel n).splitOn 47 ++ [x] := by
    rw [rel_append _ (rel_ne_nil_of_leafOf h), splitOn_append_of_notMem hx]
  have hne := splitOn_ne_nil (47 : UInt8) (rel n)
  refine ⟨by rw [leafOf, hsplit, getLastD_concat], ?_⟩
  have hlast : ((rel n).splitOn 47).dropLast ++ [leafOf n] = (rel n).splitOn 47 := by
    rw [leafOf, getLastD_eq_getLast?, List.getLast?_eq_some_getLast hne, Option.getD_some, dropLast_append_getLast hne]
  rw [directoriesOf, hsplit, dropLast_concat, directoriesOf, ← hlast, dropLast_concat, filter_append, filter_singleton]
  simp [h]

/-! ### Walking through a new directory -/

theorem Volume.walk_append (V : Volume) : ∀ (ks : List (List UInt8)) (d : ℕ) (k : List UInt8),
    V.walk d (ks ++ [k]) = (V.walk d ks).bind fun d' => V.child d' k
  | [], d, k => by
    rw [nil_append, walk, walk, Option.bind_some]
    rcases V.child d k with _ | _
    · rfl
    · rfl
  | k' :: ks, d, k => by
    rw [cons_append, walk, walk]
    rcases V.child d k' with _ | d'
    · rfl
    · exact V.walk_append ks d' k

/-- The name under which a new directory is looked up is the one it was given. -/
def Resolvable (leaf : Path) : Prop := name83 (leaf.take 12) = name83 leaf ∧ (name83 leaf).getD 0 0 ≠ 0xe5

instance (leaf : Path) : Decidable (Resolvable leaf) := inferInstanceAs (Decidable (_ ∧ _))

/-- **The name of a new directory leads to it** exactly if it is the one that is looked up,
and does not count as deleted. -/
theorem Made.child_iff (h : Safe s D) (hm : Made s D s' d n c) (hd : d ∈ D) :
    s'.volume.child d (name83 (n.take 12)) = some c ↔ Resolvable n := by
  by_cases hname : name83 (n.take 12) = name83 n
  · rw [hname, Volume.child, hm.self, created]
    by_cases he5 : (name83 n).getD 0 0 = 0xe5
    · rw [if_pos he5]
      exact iff_of_false (by simp) fun hr => hr.2 he5
    · rw [if_neg he5]
      exact iff_of_true (by simp) ⟨hname, he5⟩
  · -- another name leads where it led, and that is not the new cluster
    refine iff_of_false (fun hchild => ?_) fun hr => hname hr.1
    have hdc : d ≠ c := by
      rintro rfl
      exact hm.notDir hd
    rw [Volume.child, hm.lookup d hdc _ fun heq => hname (Prod.mk.inj heq).2, ← Volume.child] at hchild
    exact hm.notDir (h.child_mem hd hchild)

/-- **The path of a file in a new directory leads to the directory exactly if its name is
the one that is looked up.** -/
theorem Made.parentDir_iff {D' : Set ℕ} (h : Safe s D) (h' : Safe s' D')
    (hp : parentDir s n = some (d, leafOf n)) (hm : Made s D s' d (leafOf n) c) (hx : x ≠ [])
    (hslash : 47 ∉ x) : parentDir s' (n ++ 47 :: x) = some (c, x) ↔ Resolvable (leafOf n) := by
  have hd := (h.parentDir hp).1
  rw [h.parentDir_eq] at hp
  split at hp
  · simp at hp
  rename_i hleaf
  obtain ⟨d', hwalk, heq⟩ := Option.map_eq_some_iff.mp hp
  cases heq
  obtain ⟨hleaf', hdirs⟩ := components_append hleaf hslash
  rw [h'.parentDir_eq, hleaf', if_neg hx, directories, hdirs, map_append, map_singleton,
    Volume.walk_append, hm.walk h _ h.sound.root hwalk, Option.bind_some, ← hm.child_iff h hd]
  simp

/-! ### Along a run -/

/-- **A directory just made is entered by its path exactly if its name survives being cut
to twelve characters and does not start with the mark of a deleted entry**, in every
state of a run in which no `disk_store_large` comes upon a directory. The cluster of the
directory is the one `allocate` gives. -/
theorem new_directory_resolves_iff (s₀ : State) {calls : List KernelCall}
    (hzero : ∀ call ∈ calls, call.ZeroFree)
    (hspares : Runs.Throughout (fun before call => call.SparesDirectories (kernelRun s₀ before)) calls)
    {n : Path} (hn : 0 ∉ n) {type : UInt8} (htype : type ≠ 0) {s' : State}
    (habsent : findEntry (kernelRun s₀ calls) n = none)
    (hres : diskCreate (kernelRun s₀ calls) n type = (s', true))
    {x : Path} (hx : x ≠ []) (hslash : 47 ∉ x) :
    parentDir s' (n ++ 47 :: x) = some ((allocate (kernelRun s₀ calls)).2, x) ↔
      name83 ((leafOf n).take 12) = name83 (leafOf n) ∧ (name83 (leafOf n)).getD 0 0 ≠ 0xe5 := by
  obtain ⟨D, h, -⟩ := safe_kernelRun s₀ hzero hspares
  rcases h.diskCreate_directory n htype with ⟨ok, hsame, hpresent⟩ | ⟨_, d, i, c, hcreated, hnew⟩
  · obtain ⟨-, rfl⟩ := Prod.mk.inj (hsame.symm.trans hres)
    exact absurd habsent (hpresent rfl)
  · obtain ⟨rfl, -⟩ := Prod.mk.inj (hcreated.symm.trans hres)
    obtain ⟨D', h', -⟩ := h.diskCreate hn type
    rw [hres] at h'
    rw [hnew.allocated]
    exact (hnew.made h hn).parentDir_iff h h' hnew.parent hx hslash

/-- On a new volume, the directory `a` has cluster 3, and `a/b` leads there. -/
theorem new_directory_entered :
    parentDir (diskCreate (diskFormat (State.initial fun _ => zero)) [97] 1).1 [97, 47, 98] = some (3, [98]) := by
  have halloc : (allocate (diskFormat (State.initial fun _ => zero))).2 = 3 := by
    rw [diskFormat_eq]
    decide +kernel
  have habsent : (findEntry (diskFormat (State.initial fun _ => zero)) [97]).map Prod.snd = none := by
    rw [diskFormat_eq]
    decide +kernel
  have hres : (diskCreate (diskFormat (State.initial fun _ => zero)) [97] 1).2 = true := by
    rw [diskFormat_eq]
    decide +kernel
  have hiff := @new_directory_resolves_iff (State.initial fun _ => zero) [] (by simp)
    (Runs.throughout_nil _) [97] (by decide) 1 (by decide) _ (Option.map_eq_none_iff.mp habsent)
    (eq_mk_true hres) [98] (by decide) (by decide)
  rw [← halloc]
  exact hiff.mpr (by decide)

/-- The directory `abcdefghij.abc` is made as `ABCDEFGH.ABC` and looked up as
`ABCDEFGH.A`. -/
theorem late_dot_not_entered :
    let s := diskFormat (State.initial fun _ => zero)
    let n := chars ['a', 'b', 'c', 'd', 'e', 'f', 'g', 'h', 'i', 'j', '.', 'a', 'b', 'c']
    (findEntry s n).map Prod.snd = none ∧ (diskCreate s n 1).2 = true ∧
      parentDir (diskCreate s n 1).1 (n ++ [47, 98]) = none := by
  simp only [diskFormat_eq]
  decide +kernel

end OS64.Fat
