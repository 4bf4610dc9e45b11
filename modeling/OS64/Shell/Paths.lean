import OS64.Lib.Paths
import OS64.Shell.Files

/-!
# Resolving a path

`resolve_path` joins the working directory and its argument and goes through the
components. It keeps no stack of them: what it has written so far is the stack, and `..`
moves the end of the output back to the separator before the last component. So behind a
`..` there is a separator at the end which is not there behind a name, and the next name is
written with or without one of its own.

`OS64.Shell.Shows` says which outputs stand for a stack of names, and one component changes
the output as it changes the stack (`OS64.Shell.Shows.step`). The output is then the stack
normalisation of the joined path (`OS64.Shell.resolvePath_eq`), as long as the joined path
fits into the buffer.
-/

namespace OS64.Shell

open List Paths Text
open Tree (normalizeStep)

/-! ### What it should do -/

/-- The path before it is normalised: blanks at the front are dropped, and a relative path
begins in the working directory. -/
def joinedPath (cwd input : Path) : Path :=
  let input := skipSpaces input
  if input.head? = some 47 then input else if cwd = [47] then 47 :: input else cwd ++ 47 :: input

/-- The stack of the components of a path: `.` is dropped, and `..` takes the last one
away, if there is one. -/
def componentStack (p : Path) : List Path := Tree.normalize [46] [46, 46] (parts 47 p)

/-- A component that a normalised path may have. -/
def PathName (m : Path) : Prop := Proper 47 m ∧ Tree.Plain [46] [46, 46] m

/-- An absolute path in normal form. -/
def Canonical (p : Path) : Prop := ∃ ms, (∀ m ∈ ms, PathName m) ∧ p = render 47 ms

/-! ### Outputs -/

/-- The output stands for a stack of names: it is their path, or their path with a slash at
the end. -/
def Shows (out : Path) (ms : List Path) : Prop :=
  out = render 47 ms ∨ (ms ≠ [] ∧ out = joined 47 ms ++ [47])

variable {ms cs : List Path} {cwd input p : Path}

theorem render_of_ne_nil (h : ms ≠ []) : render 47 ms = joined 47 ms := by
  rw [render, if_neg (by simpa using h)]

theorem getLast?_joined (hms : ∀ m ∈ ms, PathName m) (hne : ms ≠ []) : (joined 47 ms).getLast? ≠ some 47 := by
  obtain ⟨ms, m, rfl⟩ := (eq_nil_or_concat ms).resolve_left hne
  rw [concat_eq_append] at hms ⊢
  obtain ⟨⟨hm, hslash⟩, -⟩ := hms m (by simp)
  rw [joined_concat, List.getLast?_append_of_ne_nil _ (cons_ne_nil _ _), List.getLast?_cons_of_ne_nil hm]
  exact fun hlast => hslash (mem_of_getLast? hlast)

theorem one_lt_length_joined (hms : ∀ m ∈ ms, PathName m) (hne : ms ≠ []) : 1 < (joined 47 ms).length := by
  obtain ⟨m, ms, rfl⟩ := exists_cons_of_ne_nil hne
  have hm := length_pos_of_ne_nil (hms m mem_cons_self).1.1
  rw [joined_cons, length_cons, length_append]
  omega

/-- The end is moved back to the separator before the last name. -/
theorem dropWhile_concat {x m : Path} (hm : 47 ∉ m) :
    ((x ++ 47 :: m).reverse.dropWhile (· != 47)).reverse = x ++ [47] := by
  rw [reverse_append, reverse_cons, append_assoc, dropWhile_append_of_pos]
  · simp
  · intro c hc
    exact bne_iff_ne.mpr fun heq => hm (heq ▸ mem_reverse.mp hc)

/-- The path of the names that are left, behind which a separator stays. -/
theorem shows_joined_slash (ms : List Path) : Shows (joined 47 ms ++ [47]) ms := by
  by_cases hne : ms = []
  · exact .inl (by rw [hne]; rfl)
  · exact .inr ⟨hne, rfl⟩

variable {out : Path} {ms : List Path} {c : Path}

/-- **`..` takes the last name away.** -/
theorem Shows.pop (h : Shows out ms) (hms : ∀ m ∈ ms, PathName m) : Shows (popComponent out) ms.dropLast := by
  rcases eq_nil_or_concat ms with rfl | ⟨ms, m, rfl⟩
  · obtain rfl : out = [47] := h.resolve_right fun h => h.1 rfl
    exact .inl rfl
  rw [concat_eq_append] at h hms ⊢
  obtain ⟨⟨hm, hslash⟩, -⟩ := hms m (by simp)
  have hlong := one_lt_length_joined hms (by simp)
  rw [dropLast_concat]
  refine (congrArg (Shows · ms) ?_).mpr (shows_joined_slash ms)
  rcases h with rfl | ⟨-, rfl⟩
  · rw [render_of_ne_nil (by simp), popComponent, if_pos hlong, joined_concat,
      dropLast_append_of_ne_nil (cons_ne_nil _ _), dropLast_cons_of_ne_nil hm]
    exact dropWhile_concat fun hmem => hslash (dropLast_subset _ hmem)
  · rw [popComponent, if_pos (by rw [length_append]; omega), dropLast_concat, joined_concat]
    exact dropWhile_concat hslash

/-- **A name is put behind the others**, if it fits. -/
theorem Shows.push (h : Shows out ms) (hms : ∀ m ∈ ms, PathName m) (hfits : out.length + c.length + 1 ≤ 127) :
    pushComponent out c = joined 47 (ms ++ [c]) := by
  have htake : ∀ x : Path, x.length ≤ out.length + 1 → c.take (127 - x.length) = c :=
    fun x hx => take_of_length_le (by omega)
  rw [joined_concat, pushComponent]
  rcases h with rfl | ⟨hne, rfl⟩
  · by_cases hne : ms = []
    · subst hne
      rw [if_neg fun hand => absurd hand.1 (by decide), htake _ (Nat.le_succ _)]
      rfl
    · rw [render_of_ne_nil hne] at htake ⊢
      rw [if_pos ⟨one_lt_length_joined hms hne, getLast?_joined hms hne⟩,
        htake _ (by rw [length_append, length_singleton]), append_assoc, singleton_append]
  · rw [if_neg fun hand => hand.2 (by simp), htake _ (Nat.le_succ _), append_assoc, singleton_append]

theorem length_popComponent_le (out : Path) : (popComponent out).length ≤ out.length := by
  rw [popComponent]
  split
  · rw [length_reverse]
    refine (dropWhile_sublist _).length_le.trans ?_
    rw [length_reverse, length_dropLast]
    omega
  · exact le_rfl

theorem length_pushComponent_le (out c : Path) : (pushComponent out c).length ≤ out.length + c.length + 1 := by
  have hlength : ∀ x : Path, (x ++ c.take (127 - x.length)).length ≤ x.length + c.length := by
    intro x
    rw [length_append]
    exact Nat.add_le_add_left (length_take_le' _ _) _
  rw [pushComponent]
  split
  · refine (hlength _).trans ?_
    rw [length_append, length_singleton]
    omega
  · exact (hlength _).trans (Nat.le_succ _)

/-- The stack keeps to the names a normalised path may have. -/
theorem pathName_step (hms : ∀ m ∈ ms, PathName m) (hc : Proper 47 c) :
    ∀ m ∈ normalizeStep [46] [46, 46] ms c, PathName m := by
  intro m hm
  rw [normalizeStep] at hm
  split_ifs at hm with hdot hdotdot
  · exact hms m hm
  · exact hms m (dropLast_subset _ hm)
  · rcases mem_append.mp hm with hm | hm
    · exact hms m hm
    · rw [mem_singleton.mp hm]
      exact ⟨hc, hdot, hdotdot⟩

theorem pathName_steps (hms : ∀ m ∈ ms, PathName m) (hcs : ∀ c ∈ cs, Proper 47 c) :
    ∀ m ∈ cs.foldl (normalizeStep [46] [46, 46]) ms, PathName m := by
  induction cs generalizing ms with
  | nil => exact hms
  | cons c cs ih =>
    obtain ⟨hc, hcs⟩ := forall_mem_cons.mp hcs
    exact ih (pathName_step hms hc) hcs

theorem pathName_componentStack (p : Path) : ∀ m ∈ componentStack p, PathName m :=
  pathName_steps (by simp) fun _ hc => proper_of_mem_parts hc

/-- **One component** changes the output as it changes the stack. -/
theorem Shows.step (h : Shows out ms) (hms : ∀ m ∈ ms, PathName m) (hfits : out.length + c.length + 1 ≤ 127) :
    Shows (resolveStep out c) (normalizeStep [46] [46, 46] ms c) ∧
      (resolveStep out c).length ≤ out.length + c.length + 1 := by
  rw [resolveStep, normalizeStep]
  split_ifs with hdot hdotdot
  · exact ⟨h, by omega⟩
  · exact ⟨h.pop hms, (length_popComponent_le out).trans (by omega)⟩
  · refine ⟨.inl ?_, length_pushComponent_le out c⟩
    rw [h.push hms hfits, render_of_ne_nil (by simp)]

/-- **The loop of `resolve_path`**, as long as the components fit. -/
theorem Shows.steps (h : Shows out ms) (hms : ∀ m ∈ ms, PathName m) (hcs : ∀ c ∈ cs, Proper 47 c)
    (hfits : out.length + (joined 47 cs).length ≤ 127) :
    Shows (cs.foldl resolveStep out) (cs.foldl (normalizeStep [46] [46, 46]) ms) := by
  induction cs generalizing out ms with
  | nil => exact h
  | cons c cs ih =>
    obtain ⟨hc, hcs⟩ := forall_mem_cons.mp hcs
    rw [joined_cons, length_cons, length_append] at hfits
    obtain ⟨hstep, hlength⟩ := h.step (c := c) hms (by omega)
    exact ih hstep (pathName_step hms hc) hcs (by omega)

/-- The slash at the end is taken away. -/
theorem Shows.trim (h : Shows out ms) (hms : ∀ m ∈ ms, PathName m) :
    (if out.length > 1 ∧ out.getLast? = some 47 then out.dropLast else out) = render 47 ms := by
  rcases h with rfl | ⟨hne, rfl⟩
  · refine if_neg fun hand => ?_
    by_cases hne : ms = []
    · rw [hne] at hand
      exact absurd hand.1 (by decide)
    · rw [render_of_ne_nil hne] at hand
      exact getLast?_joined hms hne hand.2
  · have hlong : (joined 47 ms ++ [47]).length > 1 := by
      have hjoined := one_lt_length_joined hms hne
      rw [length_append]
      omega
    rw [if_pos ⟨hlong, by simp⟩, dropLast_concat, render_of_ne_nil hne]

/-! ### The joined path -/

/-- The working directory and the argument are joined in a buffer of 128 characters. -/
theorem resolveRaw_eq (hcwd : Canonical cwd) (hlen : (joinedPath cwd input).length ≤ 126) :
    resolveRaw cwd (skipSpaces input) = joinedPath cwd input := by
  obtain ⟨ms, hms, rfl⟩ := hcwd
  rw [joinedPath] at hlen ⊢
  rw [resolveRaw]
  by_cases habs : (skipSpaces input).head? = some 47
  · rw [if_pos habs] at hlen ⊢
    rw [if_pos habs, nil_append, length_nil, take_of_length_le (by omega)]
  rw [if_neg habs] at hlen ⊢
  rw [if_neg habs]
  by_cases hne : ms = []
  · subst hne
    rw [show render 47 [] = [(47 : UInt8)] from rfl] at hlen ⊢
    rw [if_pos rfl] at hlen ⊢
    rw [length_cons] at hlen
    rw [if_neg (by decide), show List.take 127 [(47 : UInt8)] = [47] from rfl,
      take_of_length_le (by rw [length_singleton]; omega), singleton_append]
  · rw [render_of_ne_nil hne] at hlen ⊢
    have hlong := one_lt_length_joined hms hne
    have hroot : joined 47 ms ≠ [47] := by
      intro heq
      rw [heq, length_singleton] at hlong
      exact absurd hlong (lt_irrefl 1)
    rw [if_neg hroot] at hlen ⊢
    rw [length_append, length_cons] at hlen
    have hshort : (joined 47 ms).take 127 = joined 47 ms := take_of_length_le (by omega)
    rw [hshort, if_pos ⟨hlong, getLast?_joined hms hne⟩,
      take_of_length_le (by rw [length_append, length_singleton]; omega), append_assoc,
      singleton_append]

theorem head?_render (ms : List Path) : (render 47 ms).head? = some (47 : UInt8) := by
  cases ms with
  | nil => rfl
  | cons m ms => rfl

theorem head?_joinedPath (hcwd : Canonical cwd) (input : Path) : (joinedPath cwd input).head? = some 47 := by
  obtain ⟨ms, -, rfl⟩ := hcwd
  rw [joinedPath]
  split_ifs with habs
  · exact habs
  · rfl
  · rw [List.head?_append, head?_render, Option.some_or]

/-- **`resolve_path` is the stack normalisation** of the joined path. -/
theorem resolvePath_eq (hcwd : Canonical cwd) (hlen : (joinedPath cwd input).length ≤ 126) :
    resolvePath cwd input = render 47 (componentStack (joinedPath cwd input)) := by
  have hparts : ((joinedPath cwd input).splitOn 47).filter (· ≠ []) = parts 47 (joinedPath cwd input) := by
    refine filter_congr fun c _ => ?_
    cases c <;> rfl
  have hfits := length_joined_parts_le (head?_joinedPath hcwd input)
  have hstart : Shows [47] [] := .inl rfl
  have hshows := hstart.steps (by simp) (fun c hc => proper_of_mem_parts hc)
    (show [(47 : UInt8)].length + (joined 47 (parts 47 (joinedPath cwd input))).length ≤ 127 by
      rw [length_singleton]; omega)
  rw [resolvePath, resolveRaw_eq hcwd hlen, hparts]
  exact hshows.trim (pathName_componentStack _)

/-! ### Normal forms -/

/-- A normal form is the path of its own stack. -/
theorem componentStack_render (hms : ∀ m ∈ ms, PathName m) : componentStack (render 47 ms) = ms := by
  have hparts : parts 47 (render 47 ms) = ms := by
    by_cases hne : ms = []
    · rw [hne]
      rfl
    · rw [render_of_ne_nil hne]
      exact parts_joined fun m hm => (hms m hm).1
  rw [componentStack, hparts]
  exact Tree.normalize_of_plain fun m hm => (hms m hm).2

theorem length_joined_steps_le (cs ms : List Path) :
    (joined 47 (cs.foldl (normalizeStep [46] [46, 46]) ms)).length ≤
      (joined 47 ms).length + (joined 47 cs).length := by
  induction cs generalizing ms with
  | nil => exact Nat.le_add_right _ _
  | cons c cs ih =>
    have hstep : (joined 47 (normalizeStep [46] [46, 46] ms c)).length ≤
        (joined 47 ms).length + (c.length + 1) := by
      rw [normalizeStep]
      split_ifs
      · exact Nat.le_add_right _ _
      · rcases eq_nil_or_concat ms with rfl | ⟨ms, m, rfl⟩
        · exact Nat.zero_le _
        · rw [concat_eq_append, dropLast_concat, joined_concat, length_append]
          omega
      · rw [joined_concat, length_append, length_cons]
    refine (ih _).trans ?_
    rw [joined_cons, length_cons, length_append]
    omega

/-- The normal form is not longer than the path. -/
theorem length_render_componentStack_le (hp : p.head? = some 47) :
    (render 47 (componentStack p)).length ≤ p.length := by
  rw [render]
  split_ifs
  · cases p with
    | nil => simp at hp
    | cons c p => simp
  · refine (length_joined_steps_le _ _).trans ?_
    rw [show joined 47 ([] : List Path) = [] from rfl, length_nil, zero_add]
    exact length_joined_parts_le hp

theorem skipSpaces_of_head? (hp : p.head? = some 47) : skipSpaces p = p := by
  cases p with
  | nil => rfl
  | cons c p =>
    obtain rfl : c = 47 := Option.some.inj hp
    rfl

/-- **`resolve_path` gives the normal form of the joined path**, which begins with a slash
and has no empty or special component and, unless it is the root, no slash at its end; to
resolve it again changes nothing. -/
theorem resolvePath_canonical {cwd input : Path} (hcwd : Canonical cwd)
    (hlen : (joinedPath cwd input).length ≤ 126) :
    resolvePath cwd input = render 47 (componentStack (joinedPath cwd input)) ∧
      (resolvePath cwd input).head? = some 47 ∧
      (resolvePath cwd input = [47] ∨
        ((∀ c ∈ ((resolvePath cwd input).drop 1).splitOn 47, c ≠ [] ∧ c ≠ [46] ∧ c ≠ [46, 46]) ∧
          (resolvePath cwd input).getLast? ≠ some 47)) ∧
      resolvePath cwd (resolvePath cwd input) = resolvePath cwd input := by
  have heq := resolvePath_eq hcwd hlen
  have hnames := pathName_componentStack (joinedPath cwd input)
  have hshort := length_render_componentStack_le (head?_joinedPath hcwd input)
  generalize componentStack (joinedPath cwd input) = ms at heq hnames hshort
  rw [heq]
  refine ⟨rfl, head?_render ms, ?_, ?_⟩
  · by_cases hne : ms = []
    · exact .inl (by rw [hne]; rfl)
    · refine .inr ?_
      rw [render_of_ne_nil hne]
      refine ⟨?_, getLast?_joined hnames hne⟩
      obtain ⟨m, ms, rfl⟩ := exists_cons_of_ne_nil hne
      obtain ⟨hm, hms⟩ := forall_mem_cons.mp hnames
      rw [joined_cons, drop_one, tail_cons, splitOn_append_joined hm.1.2 fun m hm => (hms m hm).1.2]
      exact fun c hc => ⟨(hnames c hc).1.1, (hnames c hc).2⟩
  · have hself : joinedPath cwd (render 47 ms) = render 47 ms := by
      rw [joinedPath, skipSpaces_of_head? (head?_render ms), if_pos (head?_render ms)]
    rw [resolvePath_eq hcwd (by rw [hself]; omega), hself, componentStack_render hnames]

/-- In `/usr`, the path ` ../home//./os64/` is resolved to `/home/os64`. -/
theorem resolvePath_canonical_usr :
    Canonical (chars ['/', 'u', 's', 'r']) ∧
      resolvePath (chars ['/', 'u', 's', 'r'])
          (chars [' ', '.', '.', '/', 'h', 'o', 'm', 'e', '/', '/', '.', '/', 'o', 's', '6', '4', '/']) =
        chars ['/', 'h', 'o', 'm', 'e', '/', 'o', 's', '6', '4'] := by
  have hcwd : Canonical (chars ['/', 'u', 's', 'r']) := by
    refine ⟨[chars ['u', 's', 'r']], ?_, rfl⟩
    simp only [mem_singleton, forall_eq]
    exact ⟨⟨by decide, by decide⟩, by decide, by decide⟩
  refine ⟨hcwd, ?_⟩
  rw [(resolvePath_canonical hcwd (by decide)).1]
  decide

end OS64.Shell
