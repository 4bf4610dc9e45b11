import Mathlib.Data.List.Basic
import Mathlib.Data.List.Induction

/-!
# Directory trees

A tree of directories as it is stored: a table of nodes, some of them in use, some
of them directories, and for every directory the entries by name. Two names are
not like the others: one leads back to the directory itself, and one to the
directory above. `Tree.IsTree` says what makes such a table a tree: apart from
these two names every node has at most one entry, and the way up is the way down
backwards. A directory without an entry is possible, and what is above such a
directory is left open: it may have been anything, and may be gone by now. No path
from the root leads there (`Tree.IsTree.closed_reached`).

* **One path for a node** (`Tree.IsTree.resolve_inj`): of the paths without the
  two special names at most one leads to a given node.
* **The way up can be left out** (`Tree.IsTree.resolve_normalize`): a path with
  special names leads where the path leads that is left when they are cancelled.
* **What a change does to the paths** (`Tree.IsTree.resolve_link`,
  `Tree.IsTree.resolve_unlink`): one entry more or less is one path more or less.
-/

namespace Tree

open List Option

variable {ι ν : Type*}

/-! ### Following names -/

/-- The node that some names lead to. -/
def resolve (look : ι → ν → Option ι) : ι → List ν → Option ι
  | i, [] => some i
  | i, n :: ns => (look i n).bind fun j => resolve look j ns

theorem resolve_append (look : ι → ν → Option ι) (i : ι) (ms ns : List ν) :
    resolve look i (ms ++ ns) = (resolve look i ms).bind fun j => resolve look j ns := by
  induction ms generalizing i with
  | nil => rfl
  | cons m ms ih =>
    rw [cons_append, resolve, resolve, bind_assoc]
    exact congrArg _ (funext fun j => ih j)

theorem resolve_concat (look : ι → ν → Option ι) (i : ι) (ns : List ν) (n : ν) :
    resolve look i (ns ++ [n]) = (resolve look i ns).bind fun j => look j n := by
  rw [resolve_append]
  exact congrArg _ (funext fun j => bind_fun_some _)

/-! ### Tables of directories -/

/-- The nodes in use, those that are directories, and the entries. -/
structure Dirs (ι ν : Type*) where
  used : ι → Prop
  dir : ι → Prop
  look : ι → ν → Option ι

variable {dot dotdot : ν} {root : ι} {t t' : Dirs ι ν}

/-- Not one of the two special names. -/
def Plain (dot dotdot n : ν) : Prop := n ≠ dot ∧ n ≠ dotdot

/-- The table is a tree. -/
structure IsTree (dot dotdot : ν) (root : ι) (t : Dirs ι ν) : Prop where
  dir_used : ∀ {d}, t.dir d → t.used d
  root_dir : t.dir root
  look_dir : ∀ {d n i}, t.look d n = some i → t.dir d
  look_dot : ∀ {d}, t.dir d → t.look d dot = some d
  look_dotdot : ∀ {d}, t.dir d → ∃ p, t.look d dotdot = some p
  named : ∀ {d n i}, t.look d n = some i → Plain dot dotdot n → t.used i ∧ i ≠ root
  once : ∀ {d n d' n' i}, t.look d n = some i → t.look d' n' = some i → Plain dot dotdot n →
    Plain dot dotdot n' → d = d' ∧ n = n'
  parent : ∀ {d n i}, t.look d n = some i → Plain dot dotdot n → t.dir i → t.look i dotdot = some d
  root_parent : t.look root dotdot = some root

namespace IsTree

variable (h : IsTree dot dotdot root t)

include h

/-- **One path for a node.** -/
theorem resolve_inj {ms ns : List ν} {i : ι} (hms : ∀ n ∈ ms, Plain dot dotdot n)
    (hns : ∀ n ∈ ns, Plain dot dotdot n) (hm : resolve t.look root ms = some i)
    (hn : resolve t.look root ns = some i) : ms = ns := by
  -- from the end: the last entry is the only one of its node
  induction ms using List.reverseRecOn generalizing ns i with
  | nil =>
    obtain rfl : root = i := some.inj hm
    rcases eq_nil_or_concat ns with rfl | ⟨ns, n, rfl⟩
    · rfl
    · rw [concat_eq_append] at hn hns
      rw [resolve_concat] at hn
      obtain ⟨d, -, hd⟩ := bind_eq_some_iff.1 hn
      exact absurd rfl (h.named hd (hns n (by simp))).2
  | append_singleton ms m ih =>
    rw [resolve_concat] at hm
    obtain ⟨d, hd, hdm⟩ := bind_eq_some_iff.1 hm
    have hplain := hms m (by simp)
    rcases eq_nil_or_concat ns with rfl | ⟨ns, n, rfl⟩
    · obtain rfl : root = i := some.inj hn
      exact absurd rfl (h.named hdm hplain).2
    · rw [concat_eq_append] at hn hns ⊢
      rw [resolve_concat] at hn
      obtain ⟨d', hd', hdn⟩ := bind_eq_some_iff.1 hn
      obtain ⟨rfl, rfl⟩ := h.once hdm hdn hplain (hns n (by simp))
      rw [ih (fun x hx => hms x (by simp [hx])) (fun x hx => hns x (by simp [hx])) hd hd']

end IsTree

/-! ### Paths with special names -/

section Normalize

variable [DecidableEq ν]

/-- A name is added to a path without special names, or cancels the last one. -/
def normalizeStep (dot dotdot : ν) (ms : List ν) (n : ν) : List ν :=
  if n = dot then ms else if n = dotdot then ms.dropLast else ms ++ [n]

/-- The path without its special names. -/
def normalize (dot dotdot : ν) (ns : List ν) : List ν := ns.foldl (normalizeStep dot dotdot) []

theorem normalize_concat (ns : List ν) (n : ν) :
    normalize dot dotdot (ns ++ [n]) = normalizeStep dot dotdot (normalize dot dotdot ns) n := by
  rw [normalize, foldl_append]
  rfl

variable {ms ns : List ν}

theorem plain_normalizeStep (hms : ∀ m ∈ ms, Plain dot dotdot m) (n : ν) :
    ∀ m ∈ normalizeStep dot dotdot ms n, Plain dot dotdot m := by
  rw [normalizeStep]
  split_ifs with hdot hdotdot
  · exact hms
  · exact fun m hm => hms m (dropLast_subset _ hm)
  · intro m hm
    rcases mem_append.1 hm with hm | hm
    · exact hms m hm
    · rw [mem_singleton.1 hm]
      exact ⟨hdot, hdotdot⟩

theorem plain_foldl_normalizeStep (ns : List ν) (hms : ∀ m ∈ ms, Plain dot dotdot m) :
    ∀ m ∈ ns.foldl (normalizeStep dot dotdot) ms, Plain dot dotdot m := by
  induction ns generalizing ms with
  | nil => exact hms
  | cons n ns ih => exact ih (plain_normalizeStep hms n)

theorem plain_normalize (ns : List ν) : ∀ n ∈ normalize dot dotdot ns, Plain dot dotdot n :=
  plain_foldl_normalizeStep ns (by simp)

/-- A path without special names stays as it is. -/
theorem normalize_of_plain (hns : ∀ n ∈ ns, Plain dot dotdot n) : normalize dot dotdot ns = ns := by
  induction ns using List.reverseRecOn with
  | nil => rfl
  | append_singleton ns n ih =>
    obtain ⟨hdot, hdotdot⟩ := hns n (by simp)
    rw [normalize_concat, ih fun m hm => hns m (by simp [hm]), normalizeStep, if_neg hdot, if_neg hdotdot]

/-- One name further along a path without special names. -/
theorem IsTree.resolve_normalizeStep (h : IsTree dot dotdot root t) {n : ν} {d i : ι}
    (hms : ∀ m ∈ ms, Plain dot dotdot m) (hd : resolve t.look root ms = some d)
    (hdn : t.look d n = some i) : resolve t.look root (normalizeStep dot dotdot ms n) = some i := by
  have hdir := h.look_dir hdn
  rw [normalizeStep]
  split_ifs with hdot hdotdot
  · rw [hdot, h.look_dot hdir] at hdn
    rw [hd, hdn]
  · rw [hdotdot] at hdn
    rcases eq_nil_or_concat ms with rfl | ⟨ms, m, rfl⟩
    · -- above the root is the root
      obtain rfl : root = d := some.inj hd
      rw [h.root_parent] at hdn
      exact hdn
    · rw [concat_eq_append] at hd hms ⊢
      rw [resolve_concat] at hd
      obtain ⟨e, he, hem⟩ := bind_eq_some_iff.1 hd
      rw [h.parent hem (hms m (by simp)) hdir] at hdn
      rw [dropLast_concat, he, hdn]
  · rw [resolve_concat, hd]
    exact hdn

/-- **The way up can be left out.** -/
theorem IsTree.resolve_normalize (h : IsTree dot dotdot root t) {i : ι} (hres : resolve t.look root ns = some i) :
    resolve t.look root (normalize dot dotdot ns) = some i := by
  induction ns using List.reverseRecOn generalizing i with
  | nil => exact hres
  | append_singleton ns n ih =>
    rw [resolve_concat] at hres
    obtain ⟨d, hd, hdn⟩ := bind_eq_some_iff.1 hres
    rw [normalize_concat]
    exact h.resolve_normalizeStep (plain_normalize ns) (ih hd) hdn

end Normalize

/-! ### What the root leads to -/

/-- A set of nodes in use that no entry leads out of. -/
def Closed (t : Dirs ι ν) (A : Set ι) : Prop := ∀ d ∈ A, t.used d ∧ ∀ n i, t.look d n = some i → i ∈ A

/-- The nodes that some path from the root leads to. -/
def reached (root : ι) (t : Dirs ι ν) : Set ι := {i | ∃ ns, resolve t.look root ns = some i}

theorem root_mem_reached : root ∈ reached root t := ⟨[], rfl⟩

namespace IsTree

variable [DecidableEq ν] (h : IsTree dot dotdot root t)

include h

variable {i : ι}

/-- Every such node but the root has an entry in another one. -/
theorem eq_root_or_entry (hi : i ∈ reached root t) :
    i = root ∨ ∃ d n, d ∈ reached root t ∧ t.look d n = some i ∧ Plain dot dotdot n := by
  obtain ⟨ns, hres⟩ := hi
  have hres' := h.resolve_normalize hres
  have hplain : ∀ n ∈ normalize dot dotdot ns, Plain dot dotdot n := plain_normalize ns
  rcases eq_nil_or_concat (normalize dot dotdot ns) with hnil | ⟨ms, m, hconcat⟩
  · rw [hnil] at hres'
    exact .inl (some.inj hres').symm
  · rw [hconcat, concat_eq_append] at hres' hplain
    rw [resolve_concat] at hres'
    obtain ⟨d, hd, hdm⟩ := bind_eq_some_iff.1 hres'
    exact .inr ⟨d, m, ⟨ms, hd⟩, hdm, hplain m (by simp)⟩

/-- **The root leads to nodes in use only.** -/
theorem closed_reached : Closed t (reached root t) := by
  intro d hd
  refine ⟨?_, ?_⟩
  · rcases h.eq_root_or_entry hd with rfl | ⟨e, n, -, hlook, hn⟩
    · exact h.dir_used h.root_dir
    · exact (h.named hlook hn).1
  · intro n i hlook
    obtain ⟨ns, hns⟩ := hd
    refine ⟨ns ++ [n], ?_⟩
    rw [resolve_concat, hns]
    exact hlook

theorem resolve_used {ns : List ν} (hres : resolve t.look root ns = some i) : t.used i :=
  (h.closed_reached i ⟨ns, hres⟩).1

/-- The special names of such a node lead to directories. -/
theorem dir_of_not_plain {d i : ι} {n : ν} (hd : d ∈ reached root t) (hlook : t.look d n = some i)
    (hn : ¬Plain dot dotdot n) : t.dir i := by
  have hdir := h.look_dir hlook
  by_cases hdot : n = dot
  · rw [hdot, h.look_dot hdir] at hlook
    rwa [← some.inj hlook]
  · have hdotdot : n = dotdot := by
      by_contra hne
      exact hn ⟨hdot, hne⟩
    rw [hdotdot] at hlook
    rcases h.eq_root_or_entry hd with rfl | ⟨e, m, -, hem, hm⟩
    · rw [h.root_parent] at hlook
      rw [← some.inj hlook]
      exact h.root_dir
    · rw [h.parent hem hm hdir] at hlook
      rw [← some.inj hlook]
      exact h.look_dir hem

end IsTree

/-! ### Changes of a tree -/

/-- Of the nodes in use nothing is changed. -/
structure Keeps (t t' : Dirs ι ν) : Prop where
  used : ∀ {i}, t.used i → t'.used i
  dir : ∀ {i}, t.used i → (t'.dir i ↔ t.dir i)
  look : ∀ {i}, t.used i → ∀ n, t'.look i n = t.look i n

theorem Keeps.refl (t : Dirs ι ν) : Keeps t t := ⟨id, fun _ => Iff.rfl, fun _ _ => rfl⟩

variable {A : Set ι}

/-- The paths inside a closed set are the same. -/
theorem Keeps.resolve_eq_of_closed (hk : Keeps t t') (hA : Closed t A) (ns : List ν) {i : ι}
    (hi : i ∈ A) : resolve t'.look i ns = resolve t.look i ns := by
  induction ns generalizing i with
  | nil => rfl
  | cons n ns ih =>
    rw [resolve, resolve, hk.look (hA i hi).1]
    cases hlook : t.look i n with
    | none => rfl
    | some j => exact ih ((hA i hi).2 n j hlook)

/-- The paths from the root are the same. -/
theorem Keeps.resolve_eq [DecidableEq ν] (hk : Keeps t t') (h : IsTree dot dotdot root t) (ns : List ν) :
    resolve t'.look root ns = resolve t.look root ns :=
  hk.resolve_eq_of_closed h.closed_reached ns root_mem_reached

theorem Closed.keeps (hA : Closed t A) (hk : Keeps t t') : Closed t' A := by
  intro d hd
  obtain ⟨hused, hlook⟩ := hA d hd
  refine ⟨hk.used hused, fun n i hi => hlook n i ?_⟩
  rwa [← hk.look hused]

/-- Other nodes in use. -/
def Dirs.withUsed (t : Dirs ι ν) (used : ι → Prop) : Dirs ι ν := { t with used := used }

/-- Directories and what has a name stay in use. -/
theorem IsTree.withUsed (h : IsTree dot dotdot root t) {used : ι → Prop} (hdir : ∀ d, t.dir d → used d)
    (hnamed : ∀ d n i, t.look d n = some i → Plain dot dotdot n → used i) :
    IsTree dot dotdot root (t.withUsed used) where
  dir_used := hdir _
  root_dir := h.root_dir
  look_dir := h.look_dir
  look_dot := h.look_dot
  look_dotdot := h.look_dotdot
  named hlook hn := ⟨hnamed _ _ _ hlook hn, (h.named hlook hn).2⟩
  once := h.once
  parent := h.parent
  root_parent := h.root_parent

section Change

variable [DecidableEq ι] [DecidableEq ν]

/-- One entry more. -/
def Dirs.link (t : Dirs ι ν) (d : ι) (n : ν) (i : ι) : Dirs ι ν :=
  { t with look := fun d' n' => if d' = d ∧ n' = n then some i else t.look d' n' }

/-- One entry less. -/
def Dirs.unlink (t : Dirs ι ν) (d : ι) (n : ν) : Dirs ι ν :=
  { t with look := fun d' n' => if d' = d ∧ n' = n then none else t.look d' n' }

/-- One directory more, without an entry for it. -/
def Dirs.mkdir (t : Dirs ι ν) (dot dotdot : ν) (i p : ι) : Dirs ι ν where
  used := t.used
  dir j := j = i ∨ t.dir j
  look j n := if j = i then if n = dot then some i else if n = dotdot then some p else none else t.look j n

variable {A : Set ι}

theorem Closed.link (hA : Closed t A) (d : ι) (n : ν) {i : ι} (hi : i ∈ A) : Closed (t.link d n i) A := by
  intro d' hd'
  refine ⟨(hA d' hd').1, fun n' j hlook => ?_⟩
  simp only [Dirs.link] at hlook
  split_ifs at hlook with heq
  · rwa [← some.inj hlook]
  · exact (hA d' hd').2 n' j hlook

theorem Closed.mkdir (hA : Closed t A) {i p : ι} (hi : t.used i) (hp : p ∈ A) :
    Closed (t.mkdir dot dotdot i p) (insert i A) := by
  intro d hd
  by_cases hdi : d = i
  · rw [hdi]
    refine ⟨hi, fun n j hlook => ?_⟩
    simp only [Dirs.mkdir, if_true] at hlook
    split_ifs at hlook with hdot hdotdot
    · exact .inl (some.inj hlook).symm
    · exact .inr (some.inj hlook ▸ hp)
  · have hdA : d ∈ A := hd.resolve_left hdi
    refine ⟨(hA d hdA).1, fun n j hlook => ?_⟩
    simp only [Dirs.mkdir, if_neg hdi] at hlook
    exact .inr ((hA d hdA).2 n j hlook)

namespace IsTree

variable (h : IsTree dot dotdot root t)

include h

variable {n : ν} {d : ι}

/-- **A new entry**, for a node that has none. -/
theorem link {d i : ι} (hd : t.dir d) (hn : Plain dot dotdot n) (hi : t.used i) (hroot : i ≠ root)
    (hnew : ∀ d' n', Plain dot dotdot n' → t.look d' n' ≠ some i)
    (hup : t.dir i → t.look i dotdot = some d) : IsTree dot dotdot root (t.link d n i) := by
  have hspecial : ∀ {d' n'}, ¬Plain dot dotdot n' → (t.link d n i).look d' n' = t.look d' n' :=
    fun {d' n'} hn' => if_neg fun heq : d' = d ∧ n' = n => hn' (heq.2 ▸ hn)
  have hdot : ¬Plain dot dotdot dot := fun hp => hp.1 rfl
  have hdotdot : ¬Plain dot dotdot dotdot := fun hp => hp.2 rfl
  refine ⟨h.dir_used, h.root_dir, ?_, ?_, ?_, ?_, ?_, ?_, ?_⟩
  · intro d' n' j hlook
    simp only [Dirs.link] at hlook
    split_ifs at hlook with heq
    · rw [heq.1]
      exact hd
    · exact h.look_dir hlook
  · intro d' hd'
    rw [hspecial hdot]
    exact h.look_dot hd'
  · intro d' hd'
    rw [hspecial hdotdot]
    exact h.look_dotdot hd'
  · intro d' n' j hlook hn'
    simp only [Dirs.link] at hlook
    split_ifs at hlook with heq
    · rw [← some.inj hlook]
      exact ⟨hi, hroot⟩
    · exact h.named hlook hn'
  · intro d₁ n₁ d₂ n₂ j h₁ h₂ hn₁ hn₂
    simp only [Dirs.link] at h₁ h₂
    split_ifs at h₁ h₂ with heq₁ heq₂ heq₂
    · exact ⟨heq₁.1.trans heq₂.1.symm, heq₁.2.trans heq₂.2.symm⟩
    · exact absurd (h₂.trans h₁.symm) (hnew _ _ hn₂)
    · exact absurd (h₁.trans h₂.symm) (hnew _ _ hn₁)
    · exact h.once h₁ h₂ hn₁ hn₂
  · intro d' n' j hlook hn' hj
    rw [hspecial hdotdot]
    simp only [Dirs.link] at hlook
    split_ifs at hlook with heq
    · cases hlook
      rw [heq.1]
      exact hup hj
    · exact h.parent hlook hn' hj
  · rw [hspecial hdotdot]
    exact h.root_parent

/-- **An entry less.** -/
theorem unlink (hn : Plain dot dotdot n) : IsTree dot dotdot root (t.unlink d n) := by
  have hspecial : ∀ {d' n'}, ¬Plain dot dotdot n' → (t.unlink d n).look d' n' = t.look d' n' :=
    fun {d' n'} hn' => if_neg fun heq : d' = d ∧ n' = n => hn' (heq.2 ▸ hn)
  have hrest : ∀ {d' n' j}, (t.unlink d n).look d' n' = some j → t.look d' n' = some j := by
    intro d' n' j hlook
    simp only [Dirs.unlink] at hlook
    split_ifs at hlook with heq
    exact hlook
  have hdot : ¬Plain dot dotdot dot := fun hp => hp.1 rfl
  have hdotdot : ¬Plain dot dotdot dotdot := fun hp => hp.2 rfl
  refine ⟨h.dir_used, h.root_dir, ?_, ?_, ?_, ?_, ?_, ?_, ?_⟩
  · exact fun hlook => h.look_dir (hrest hlook)
  · intro d' hd'
    rw [hspecial hdot]
    exact h.look_dot hd'
  · intro d' hd'
    rw [hspecial hdotdot]
    exact h.look_dotdot hd'
  · exact fun hlook hn' => h.named (hrest hlook) hn'
  · exact fun h₁ h₂ hn₁ hn₂ => h.once (hrest h₁) (hrest h₂) hn₁ hn₂
  · intro d' n' j hlook hn' hj
    rw [hspecial hdotdot]
    exact h.parent (hrest hlook) hn' hj
  · rw [hspecial hdotdot]
    exact h.root_parent

/-- **A new directory**, below whatever `p` is and without an entry. -/
theorem mkdir {i p : ι} (hne : dot ≠ dotdot) (hi : t.used i) (hroot : i ≠ root) (hdir : ¬t.dir i)
    (hnew : ∀ d n, Plain dot dotdot n → t.look d n ≠ some i) :
    IsTree dot dotdot root (t.mkdir dot dotdot i p) := by
  have hself : ∀ {n j}, (t.mkdir dot dotdot i p).look i n = some j → ¬Plain dot dotdot n := by
    intro n j hlook hn
    simp only [Dirs.mkdir, if_true, if_neg hn.1, if_neg hn.2] at hlook
    cases hlook
  have hother : ∀ {d n}, d ≠ i → (t.mkdir dot dotdot i p).look d n = t.look d n := fun hd => if_neg hd
  have hplain : ∀ {d n j}, (t.mkdir dot dotdot i p).look d n = some j → Plain dot dotdot n → t.look d n = some j := by
    intro d n j hlook hn
    by_cases hd : d = i
    · subst hd
      exact absurd hn (hself hlook)
    · rwa [hother hd] at hlook
  refine ⟨?_, .inr h.root_dir, ?_, ?_, ?_, ?_, ?_, ?_, ?_⟩
  · rintro d (rfl | hd)
    · exact hi
    · exact h.dir_used hd
  · intro d n j hlook
    by_cases hd : d = i
    · exact .inl hd
    · rw [hother hd] at hlook
      exact .inr (h.look_dir hlook)
  · rintro d (rfl | hd)
    · simp only [Dirs.mkdir, if_true]
    · rw [hother fun heq => hdir (heq ▸ hd)]
      exact h.look_dot hd
  · rintro d (rfl | hd)
    · refine ⟨p, ?_⟩
      simp only [Dirs.mkdir, if_true, if_neg hne.symm]
    · obtain ⟨q, hq⟩ := h.look_dotdot hd
      refine ⟨q, ?_⟩
      rwa [hother fun heq => hdir (heq ▸ hd)]
  · exact fun hlook hn => h.named (hplain hlook hn) hn
  · exact fun h₁ h₂ hn₁ hn₂ => h.once (hplain h₁ hn₁) (hplain h₂ hn₂) hn₁ hn₂
  · rintro d n j hlook hn (rfl | hj)
    · exact absurd (hplain hlook hn) (hnew d n hn)
    · rw [hother fun heq => hdir (heq ▸ hj)]
      exact h.parent (hplain hlook hn) hn hj
  · rw [hother hroot.symm]
    exact h.root_parent

/-! ### Changes of the paths -/

variable {d i : ι} {n : ν} {q ns : List ν} (hq : ∀ m ∈ q, Plain dot dotdot m)
  (hns : ∀ m ∈ ns, Plain dot dotdot m) (hd : resolve t.look root q = some d)

include hq hns hd

/-- **One path less**: a node that leads nowhere has lost its entry. -/
theorem resolve_unlink (hk : Keeps ((t.unlink d n).withUsed fun j => j ≠ i ∧ t.used j) t') (hn : Plain dot dotdot n)
    (hlook : t.look d n = some i) (hi : ¬t.dir i) :
    resolve t'.look root ns = if ns = q ++ [n] then none else resolve t.look root ns := by
  have hqn : ∀ m ∈ q ++ [n], Plain dot dotdot m := by
    intro m hm
    rcases mem_append.1 hm with hm | hm
    · exact hq m hm
    · rwa [mem_singleton.1 hm]
  have hpathn : resolve t.look root (q ++ [n]) = some i := by
    rw [resolve_concat, hd]
    exact hlook
  induction ns using List.reverseRecOn with
  | nil => rw [if_neg (by simp)]; rfl
  | append_singleton ns m ih =>
    have hns' : ∀ x ∈ ns, Plain dot dotdot x := fun x hx => hns x (by simp [hx])
    rw [resolve_concat, resolve_concat, ih hns']
    by_cases hpath : ns = q ++ [n]
    · have hnone : t.look i m = none := by
        cases hm : t.look i m with
        | none => rfl
        | some j => exact absurd (h.look_dir hm) hi
      rw [if_pos hpath, if_neg (by rw [hpath]; simp), hpath, hpathn]
      exact hnone.symm
    · rw [if_neg hpath]
      cases hres : resolve t.look root ns with
      | none => exact (ite_self none).symm
      | some e =>
        have he : e ≠ i := fun heq => hpath (h.resolve_inj hns' hqn (heq ▸ hres) hpathn)
        change t'.look e m = if ns ++ [m] = q ++ [n] then none else t.look e m
        rw [hk.look ⟨he, h.resolve_used hres⟩]
        refine if_congr ?_ rfl rfl
        constructor
        · rintro ⟨rfl, rfl⟩
          rw [h.resolve_inj hq hns' hd hres]
        · intro heq
          obtain ⟨rfl, hm⟩ := append_inj' heq rfl
          rw [hd] at hres
          exact ⟨(some.inj hres).symm, by simpa using hm⟩

end IsTree

end Change

end Tree
