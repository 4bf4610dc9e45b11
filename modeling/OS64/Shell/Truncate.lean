import OS64.Shell.Transfer
import OS64.Vfs.Overwrites

/-!
# Changing the size of a file

`truncate -s N FILE` reads the file into the buffer, keeps the first `N` bytes or adds
zeros up to there, and writes `N` bytes back. It does not tell a file that is not there
from one that cannot be read: what `vfs_read` refuses is taken for an empty file, so a
file that the session may write but not read is overwritten with zeros, and so is one on
the volume of `/var` that is larger than the buffer.

`OS64.Shell.Truncates` says what the command is for, and `OS64.Shell.truncate_iff` when it
does that: when nothing can be written at all, when what is read is the file, or when the
file is made of zeros anyway.
-/

namespace OS64.Shell

open List Text Auth Vfs ByteMem

/-! ### The line -/

/-- `-s N FILE`. -/
def truncateLine (N : ℕ) (f : List UInt8) : List UInt8 := chars ['-', 's', ' '] ++ decimal N ++ 32 :: f

theorem truncateArgs_truncateLine {N : ℕ} (hN : N ≤ 16384) {f : List UInt8} (hf : skipSpaces f ≠ []) :
    truncateArgs (truncateLine N f) = .ok (N, skipSpaces f) := by
  have hstart : skipSpaces (truncateLine N f) = truncateLine N f := rfl
  have hdrop : (truncateLine N f).drop 3 = decimal N ++ 32 :: f := rfl
  have hoption : Shell.starts (truncateLine N f) (chars ['-', 's', ' ']) = true := rfl
  have hlen : (decimal N).length ≤ 15 := length_decimal_le (by decide) (by omega)
  have hrest : skipSpaces (32 :: f) = skipSpaces f := rfl
  rw [truncateArgs]
  simp only [hstart, hoption, if_true, hdrop, skipSpaces_decimal, word_decimal, parseSize_decimal, if_pos hN]
  rw [take_of_length_le hlen, drop_left, hrest, if_neg hf]

/-! ### The bytes -/

/-- The first `N` bytes, followed by zeros if there are not as many. -/
def resized (t : List UInt8) (N : ℕ) : List UInt8 := t.take N ++ replicate (N - t.length) 0

theorem length_resized (t : List UInt8) (N : ℕ) : (resized t N).length = N := by
  rw [resized, length_append, length_take, length_replicate]
  omega

theorem resized_nil (N : ℕ) : resized [] N = List.replicate N 0 := by
  rw [resized, take_nil, nil_append, length_nil, Nat.sub_zero]

theorem resized_replicate (N : ℕ) : resized (List.replicate N 0) N = List.replicate N 0 := by
  rw [resized, length_replicate, Nat.sub_self, replicate_zero, append_nil, take_of_length_le (by rw [length_replicate])]

/-- Only the beginning and the length matter. -/
theorem resized_congr {t t' : List UInt8} {N : ℕ} (htake : t.take N = t'.take N) (hlen : t.length = t'.length) :
    resized t N = resized t' N := by
  rw [resized, resized, htake, hlen]

/-- The buffer after it has been filled up. -/
theorem bytes_fill_resized (b : ByteMem) {n N : ℕ} (h : n ≤ N) :
    (b.fill n 0 (N - n)).bytes 0 N = resized (b.bytes 0 n) N := by
  have hkept : (b.fill n 0 (N - n)).bytes 0 n = b.bytes 0 n :=
    bytes_congr fun x _ hx => by rw [fill_apply, if_neg (by omega)]
  have hsplit := bytes_add (b.fill n 0 (N - n)) 0 n (N - n)
  rw [show n + (N - n) = N by omega, zero_add, bytes_fill, hkept] at hsplit
  rw [hsplit, resized, length_bytes, take_of_length_le (by rw [length_bytes]; exact h)]

section

variable {R : Type} (env : Env R) (s : Desk R)

/-- What the command writes. -/
def truncateHanded (p : Path) (N : ℕ) : List UInt8 :=
  match delivered env s.vfs p imageCapacity with
  | none => replicate N 0
  | some (d, n) => resized ((s.image.store 0 d).bytes 0 n) N

theorem length_truncateHanded (p : Path) (N : ℕ) : (truncateHanded env s p N).length = N := by
  rw [truncateHanded]
  split
  · exact length_replicate
  · exact length_resized _ N

/-- **`truncate` does what it is for**: if it reports nothing then the file has the first
bytes that it had, with zeros behind them; and if it cannot be read then it is as before. -/
structure Truncates (a : List UInt8) (p : Path) (k : Backend) (c : List UInt8) (N : ℕ) : Prop where
  resized : (cTruncate env s a).2.out = [] → FileAt env (cTruncate env s a).1.vfs p k (resized c N)
  unread : (vfsRead env s.vfs p imageCapacity).2 = none → FileAt env (cTruncate env s a).1.vfs p k c

variable {env s} {p : Path} {k : Backend} {c f : List UInt8} {N : ℕ}

/-- The end of the command. -/
theorem truncateWrite_spec (s : Desk R) {n : ℕ} (hn : n ≤ N) :
    (truncateWrite env s p n N).1.vfs = (vfsWrite env s.vfs p (resized (s.image.bytes 0 n) N)).1 ∧
      ((truncateWrite env s p n N).2.out = [] ↔ (vfsWrite env s.vfs p (resized (s.image.bytes 0 n) N)).2 = .ok N) := by
  rw [truncateWrite, bytes_fill_resized s.image hn]
  rcases vfsWrite env s.vfs p (resized (s.image.bytes 0 n) N) with ⟨vfs, _ | written | _⟩
  · simp
  · by_cases hw : written = N
    · simp [hw]
    · simp [hw]
  · simp

/-- **What the command does** with a file that is read without a change. -/
theorem cTruncate_spec {a : List UInt8} (ha : truncateArgs a = .ok (N, skipSpaces f))
    (hp : p = resolvePath s.cwd f) (hprotect : protectWrite s p = true)
    (hread : vfsRead env s.vfs p imageCapacity = (s.vfs, (vfsRead env s.vfs p imageCapacity).2)) :
    (cTruncate env s a).1.vfs = (vfsWrite env s.vfs p (truncateHanded env s p N)).1 ∧
      ((cTruncate env s a).2.out = [] ↔ (vfsWrite env s.vfs p (truncateHanded env s p N)).2 = .ok N) := by
  rw [cTruncate, ha]
  simp only [resolvePath_skipSpaces, ← hp, if_pos hprotect, readImage_eq hread]
  rw [truncateHanded]
  rcases delivered env s.vfs p imageCapacity with _ | ⟨d, n⟩
  · have hspec := @truncateWrite_spec R env p N s 0 (Nat.zero_le N)
    rw [show s.image.bytes 0 0 = [] from rfl, resized_nil] at hspec
    exact hspec
  · by_cases hn : n > N
    · -- the rest of what was read is left out
      have hspec := @truncateWrite_spec R env p N { s with image := s.image.store 0 d } N le_rfl
      have hsame : resized ((s.image.store 0 d).bytes 0 N) N = resized ((s.image.store 0 d).bytes 0 n) N := by
        rw [resized, resized, take_bytes, take_bytes, length_bytes, length_bytes, min_self, min_eq_left (by omega),
          Nat.sub_self, Nat.sub_eq_zero_of_le (by omega)]
      simp only [if_pos hn]
      rw [hsame] at hspec
      exact hspec
    · simp only [if_neg hn]
      exact truncateWrite_spec { s with image := s.image.store 0 d } (by omega)

/-! ### What is read -/

/-- The session may read the file, and what is read is the file: one on the volume of
`/var` that does not fit is looked for in the archive. -/
def Loadable (env : Env R) (s : Desk R) (p : Path) (k : Backend) (c : List UInt8) (N : ℕ) : Prop :=
  vfsCheckPermission env s.vfs p accessRead = true ∧
    (k = .ext2 → c.length ≤ imageCapacity ∨ ∃ e, fsFind s.vfs p = some e ∧ e.isDir = false ∧
      e.data.length ≤ imageCapacity ∧ resized e.data N = resized c N)

/-- A file that is read as a whole. -/
theorem truncateHanded_whole {d : List UInt8} (h : delivered env s.vfs p imageCapacity = some (d, d.length)) :
    truncateHanded env s p N = resized d N := by
  rw [truncateHanded, h]
  dsimp only
  rw [bytes_store]

/-- A file of which a sector is read, and not more than a sector is written. -/
theorem truncateHanded_sector {b : Sector} (h : delivered env s.vfs p imageCapacity = some (b.bytes 0 512, c.length))
    (hb : (b.bytes 0 512).take c.length = c.take 512) (hN : N ≤ 512) :
    truncateHanded env s p N = resized c N := by
  rw [truncateHanded, h]
  refine resized_congr ?_ (length_bytes _ _ _)
  have hstore : (s.image.store 0 (b.bytes 0 512)).bytes 0 512 = b.bytes 0 512 := by
    have hbytes := bytes_store s.image 0 (b.bytes 0 512)
    rwa [length_bytes] at hbytes
  have hfirst : ((s.image.store 0 (b.bytes 0 512)).bytes 0 c.length).take 512 = c.take 512 := by
    rw [take_bytes, ← hb, ← hstore, take_bytes, min_comm]
    simp only [hstore]
  have hcut := congrArg (take N) hfirst
  rwa [take_take, take_take, min_eq_left hN] at hcut

/-- **What is written is the file in its new size** if it can be read, and can be written
at all. -/
theorem Loadable.handed (h : Loadable env s p k c N) (hfile : FileAt env s.vfs p k c) (hk : k.Writable)
    (hsize : k = .fat32 → N ≤ 512) :
    (vfsRead env s.vfs p imageCapacity).2 ≠ none ∧ truncateHanded env s p N = resized c N := by
  obtain ⟨hcheck, hfits⟩ := h
  have hsome : ∀ {x}, delivered env s.vfs p imageCapacity = some x → (vfsRead env s.vfs p imageCapacity).2 ≠ none := by
    intro x hx hnone
    rw [delivered, hnone] at hx
    cases hx
  cases hfile with
  | proc _ _ => exact absurd hk id
  | archive _ _ _ _ _ _ _ => exact absurd hk id
  | @tmp node hp hnode =>
    have hdel := (delivered_tmp hcheck imageCapacity hp hnode).2
    rw [if_pos (node.data_fits.trans (by decide))] at hdel
    exact ⟨hsome hdel, truncateHanded_whole hdel⟩
  | home hp ht =>
    have hdel := (delivered_home hcheck imageCapacity hp ht).2
    obtain ⟨b, hb, htake⟩ := hdel
    exact ⟨hsome hb, truncateHanded_sector hb htake (hsize rfl)⟩
  | native hp ht =>
    have hdel := (delivered_native hcheck imageCapacity hp ht).2
    by_cases hle : c.length ≤ imageCapacity
    · rw [if_pos hle] at hdel
      exact ⟨hsome hdel, truncateHanded_whole hdel⟩
    · obtain ⟨e, he, hdir, hcap, hsame⟩ := (hfits rfl).resolve_left hle
      rw [if_neg hle, readArchive_map he hdir, if_pos hcap] at hdel
      exact ⟨hsome hdel, (truncateHanded_whole hdel).trans hsame⟩

/-- What is read in place of a file that does not fit is a file of the archive. -/
theorem loadable_of_handed (hfile : FileAt env s.vfs p k c)
    (hread : (vfsRead env s.vfs p imageCapacity).2 ≠ none) (hsame : truncateHanded env s p N = resized c N) :
    Loadable env s p k c N := by
  have hcheck : vfsCheckPermission env s.vfs p accessRead = true := by
    by_contra hdenied
    rw [vfsRead, if_neg hdenied] at hread
    exact hread rfl
  refine ⟨hcheck, ?_⟩
  rintro rfl
  by_contra hnot
  rw [not_or] at hnot
  cases hfile with
  | native hp ht =>
    have hdel := (delivered_native hcheck imageCapacity hp ht).2
    rw [if_neg hnot.1] at hdel
    have hne : delivered env s.vfs p imageCapacity ≠ none := fun hnone =>
      hread (Option.map_eq_none_iff.mp hnone)
    rcases he : fsFind s.vfs p with _ | e
    · rw [readArchive, he] at hdel
      exact hne hdel
    by_cases hbad : e.isDir = true ∨ e.data.length > imageCapacity
    · rw [readArchive, he] at hdel
      simp only [if_pos hbad, Option.map_none] at hdel
      exact hne hdel
    rw [not_or, Bool.not_eq_true, not_lt] at hbad
    rw [readArchive_map he hbad.1, if_pos hbad.2] at hdel
    rw [truncateHanded_whole hdel] at hsame
    exact hnot.2 ⟨e, he, hbad.1, hbad.2, hsame⟩

/-- Without a reading it is zeros that are written. -/
theorem truncateHanded_unread (h : (vfsRead env s.vfs p imageCapacity).2 = none) :
    truncateHanded env s p N = replicate N 0 := by
  rw [truncateHanded, delivered, h]
  rfl

/-! ### The command -/

/-- **`truncate` does what it is for exactly if** nothing can be written, the file can be
read, or it cannot be read and has the right number of zeros already: for every file on a
backend with files that can be written, in every state of a run in which no
`disk_store_large` comes upon a directory. -/
theorem truncate_iff {level : ℕ} (hlevel : 2 ≤ level ∧ level ≤ 4) {s₀ : Vfs.State R} {acts : List (Act R)}
    (hzero : ∀ act ∈ acts, act.ZeroFree)
    (hspares : Runs.Throughout (fun before act => act.SparesDirectories (Vfs.run env level s₀ before)) acts)
    (hrun : s.vfs = Vfs.run env level s₀ acts) (hf : skipSpaces f ≠ []) (hp : p = resolvePath s.cwd f) (h0 : 0 ∉ p)
    (hfile : FileAt env s.vfs p k c) (hk : k.Writable) (hprotect : protectWrite s p = true) (hN : N ≤ 16384) :
    Truncates env s (truncateLine N f) p k c N ↔
      (vfsWrite env s.vfs p (truncateHanded env s p N)).2 ≠ .ok N ∨ Loadable env s p k c N ∨
        (vfsRead env s.vfs p imageCapacity).2 = none ∧ c = replicate N 0 := by
  have hv : Volumes s.vfs := hrun ▸ volumes_run hlevel s₀ hzero hspares
  obtain ⟨hstate, hout⟩ := cTruncate_spec (truncateArgs_truncateLine hN hf) hp hprotect
    (hfile.vfsRead_state imageCapacity)
  have hlen := length_truncateHanded env s p N
  rcases hfile.overwrite hk hv h0 (truncateHanded env s p N) with ⟨hok, hafter⟩ | ⟨herror, hafter⟩
  case inr =>
    refine iff_of_true ⟨fun hquiet => ?_, fun _ => hstate ▸ hafter⟩ (.inl ?_)
    · rw [hout, herror] at hquiet
      cases hquiet
    · rw [herror]
      exact fun heq => nomatch heq
  rw [hlen] at hok
  -- the file has what was written, so the question is what that was
  have hiff : Truncates env s (truncateLine N f) p k c N ↔ truncateHanded env s p N = resized c N ∧
      ((vfsRead env s.vfs p imageCapacity).2 = none → truncateHanded env s p N = c) := by
    constructor
    · rintro ⟨hresized, hunread⟩
      rw [hstate] at hresized hunread
      exact ⟨hafter.unique (hresized (hout.mpr hok)), fun hnone => hafter.unique (hunread hnone)⟩
    · rintro ⟨hresized, hunread⟩
      refine ⟨fun _ => ?_, fun hnone => ?_⟩
      · rw [hstate, ← hresized]
        exact hafter
      · rw [hstate]
        exact hunread hnone ▸ hafter
  rw [hiff, or_iff_right (not_not.mpr hok)]
  constructor
  · rintro ⟨hresized, hunread⟩
    by_cases hread : (vfsRead env s.vfs p imageCapacity).2 = none
    · rw [truncateHanded_unread hread] at hunread
      exact .inr ⟨hread, (hunread hread).symm⟩
    · exact .inl (loadable_of_handed hfile hread hresized)
  · rintro (hload | ⟨hread, rfl⟩)
    · have hsize : k = .fat32 → N ≤ 512 := by
        rintro rfl
        cases hfile with
        | home hhome _ =>
          by_contra hlarge
          rw [vfsWrite_home_large hhome (by rwa [hlen])] at hok
          cases hok
      obtain ⟨hread, hresized⟩ := hload.handed hfile hk hsize
      exact ⟨hresized, fun hnone => absurd hnone hread⟩
    · rw [truncateHanded_unread hread, resized_replicate]
      exact ⟨rfl, fun _ => rfl⟩

end

/-! ### Files of `alice` -/

/-- `/tmp/a`. -/
def tmpA : TmpPath := ⟨tmpPrefix ++ chars ['a'], by decide⟩

/-- `alice` has stored two bytes in `/tmp/a` and changed its mode. -/
def tmpActs (mode : UInt16) : List (Act Unit) := [.write tmpA (chars ['a', 'b']), .tmp (.chmod tmpA mode)]

def tmpDesk (mode : UInt16) : Desk Unit where
  vfs := Vfs.run quietEnv 2 aliceAlone (tmpActs mode)
  cwd := [47]
  image := fun _ => 0
  stack := fun _ => 0

/-- A temporary file, by what is found of it. -/
theorem fileAt_tmpA {vfs : Vfs.State Unit} {t : List UInt8} (h : (tmpLookup vfs tmpA).map Node.data = some t) :
    FileAt quietEnv vfs tmpA .tmpfs t := by
  obtain ⟨node, hnode, rfl⟩ := Option.map_eq_some_iff.mp h
  exact .tmp tmpA.2 hnode

theorem tmpActs_throughout (mode : UInt16) : (∀ act ∈ tmpActs mode, act.ZeroFree) ∧
    Runs.Throughout (fun before act => act.SparesDirectories (Vfs.run quietEnv 2 aliceAlone before)) (tmpActs mode) := by
  refine ⟨fun act hact => ?_, fun before act after hsplit => ?_⟩
  · rcases mem_cons.mp hact with rfl | hact
    · exact (by decide : (0 : UInt8) ∉ tmpA.1)
    · rw [mem_singleton.mp hact]
      trivial
  · have hmem : act ∈ tmpActs mode := by simp [hsplit]
    rcases mem_cons.mp hmem with rfl | hact
    · trivial
    · rw [mem_singleton.mp hact]
      trivial

/-- A file that can be read. -/
theorem readable_truncated :
    Truncates quietEnv (tmpDesk 0o600) (truncateLine 1 tmpA.1) tmpA .tmpfs (chars ['a', 'b']) 1 := by
  have hfile : FileAt quietEnv (tmpDesk 0o600).vfs tmpA .tmpfs (chars ['a', 'b']) := fileAt_tmpA (by decide +kernel)
  obtain ⟨hzero, hspares⟩ := tmpActs_throughout 0o600
  refine (truncate_iff (by decide) hzero hspares rfl (by decide) (by decide +kernel) (by decide) hfile trivial
    (by decide +kernel) (by decide)).mpr (.inr (.inl ⟨by decide +kernel, fun h => ?_⟩))
  cases h

/-- A file that `alice` may write but not read: there is a zero in it afterwards. -/
theorem unreadable_overwritten :
    FileAt quietEnv (tmpDesk 0o200).vfs tmpA .tmpfs (chars ['a', 'b']) ∧ (tmpDesk 0o200).vfs =
      Vfs.run quietEnv 2 aliceAlone [.write tmpA (chars ['a', 'b']), .tmp (.chmod tmpA 0o200)] ∧
    ¬Truncates quietEnv (tmpDesk 0o200) (truncateLine 1 tmpA.1) tmpA .tmpfs (chars ['a', 'b']) 1 := by
  refine ⟨fileAt_tmpA (by decide +kernel), rfl, fun htruncates => ?_⟩
  have hread : (vfsRead quietEnv (tmpDesk 0o200).vfs tmpA imageCapacity).2.isNone = true := by decide +kernel
  have hafter : (tmpLookup (cTruncate quietEnv (tmpDesk 0o200) (truncateLine 1 tmpA.1)).1.vfs tmpA).map Node.data =
      some [0] := by
    decide +kernel
  have hkept := (htruncates.unread (Option.isNone_iff_eq_none.mp hread)).unique (fileAt_tmpA hafter)
  cases hkept

end OS64.Shell
