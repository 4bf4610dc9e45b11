import OS64.Shell.Protected
import Mathlib.Data.List.DropRight
import Mathlib.Data.Nat.Count

/-!
# The first and the last lines

`head -n K FILE` copies characters until it has seen `K` line ends, and shows the
first `K` lines (`OS64.Shell.printed_head`). `tail -n K FILE` goes backwards from
the end and counts the line ends it meets, leaving out one at the very end of the
file: the line ends *between* lines. It stops at the one that it meets when `K`
have been counted already, which is the line end in front of the last `K + 1`
lines. So `tail` shows a line too many whenever the file has one
(`OS64.Shell.printed_tail`), and is right only for a file of at most `K` lines.

Numbers of lines go through `parse_size`, which takes none above 16384.
-/

namespace OS64.Shell

open List Text Auth Vfs Option

/-! ### Numbers of lines -/

/-- The loop of `parse_size` on digits. -/
theorem foldlM_digits (ds : List UInt8) :
    ds.foldlM (fun n c => if n > 16384 then none else some (n * 10 + (c.toNat - 48))) 0 = some (value ds) ∨
      16384 < value ds ∧
        ds.foldlM (fun n c => if n > 16384 then none else some (n * 10 + (c.toNat - 48))) 0 = none := by
  induction ds using reverseRecOn with
  | nil => exact .inl rfl
  | append_singleton ds c ih =>
    have hvalue : value (ds ++ [c]) = value ds * 10 + (c.toNat - 48) := by
      rw [value, foldl_append]
      rfl
    rw [foldlM_append, hvalue]
    rcases ih with ih | ⟨hlarge, ih⟩
    · rw [ih]
      by_cases hlarge : value ds > 16384
      · refine .inr ⟨by omega, ?_⟩
        simp [hlarge]
      · simp [hlarge]
    · rw [ih]
      exact .inr ⟨by omega, rfl⟩

/-- `parse_size` on digits. -/
theorem parseSize_digits {ds : List UInt8} (hne : ds ≠ []) (h : ∀ c ∈ ds, isDigit c = true) :
    parseSize ds = if value ds ≤ 16384 then some (value ds) else none := by
  have hall : (ds.takeWhile fun c => 48 ≤ c ∧ c ≤ 57) = ds := takeWhile_eq_self_iff.2 h
  rw [parseSize, if_neg hne]
  simp only [hall, drop_length, head?_nil]
  rcases foldlM_digits ds with hfold | ⟨hlarge, hfold⟩
  · rw [hfold]
    simp
  · rw [hfold]
    exact (if_neg (by omega)).symm

/-- A number in decimal, cut to fifteen characters. -/
theorem parseSize_decimal (K : ℕ) : parseSize ((decimal K).take 15) = if K ≤ 16384 then some K else none := by
  have hne : (decimal K).take 15 ≠ [] := by
    rw [Ne, take_eq_nil_iff, not_or]
    exact ⟨by decide, decimal_ne_nil K⟩
  rw [parseSize_digits hne fun c hc => isDigit_of_mem_decimal (mem_of_mem_take hc)]
  by_cases hlen : (decimal K).length ≤ 15
  · rw [take_of_length_le hlen, value_decimal]
  · -- what is cut off makes no difference to the answer
    have hK : 10 ^ 15 ≤ K := pow_le_of_lt_length_decimal (by decide) (by omega)
    have hvalue : ¬value ((decimal K).take 15) ≤ 16384 := by
      intro hle
      have hlt := @value_append_lt ((decimal K).take 15) ((decimal K).drop 15)
        fun c hc => isDigit_of_mem_decimal (mem_of_mem_drop hc)
      rw [take_append_drop, value_decimal, length_drop] at hlt
      have hpow : 10 ^ ((decimal K).length - 1) ≤ K := pow_le_of_lt_length_decimal (by omega) (by omega)
      rw [show (decimal K).length - 1 = 14 + ((decimal K).length - 15) by omega, Nat.pow_add] at hpow
      have hfactor : 10 ^ 14 < value ((decimal K).take 15) + 1 := Nat.lt_of_mul_lt_mul_right (hpow.trans_lt hlt)
      omega
    rw [if_neg hvalue, if_neg (by omega)]

theorem bne_space_of_mem_decimal {K : ℕ} {c : UInt8} (hc : c ∈ decimal K) : (c != 32) = true := by
  have hc := isDigit_of_mem_decimal hc
  rw [bne_iff_ne]
  rintro rfl
  cases hc

/-- A number at the beginning of a line. -/
theorem skipSpaces_decimal (K : ℕ) (f : List UInt8) : skipSpaces (decimal K ++ f) = decimal K ++ f := by
  obtain ⟨c, cs, hcs⟩ := exists_cons_of_ne_nil (decimal_ne_nil K)
  have hc := bne_space_of_mem_decimal (hcs ▸ mem_cons_self : c ∈ decimal K)
  rw [hcs, cons_append, skipSpaces, dropWhile_cons_of_neg]
  simpa using hc

theorem word_decimal (K : ℕ) (f : List UInt8) : word 15 (decimal K ++ 32 :: f) = (decimal K).take 15 := by
  rw [word, takeWhile_append_cons f (fun c hc => bne_space_of_mem_decimal hc) (by decide)]

/-- The arguments `-n K FILE`. -/
def lineOption (K : ℕ) (f : List UInt8) : List UInt8 := chars ['-', 'n', ' '] ++ decimal K ++ 32 :: f

/-- `line_args` on these. -/
theorem lineArgs_lineOption (K : ℕ) {f : List UInt8} (hf : skipSpaces f ≠ []) :
    lineArgs (lineOption K f) = if K ≤ 16384 then some (K, skipSpaces f) else none := by
  have hstart : skipSpaces (lineOption K f) = lineOption K f := rfl
  have hdrop : (lineOption K f).drop 3 = decimal K ++ 32 :: f := rfl
  have hoption : Shell.starts (lineOption K f) (chars ['-', 'n', ' ']) = true := rfl
  rw [lineArgs]
  simp only [hstart, hoption, if_true, hdrop, skipSpaces_decimal, word_decimal, parseSize_decimal]
  by_cases hK : K ≤ 16384
  · have hlen : (decimal K).length ≤ 15 := length_decimal_le (by decide) (by omega)
    rw [if_pos hK, if_pos hK, take_of_length_le hlen, drop_left]
    have hrest : skipSpaces (32 :: f) = skipSpaces f := rfl
    dsimp only
    rw [hrest, if_neg hf]
  · rw [if_neg hK, if_neg hK]

/-! ### Where the last lines begin -/

/-- A line end at `i` with something behind it. -/
abbrev IsBreak (b : ByteMem) (n i : ℕ) : Prop := b i = 10 ∧ i + 1 < n

section Start

variable {b : ByteMem} {n K : ℕ}

/-- `tail` goes back to the beginning if it meets at most `K` line ends. -/
theorem tailStart_eq_zero {start seen : ℕ} (h : Nat.count (IsBreak b n) start + seen ≤ K) :
    tailStart b n K start seen = 0 := by
  induction start generalizing seen with
  | zero => rfl
  | succ start ih =>
    rw [Nat.count_succ] at h
    rw [tailStart, if_pos (by omega)]
    by_cases hbreak : IsBreak b n start
    · rw [if_pos hbreak] at h
      rw [if_pos hbreak, if_neg (by omega), ih (by omega)]
    · rw [if_neg hbreak, ih (by omega)]

theorem tailStart_le (start seen : ℕ) : tailStart b n K start seen ≤ start := by
  induction start generalizing seen with
  | zero => exact le_rfl
  | succ start ih =>
    rw [tailStart]
    split_ifs
    · exact le_rfl
    · exact (ih _).trans (Nat.le_succ _)
    · exact (ih _).trans (Nat.le_succ _)
    · exact le_rfl

/-- Otherwise it **goes back to the line end with `K` others behind it**. -/
theorem tailStart_eq {i start seen : ℕ} (hi : IsBreak b n i) (hlt : i < start)
    (h : Nat.count (IsBreak b n) start + seen = Nat.count (IsBreak b n) (i + 1) + K) :
    tailStart b n K start seen = i + 1 := by
  induction start generalizing seen with
  | zero => exact absurd hlt (Nat.not_lt_zero i)
  | succ start ih =>
    have hmono : Nat.count (IsBreak b n) (i + 1) ≤ Nat.count (IsBreak b n) (start + 1) :=
      Nat.count_monotone _ (by omega)
    rw [tailStart, if_pos (by omega)]
    by_cases hbreak : IsBreak b n start
    · rw [if_pos hbreak]
      by_cases hhere : i = start
      · subst hhere
        rw [if_pos (by omega)]
      · have hmono' : Nat.count (IsBreak b n) (i + 1) ≤ Nat.count (IsBreak b n) start := Nat.count_monotone _ (by omega)
        rw [Nat.count_succ, if_pos hbreak] at h
        rw [if_neg (by omega), ih (by omega) (by omega)]
    · have hhere : i ≠ start := by
        rintro rfl
        exact hbreak hi
      rw [Nat.count_succ, if_neg hbreak] at h
      rw [if_neg hbreak, ih (by omega) (by omega)]

end Start

/-! ### Texts in memory -/

section Memory

variable {b : ByteMem} {n : ℕ}

/-- With its last line end, if that was missing, a text is its lines. -/
theorem unlines_bytes (b : ByteMem) (n : ℕ) :
    unlines (lines (b.bytes 0 n)) = b.bytes 0 n ++ if n ≠ 0 ∧ b (n - 1) ≠ 10 then [10] else [] := by
  rw [unlines_lines]
  rcases n with _ | n
  · rfl
  · have hlast : (b.bytes 0 (n + 1)).getLast? = some (b n) := by
      rw [ByteMem.bytes_add]
      simp [ByteMem.bytes]
    rw [hlast, Option.getD_some, Nat.add_sub_cancel]
    by_cases hb : b n = 10
    · rw [if_pos hb, if_neg fun hand => hand.2 hb]
    · rw [if_neg hb, if_pos ⟨by omega, hb⟩]

theorem getElem?_bytes {i : ℕ} (hi : i < n) : (b.bytes 0 n)[i]? = some (b i) := by
  rw [ByteMem.bytes, getElem?_map, getElem?_range hi]
  simp

/-- The line ends with something behind them are those of all lines but the
last. -/
theorem count_isBreak {m : ℕ} (hm : m < (unlines (lines (b.bytes 0 n))).length) :
    Nat.count (IsBreak b n) m = ((unlines (lines (b.bytes 0 n))).take m).count 10 := by
  induction m with
  | zero => rfl
  | succ m ih =>
    have hlen := congrArg List.length (unlines_bytes b n)
    have hmn : m < n := by
      split_ifs at hlen with hopen
      · simp at hlen
        omega
      · simp at hlen
        omega
    have hget : (unlines (lines (b.bytes 0 n)))[m]? = some (b m) := by
      rw [unlines_bytes, List.getElem?_append_left (by rwa [ByteMem.length_bytes]), getElem?_bytes hmn]
    rw [Nat.count_succ, ih (by omega), take_add_one, hget, Option.toList_some, count_append, count_singleton]
    by_cases hbreak : b m = 10
    · have hnext : m + 1 < n := by
        by_contra hend
        obtain rfl : n = m + 1 := by omega
        rw [if_neg fun hand => hand.2 (by rwa [Nat.add_sub_cancel])] at hlen
        simp at hlen
        omega
      rw [if_pos ⟨hbreak, hnext⟩, if_pos (beq_iff_eq.2 hbreak)]
    · rw [if_neg fun hand => hbreak hand.1, if_neg (mt beq_iff_eq.1 hbreak)]

theorem length_unlines_bytes (b : ByteMem) (n : ℕ) :
    n ≤ (unlines (lines (b.bytes 0 n))).length ∧ (unlines (lines (b.bytes 0 n))).length ≤ n + 1 := by
  have hlen := congrArg length (unlines_bytes b n)
  rw [length_append, ByteMem.length_bytes] at hlen
  split_ifs at hlen with hopen
  · rw [length_singleton] at hlen
    omega
  · rw [length_nil] at hlen
    omega

/-- There is one line more than there are line ends with something behind them. -/
theorem count_isBreak_succ (h : lines (b.bytes 0 n) ≠ []) :
    Nat.count (IsBreak b n) n + 1 = (lines (b.bytes 0 n)).length := by
  obtain ⟨init, last, hlast⟩ : ∃ init last, lines (b.bytes 0 n) = init ++ [last] :=
    (eq_nil_or_concat _).resolve_left h |>.imp fun _ => .imp fun _ => (concat_eq_append ▸ ·)
  obtain ⟨hlow, hhigh⟩ := length_unlines_bytes b n
  have hcount := count_unlines fun l hl => notMem_of_mem_lines (t := b.bytes 0 n) hl
  have hend : unlines (lines (b.bytes 0 n)) = (unlines init ++ last) ++ [10] := by
    rw [hlast, unlines_concat]
  have hpos : (unlines (lines (b.bytes 0 n))).length = (unlines init ++ last).length + 1 := by
    rw [hend, length_append, length_singleton]
  -- the last line end has nothing behind it
  have hbefore : Nat.count (IsBreak b n) n = Nat.count (IsBreak b n) ((unlines (lines (b.bytes 0 n))).length - 1) := by
    by_cases heq : n = (unlines (lines (b.bytes 0 n))).length - 1
    · rw [← heq]
    · obtain ⟨k, hk⟩ : ∃ k, n = k + 1 := ⟨n - 1, by omega⟩
      have hnot : ¬IsBreak b n k := fun hbreak => by
        omega
      have hsucc := Nat.count_succ (IsBreak b n) k
      rw [if_neg hnot, ← hk] at hsucc
      rw [hsucc, Nat.add_zero]
      congr 1
      omega
  rw [hbefore, count_isBreak (by omega), ← hcount, hpos, Nat.add_sub_cancel, hend, take_left]
  simp only [count_append, count_singleton_self]

/-- **`tail` starts one line too early**, if there is one. -/
theorem tailStart_lines (b : ByteMem) (n K : ℕ) :
    tailStart b n K n 0 = (unlines ((lines (b.bytes 0 n)).take ((lines (b.bytes 0 n)).length - (K + 1)))).length := by
  obtain ⟨ls, hls⟩ : ∃ ls, ls = lines (b.bytes 0 n) := ⟨_, rfl⟩
  obtain ⟨hlow, hhigh⟩ := length_unlines_bytes b n
  rw [← hls] at hlow hhigh ⊢
  rcases Nat.lt_or_ge (K + 1) ls.length with hmore | hfew
  · -- the line end in front of the last `K + 1` lines
    obtain ⟨j, hj⟩ : ∃ j, ls.length - (K + 1) = j + 1 := ⟨ls.length - (K + 1) - 1, by omega⟩
    have hne : ls ≠ [] := by
      rintro rfl
      exact absurd hmore (Nat.not_lt_zero _)
    have hall := count_isBreak_succ (b := b) (n := n) (by rwa [← hls])
    have hfree : ∀ l ∈ ls.take (j + 1), 10 ∉ l := fun l hl =>
      notMem_of_mem_lines (t := b.bytes 0 n) (hls ▸ mem_of_mem_take hl)
    have hshort : (unlines (ls.take (j + 1))).length < (unlines ls).length := by
      have hlt := @length_unlines_drop_lt ls (j + 1) ls.length (by omega) (by omega)
      have hsplit := congrArg List.length (unlines_append (ls.take (j + 1)) (ls.drop (j + 1)))
      rw [take_append_drop, length_append] at hsplit
      omega
    obtain ⟨l, hl⟩ : ∃ l, ls.take (j + 1) = ls.take j ++ [l] := ⟨_, take_succ_eq_append_getElem (by omega)⟩
    have hfront : unlines (ls.take (j + 1)) = unlines (ls.take j) ++ l ++ [10] := by
      rw [hl, unlines_concat]
    obtain ⟨i, hi⟩ : ∃ i, i = (unlines (ls.take j) ++ l).length := ⟨_, rfl⟩
    have hlen : (unlines (ls.take (j + 1))).length = i + 1 := by
      rw [hfront, length_append, length_singleton, hi]
    have hcount : Nat.count (IsBreak b n) (i + 1) = j + 1 := by
      rw [← hlen, count_isBreak (by rwa [← hls]), ← hls, take_unlines, count_unlines hfree, length_take]
      omega
    have hcount' : Nat.count (IsBreak b n) i = j := by
      have htake : (unlines ls).take i = unlines (ls.take j) ++ l := by
        have hsplit := unlines_append (ls.take (j + 1)) (ls.drop (j + 1))
        rw [take_append_drop, hfront, append_assoc] at hsplit
        rw [hsplit, hi, take_left]
      have hl' : l.count 10 = 0 := by
        refine count_eq_zero.2 (hfree l ?_)
        rw [hl]
        exact mem_append_right _ mem_cons_self
      rw [count_isBreak (by rw [← hls]; omega), ← hls, htake, count_append, hl', count_unlines, length_take]
      · omega
      · exact fun m hm => hfree m (hl ▸ mem_append_left _ hm)
    have hbreak : IsBreak b n i := by
      refine Nat.count_succ_eq_succ_count_iff.1 ?_
      rw [hcount, hcount']
    rw [hj, hlen]
    refine tailStart_eq hbreak (by omega) ?_
    rw [← hls] at hall
    omega
  · rw [show ls.length - (K + 1) = 0 by omega, take_zero]
    refine tailStart_eq_zero ?_
    by_cases hne : ls = []
    · have hzero : n = 0 := by
        rw [hne] at hlow
        exact Nat.le_zero.1 hlow
      rw [hzero]
      exact Nat.zero_le K
    · have hall := count_isBreak_succ (b := b) (n := n) (by rwa [← hls])
      rw [← hls] at hall
      omega

/-! ### What is shown -/

/-- The characters that are shown, if nothing else is. -/
def printed : List Shown → Option (List UInt8)
  | [] => some []
  | .text l :: out => (printed out).map (l ++ ·)
  | _ :: _ => none

theorem printed_append (out out' : List Shown) :
    printed (out ++ out') = (printed out).bind fun l => (printed out').map (l ++ ·) := by
  induction out with
  | nil =>
    exact map_id'.symm
  | cons x out ih =>
    cases x with
    | text t =>
      rw [cons_append, printed, printed, ih]
      rcases printed out with _ | l
      · rfl
      · rcases printed out' with _ | l'
        · rfl
        · exact congrArg some (append_assoc t l l').symm
    | message _ => rfl
    | number _ => rfl
    | styled _ => rfl

theorem printed_endLine (l : List UInt8) (b : ByteMem) (n : ℕ) :
    printed (.text l :: endLine b n) = some (l ++ if n ≠ 0 ∧ b (n - 1) ≠ 10 then [10] else []) := by
  rw [printed, endLine]
  split_ifs
  · rfl
  · rfl

/-- The end of `c_tail` shows lines from the last `K + 1` on. -/
theorem printed_last (b : ByteMem) (n K : ℕ) :
    printed (.text (b.bytes (tailStart b n K n 0) (n - tailStart b n K n 0)) :: endLine b n) =
      some (unlines ((lines (b.bytes 0 n)).drop ((lines (b.bytes 0 n)).length - (K + 1)))) := by
  have hle : tailStart b n K n 0 ≤ n := tailStart_le n 0
  have hdrop : b.bytes (tailStart b n K n 0) (n - tailStart b n K n 0) = (b.bytes 0 n).drop (tailStart b n K n 0) := by
    have hadd := b.bytes_add 0 (tailStart b n K n 0) (n - tailStart b n K n 0)
    rw [Nat.add_sub_cancel' hle, zero_add] at hadd
    have hlen := ByteMem.length_bytes b 0 (tailStart b n K n 0)
    rw [hadd, drop_append_of_le_length (by rw [hlen]), drop_of_length_le (by rw [hlen]), nil_append]
  rw [printed_endLine, hdrop, ← drop_append_of_le_length (by rwa [ByteMem.length_bytes]),
    ← unlines_bytes, tailStart_lines, drop_unlines]

/-- The loop of `c_head` shows whole lines, as many as are left to be seen. -/
theorem headChars_lines (K seen : ℕ) (t : List UInt8) :
    (headChars K seen t).1 ++ (if (headChars K seen t).2 < K then
      if t.getLast?.getD 10 = 10 then [] else [10] else []) = unlines ((lines t).take (K - seen)) := by
  induction t generalizing seen with
  | nil =>
    rw [headChars, lines, take_nil, getLast?_nil, getD_none, if_pos rfl, ite_self]
    rfl
  | cons c t ih =>
    by_cases hseen : seen < K
    · obtain ⟨k, hk⟩ : ∃ k, K - seen = k + 1 := ⟨K - seen - 1, by omega⟩
      rw [headChars, if_pos hseen, lines, hk]
      by_cases hc : c = 10
      · have hmiss : (c :: t).getLast?.getD 10 = t.getLast?.getD 10 := by
          rcases t with _ | ⟨d, t⟩
          · rw [hc]
            rfl
          · rw [getLast?_cons_cons]
        rw [if_pos hc, if_pos hc, hmiss, take_succ_cons, cons_append, ih, show K - (seen + 1) = k by omega, hc]
        rfl
      · rw [if_neg hc, if_neg hc]
        rcases t with _ | ⟨d, t⟩
        · rw [lines, headChars, getLast?_singleton, getD_some, if_neg hc, if_pos hseen]
          rw [take_succ_cons, take_nil]
          rfl
        · have ih' := ih seen
          rw [getLast?_cons_cons, cons_append, ih', hk]
          rcases hlines : lines (d :: t) with _ | ⟨l, ls⟩
          · have hnil := unlines_lines (d :: t)
            rw [hlines] at hnil
            exact absurd hnil (by simp [unlines])
          · rfl
    · rw [headChars, if_neg hseen, show K - seen = 0 by omega, take_zero]
      rw [if_neg hseen]
      rfl

/-- `c_head` shows the first `K` lines. -/
theorem printed_first (b : ByteMem) (n K : ℕ) :
    printed (.text (headChars K 0 (b.bytes 0 n)).1 ::
      if (headChars K 0 (b.bytes 0 n)).2 < K then endLine b n else []) =
      some (unlines ((lines (b.bytes 0 n)).take K)) := by
  have hlines := headChars_lines K 0 (b.bytes 0 n)
  have hopen : (if (b.bytes 0 n).getLast?.getD 10 = 10 then [] else [10]) =
      if n ≠ 0 ∧ b (n - 1) ≠ 10 then [10] else ([] : List UInt8) :=
    append_cancel_left ((unlines_lines _).symm.trans (unlines_bytes b n))
  rw [hopen, Nat.sub_zero] at hlines
  rw [← hlines]
  by_cases hless : (headChars K 0 (b.bytes 0 n)).2 < K
  · rw [if_pos hless, if_pos hless, printed_endLine]
  · rw [if_neg hless, if_neg hless]
    rfl

end Memory

/-! ### The commands -/

section

variable {R : Type} (env : Env R)

/-- The argument `f` names a regular file that the session may read, and `t` is
what the file holds: all of it is read. -/
structure Reads (s : Desk R) (f t : List UInt8) : Prop where
  named : skipSpaces f ≠ []
  allowed : ofpAllowed s.vfs.auth (resolvePath s.cwd f) ofpRead = true
  reading : ∃ r, (vfsRead env s.vfs (resolvePath s.cwd f) imageCapacity).2 = some r ∧
    r.stat.type = .file ∧ r.n = t.length ∧ r.n ≤ r.data.length ∧ r.data.take r.n = t

variable {env} {s : Desk R} {f t : List UInt8}

/-- Reading a regular file changes nothing. -/
theorem vfsRead_file {vfs : Vfs.State R} {p : Path} {cap : ℕ} {r : Reading}
    (h : (vfsRead env vfs p cap).2 = some r) (htype : r.stat.type = .file) :
    vfsRead env vfs p cap = (vfs, some r) := by
  refine Prod.ext ?_ h
  rw [vfsRead] at h ⊢
  split_ifs at h ⊢ with hcheck hproc htmp
  · rfl
  · rfl
  · rw [vfsReadRaw] at h ⊢
    split_ifs at h ⊢ with hnull hzero hrandom
    · rfl
    · rfl
    · -- a device that gives random bytes is not a regular file
      rcases hread : env.randomRead cap vfs.pool with ⟨_ | _, data, pool⟩
      · rw [hread] at h
        cases h
      · rw [hread] at h
        cases h
        cases htype
    · rfl

theorem skipSpaces_skipSpaces (a : List UInt8) : skipSpaces (skipSpaces a) = skipSpaces a := dropWhile_idempotent _ a

theorem resolvePath_skipSpaces (cwd f : List UInt8) : resolvePath cwd (skipSpaces f) = resolvePath cwd f := by
  rw [resolvePath, skipSpaces_skipSpaces, resolvePath]

section

variable (h : Reads env s f t)
include h

/-- `file_read_arg` on such a file fills the buffer with its text. -/
theorem Reads.fileReadArg : ∃ b, b.bytes 0 t.length = t ∧
    Shell.fileReadArg env s (skipSpaces f) = ({ s with image := b }, some (resolvePath s.cwd f, b, t.length)) := by
  obtain ⟨r, hread, htype, hn, hle, htake⟩ := h.reading
  refine ⟨s.image.store 0 r.data, ?_, ?_⟩
  · have htaken := ByteMem.take_bytes (s.image.store 0 r.data) 0 r.data.length r.n
    rw [ByteMem.bytes_store, htake, min_eq_left hle] at htaken
    rw [← hn]
    exact htaken.symm
  · rw [Shell.fileReadArg, skipSpaces_skipSpaces, if_neg h.named]
    simp only [resolvePath_skipSpaces, h.allowed, if_true]
    rw [readImage, vfsRead_file hread htype, ← hn]

/-- The same file can be read again. -/
theorem Reads.again (b : ByteMem) : Reads env { s with image := b } f t := ⟨h.named, h.allowed, h.reading⟩

/-- **`head -n K`** shows the first `K` lines. -/
theorem printed_head (K : ℕ) : (∃ b, (cHead env s (lineOption K f)).1 = { s with image := b }) ∧
      printed (cHead env s (lineOption K f)).2.out = if K ≤ 16384 then some (unlines ((lines t).take K)) else none := by
  obtain ⟨b, hb, hread⟩ := h.fileReadArg
  rw [cHead, lineArgs_lineOption K h.named]
  by_cases hK : K ≤ 16384
  · rw [if_pos hK, if_pos hK]
    dsimp only
    rw [hread]
    refine ⟨⟨b, rfl⟩, ?_⟩
    have hfirst := printed_first b t.length K
    rw [hb] at hfirst
    dsimp only
    rw [hb]
    exact hfirst
  · rw [if_neg hK, if_neg hK]
    exact ⟨⟨s.image, rfl⟩, rfl⟩

/-- **`tail -n K`** shows the last `K + 1` lines. -/
theorem printed_tail (K : ℕ) :
    printed (cTail env s (lineOption K f)).2.out =
      if K ≤ 16384 then some (unlines ((lines t).drop ((lines t).length - (K + 1)))) else none := by
  obtain ⟨b, hb, hread⟩ := h.fileReadArg
  rw [cTail, lineArgs_lineOption K h.named]
  by_cases hK : K ≤ 16384
  · rw [if_pos hK, if_pos hK]
    dsimp only
    rw [hread]
    have hlast := printed_last b t.length K
    rw [hb] at hlast
    exact hlast
  · rw [if_neg hK, if_neg hK]
    rfl

end

/-- **The last lines.** For a file of `L` lines `tail -n K` shows the last
`min K L` of them if and only if `L ≤ K` (and `K` is at most 16384), and
`head -n K` followed by `tail -n (L - K)` shows the file if and only if `K = 0`. -/
theorem tail_lines_iff (h : Reads env s f t) (K : ℕ) :
    (printed (cTail env s (lineOption K f)).2.out =
        some (unlines ((lines t).drop ((lines t).length - min K (lines t).length))) ↔
      K ≤ 16384 ∧ (lines t).length ≤ K) ∧
    (K ≤ (lines t).length →
      (printed ((cHead env s (lineOption K f)).2.out ++
          (cTail env (cHead env s (lineOption K f)).1 (lineOption ((lines t).length - K) f)).2.out) =
        some (unlines (lines t)) ↔ K = 0 ∧ (lines t).length ≤ 16384)) := by
  obtain ⟨⟨b, hb⟩, hhead⟩ := printed_head h K
  constructor
  · rw [printed_tail h]
    by_cases hK : K ≤ 16384
    · rw [if_pos hK, some_inj]
      constructor
      · intro heq
        by_contra hlt
        have hshort := @length_unlines_drop_lt (lines t) ((lines t).length - (K + 1))
          ((lines t).length - min K (lines t).length) (by omega) (by omega)
        rw [heq] at hshort
        exact absurd hshort (lt_irrefl _)
      · rintro ⟨-, hle⟩
        rw [show (lines t).length - (K + 1) = (lines t).length - min K (lines t).length by omega]
    · rw [if_neg hK]
      exact iff_of_false (by simp) fun hand => hK hand.1
  · intro hle
    rw [printed_append, hhead, hb, printed_tail (h.again b)]
    by_cases hK : K ≤ 16384
    · rw [if_pos hK, bind_some]
      by_cases hrest : (lines t).length - K ≤ 16384
      · rw [if_pos hrest, map_some, some_inj]
        have hsplit := unlines_append ((lines t).take K) ((lines t).drop K)
        rw [take_append_drop] at hsplit
        rw [hsplit]
        constructor
        · intro heq
          have hlen := congrArg length (append_cancel_left heq)
          by_cases hzero : K = 0
          · exact ⟨hzero, by omega⟩
          · have hshort := @length_unlines_drop_lt (lines t)
              ((lines t).length - ((lines t).length - K + 1)) K (by omega) (by omega)
            omega
        · rintro ⟨rfl, -⟩
          rw [show (lines t).length - ((lines t).length - 0 + 1) = 0 by omega]
      · rw [if_neg hrest]
        exact iff_of_false (by simp) fun hand => hrest (by omega)
    · rw [if_neg hK]
      exact iff_of_false (by simp) fun hand => hK (by omega)

end

/-- `alice` in the directory `/`, with a file `t` in the archive that holds the
given text. -/
def textDesk (text : List UInt8) : Desk Unit where
  vfs := aliceAlone.withFiles [⟨chars ['t'], text, 48⟩]
  cwd := [47]
  image := fun _ => 0
  stack := fun _ => 0

/-- `alice` may read the file. -/
theorem reads_textDesk :
    Reads quietEnv (textDesk (chars ['a', '\n', 'b', '\n'])) (chars ['t']) (chars ['a', '\n', 'b', '\n']) :=
  ⟨by decide, by decide +kernel, .whole (chars ['a', '\n', 'b', '\n']) 0o444 .initramfs, rfl, rfl, rfl, le_rfl, rfl⟩

/-- `tail -n 2` on a file of two lines. -/
theorem tail_two_lines :
    printed (cTail quietEnv (textDesk (chars ['a', '\n', 'b', '\n'])) (lineOption 2 (chars ['t']))).2.out =
      some (chars ['a', '\n', 'b', '\n']) :=
  (tail_lines_iff reads_textDesk 2).1.2 ⟨by decide, by decide⟩

/-- `tail -n 1` on a file of the two lines `a` and `b`. -/
theorem tail_shows_both_lines :
    lines (chars ['a', '\n', 'b', '\n']) = [chars ['a'], chars ['b']] ∧
      printed (cTail quietEnv (textDesk (chars ['a', '\n', 'b', '\n'])) (chars ['-', 'n', ' ', '1', ' ', 't'])).2.out =
        some (chars ['a', '\n', 'b', '\n']) := by
  decide +kernel

end OS64.Shell
