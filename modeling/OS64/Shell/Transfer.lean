import OS64.Shell.Lines
import OS64.Vfs.Contents

/-!
# Copying a part of a file

`dd if=IN of=OUT bs=B count=C` is meant to copy the first `B * C` bytes of a file, or all
of it if it is shorter. It reads once, and what it passes to `vfs_read` as the room in the
buffer is not the room that there is, 256 KiB, but the number of bytes that are asked for.
Most backends refuse to read a file that does not fit, so the beginning of a longer file
is not copied but reported as unreadable; `/proc` leaves out a byte; and of a file on
`/home` there is one sector, followed by what the buffer held before.

What the command hands to `vfs_write` is `OS64.Shell.ddHanded`, and
`OS64.Shell.dd_prefix_iff` says when that is the beginning of the file.
-/

namespace OS64.Shell

open List Text Auth Vfs ByteMem

/-! ### The line -/

/-- `if=IN of=OUT bs=B count=C`. -/
def ddLine (input output : List UInt8) (bs count : ℕ) : List UInt8 :=
  List.intercalate [32] [chars ['i', 'f', '='] ++ input, chars ['o', 'f', '='] ++ output,
    chars ['b', 's', '='] ++ decimal bs, chars ['c', 'o', 'u', 'n', 't', '='] ++ decimal count]

variable {input output : List UInt8} {bs count : ℕ}

theorem ddOperand_input (o : DdArgs) (h : input ≠ []) :
    ddOperand o (chars ['i', 'f', '='] ++ input) = .ok { o with input := input.take 127 } := by
  have hlen := length_pos_of_ne_nil h
  rw [ddOperand, if_pos ⟨by simp only [length_append, chars]; simp; omega, rfl⟩]
  rfl

theorem ddOperand_output (o : DdArgs) (h : output ≠ []) :
    ddOperand o (chars ['o', 'f', '='] ++ output) = .ok { o with output := output.take 127 } := by
  have hlen := length_pos_of_ne_nil h
  rw [ddOperand, if_neg (fun hand => Bool.false_ne_true hand.2),
    if_pos ⟨by simp only [length_append, chars]; simp; omega, rfl⟩]
  rfl

theorem ddOperand_bs (o : DdArgs) (h : 0 < bs) : ddOperand o (chars ['b', 's', '='] ++ decimal bs) =
    if bs ≤ 16384 then .ok { o with bs := bs } else .error "dd: invalid block size\n" := by
  have hlen := length_pos_of_ne_nil (decimal_ne_nil bs)
  rw [ddOperand, if_neg (fun hand => Bool.false_ne_true hand.2), if_neg (fun hand => Bool.false_ne_true hand.2),
    if_pos ⟨by simp only [length_append, chars]; simp; omega, rfl⟩,
    show ((chars ['b', 's', '='] ++ decimal bs).drop 3).take 15 = (decimal bs).take 15 from rfl, parseSize_decimal]
  obtain ⟨k, rfl⟩ := Nat.exists_eq_succ_of_ne_zero h.ne'
  split_ifs
  · rfl
  · rfl

theorem ddOperand_count (o : DdArgs) : ddOperand o (chars ['c', 'o', 'u', 'n', 't', '='] ++ decimal count) =
    if count ≤ 16384 then .ok { o with count := count } else .error "dd: invalid count\n" := by
  have hlen := length_pos_of_ne_nil (decimal_ne_nil count)
  rw [ddOperand, if_neg (fun hand => Bool.false_ne_true hand.2), if_neg (fun hand => Bool.false_ne_true hand.2),
    if_neg (fun hand => Bool.false_ne_true hand.2),
    if_pos ⟨by simp only [length_append, chars]; simp; omega, rfl⟩,
    show ((chars ['c', 'o', 'u', 'n', 't', '='] ++ decimal count).drop 6).take 15 = (decimal count).take 15 from rfl,
    parseSize_decimal]
  split_ifs
  · rfl
  · rfl

/-- A line with four operands. Numbers beyond 16384 are refused. -/
theorem ddArgs_ddLine (hinput : input ≠ [] ∧ 32 ∉ input) (houtput : output ≠ [] ∧ 32 ∉ output) (hbs : 0 < bs) :
    (bs ≤ 16384 ∧ count ≤ 16384 → ddArgs (ddLine input output bs count) =
      .ok ⟨input.take 127, output.take 127, bs, count⟩) ∧
    (¬(bs ≤ 16384 ∧ count ≤ 16384) → ∃ m, ddArgs (ddLine input output bs count) = .error m) := by
  have hdigits : ∀ n, (32 : UInt8) ∉ decimal n := fun n hmem =>
    absurd (isDigit_of_mem_decimal hmem) (by decide)
  have hsplit : (ddLine input output bs count).splitOn 32 = [chars ['i', 'f', '='] ++ input,
      chars ['o', 'f', '='] ++ output, chars ['b', 's', '='] ++ decimal bs,
      chars ['c', 'o', 'u', 'n', 't', '='] ++ decimal count] := by
    refine splitOn_intercalate 32 (fun w hw => ?_) (cons_ne_nil _ _)
    simp only [mem_cons, not_mem_nil, or_false] at hw
    rcases hw with rfl | rfl | rfl | rfl
    · exact fun hmem => (mem_append.mp hmem).elim (by decide) hinput.2
    · exact fun hmem => (mem_append.mp hmem).elim (by decide) houtput.2
    · exact fun hmem => (mem_append.mp hmem).elim (by decide) (hdigits bs)
    · exact fun hmem => (mem_append.mp hmem).elim (by decide) (hdigits count)
  have hwords : ((ddLine input output bs count).splitOn 32).filter (· ≠ []) = [chars ['i', 'f', '='] ++ input,
      chars ['o', 'f', '='] ++ output, chars ['b', 's', '='] ++ decimal bs,
      chars ['c', 'o', 'u', 'n', 't', '='] ++ decimal count] := by
    rw [hsplit]
    rfl
  have htake : ∀ {w : List UInt8}, w ≠ [] → w.take 127 ≠ [] := fun hw htake =>
    (take_eq_nil_iff.mp htake).elim (by decide) hw
  simp only [ddArgs, hwords, foldlM_cons, ddOperand_input _ hinput.1, ddOperand_output _ houtput.1, ddOperand_bs _ hbs,
    ddOperand_count, foldlM_nil, bind, Except.bind, pure, Except.pure]
  refine ⟨fun hand => ?_, fun hnot => ?_⟩
  · rw [if_pos hand.1]
    simp only [if_pos hand.2, htake hinput.1, htake houtput.1, or_self, if_false]
  · by_cases hb : bs ≤ 16384
    · have hc : ¬count ≤ 16384 := fun hc => hnot ⟨hb, hc⟩
      rw [if_pos hb]
      simp only [if_neg hc]
      exact ⟨_, rfl⟩
    · rw [if_neg hb]
      exact ⟨_, rfl⟩

/-! ### What is handed on -/

section

variable {R : Type} (env : Env R) (s : Desk R)

/-- The path and the bytes that `c_dd` passes to `vfs_write`, if it comes to that. -/
def ddHanded (a : List UInt8) : Option (Path × List UInt8) :=
  match ddArgs a with
  | .error _ => none
  | .ok o =>
    let ip := resolvePath s.cwd o.input
    let op := resolvePath s.cwd o.output
    let requested := if o.count ≠ 0 then o.bs * o.count else imageCapacity
    if (ofpAllowed s.vfs.auth ip ofpRead ∧ protectWrite s op) ∧ ¬requested > imageCapacity then
      (readImage env s ip requested).2.map fun r =>
        (op, r.1.bytes 0 (if o.count ≠ 0 ∧ r.2 > requested then requested else r.2))
    else none

/-- The line that reports how much was copied. -/
def ddReport (bs n : ℕ) : List Shown :=
  [.number ((n + bs - 1) / bs), .message "+0 records in\n", .number ((n + bs - 1) / bs),
    .message "+0 records out\n", .number n, .message " bytes copied\n"]

/-- The command hands `d` to `vfs_write` for the path `p`, the files are then as
`vfs_write` leaves them, and all of it is reported as copied. -/
structure DdCopies (a : List UInt8) (bs : ℕ) (p : Path) (d : List UInt8) : Prop where
  handed : ddHanded env s a = some (p, d)
  written : (cDd env s a).1.vfs = (vfsWrite env s.vfs p d).1
  reported : (cDd env s a).2.out = ddReport bs d.length

variable {env s} {p : Path} {cap : ℕ} {t : List UInt8}

/-- Reading a file that leaves the files as they are. -/
theorem readImage_eq (h : vfsRead env s.vfs p cap = (s.vfs, (vfsRead env s.vfs p cap).2)) :
    readImage env s p cap = match delivered env s.vfs p cap with
      | none => (s, none)
      | some (d, n) => ({ s with image := s.image.store 0 d }, some (s.image.store 0 d, n)) := by
  rw [readImage, delivered]
  generalize vfsRead env s.vfs p cap = x at h
  obtain ⟨vfs, _ | r⟩ := x
  · rw [(Prod.mk.inj h).1]
    rfl
  · rw [(Prod.mk.inj h).1]
    rfl

/-- What is handed on is also what is written. -/
theorem ddCopies_iff {a : List UInt8} {o : DdArgs} (ha : ddArgs a = .ok o) (hcount : 0 < o.count)
    {op : Path} {d : List UInt8} (hop : op = resolvePath s.cwd o.output)
    (hread : vfsRead env s.vfs (resolvePath s.cwd o.input) (o.bs * o.count) =
      (s.vfs, (vfsRead env s.vfs (resolvePath s.cwd o.input) (o.bs * o.count)).2))
    (hroom : (vfsWrite env s.vfs op d).2 = .ok d.length) :
    DdCopies env s a o.bs op d ↔ ddHanded env s a = some (op, d) := by
  refine ⟨fun h => h.handed, fun h => ?_⟩
  have hhanded := h
  rw [ddHanded, ha] at h
  simp only [hcount.ne', ne_eq, not_false_eq_true, if_true, true_and] at h
  split_ifs at h with hcond
  obtain ⟨⟨b, n⟩, hr, hd⟩ := Option.map_eq_some_iff.mp h
  obtain ⟨-, hd⟩ := Prod.mk.inj hd
  have hstate : (readImage env s (resolvePath s.cwd o.input) (o.bs * o.count)).1.vfs = s.vfs := by
    rw [readImage_eq hread]
    split
    · rfl
    · rfl
  have hrun : cDd env s a = ddWrite env (readImage env s (resolvePath s.cwd o.input) (o.bs * o.count)).1 o.bs op b
      (if n > o.bs * o.count then o.bs * o.count else n) := by
    rw [cDd, ha]
    simp only [if_pos hcond.1, ddTransfer, hcount.ne', ne_eq, not_false_eq_true, if_true, if_neg hcond.2, true_and]
    rw [show readImage env s (resolvePath s.cwd o.input) (o.bs * o.count) =
      ((readImage env s (resolvePath s.cwd o.input) (o.bs * o.count)).1, some (b, n)) from Prod.ext rfl hr, hop]
  have hlen : (if n > o.bs * o.count then o.bs * o.count else n) = d.length := by
    rw [← hd, length_bytes]
  rw [hlen] at hrun hd
  have hwrite : ddWrite env (readImage env s (resolvePath s.cwd o.input) (o.bs * o.count)).1 o.bs op b d.length =
      ({ (readImage env s (resolvePath s.cwd o.input) (o.bs * o.count)).1 with vfs := (vfsWrite env s.vfs op d).1 },
        ⟨ddReport o.bs d.length, 0, none⟩) := by
    rw [ddWrite, hstate, hd, show vfsWrite env s.vfs op d = ((vfsWrite env s.vfs op d).1, .ok d.length) from
      Prod.ext rfl hroom]
    simp only [if_true]
    rfl
  rw [hwrite] at hrun
  exact ⟨hhanded, by rw [hrun], by rw [hrun]⟩

/-! ### Enough room -/

/-- What has to be the case for `cap` bytes of a file that holds `t` to be read, or all of
it if it is shorter, into a buffer that holds something already. -/
def EnoughRoom (s : Desk R) (p : Path) (cap : ℕ) (t : List UInt8) : Backend → Prop
  -- a byte is kept for the end of the text
  | .procfs => t.length < cap
  -- one sector is read; behind it there is what the buffer held before
  | .fat32 => 512 ≤ cap ∧ s.image.bytes 512 (min t.length cap - 512) = (t.take cap).drop 512
  -- the archive is asked for what does not fit
  | .ext2 => t.length ≤ cap ∨ ∃ e, fsFind s.vfs p = some e ∧ e.isDir = false ∧ e.data = t.take cap
  | _ => t.length ≤ cap

/-- The bytes in front of the number returned, or of what was asked for. -/
def handedBytes (s : Desk R) (cap : ℕ) (r : List UInt8 × ℕ) : List UInt8 :=
  (s.image.store 0 r.1).bytes 0 (if r.2 > cap then cap else r.2)

/-- A file that was read as a whole. -/
theorem handedBytes_whole (h : t.length ≤ cap) : handedBytes s cap (t, t.length) = t := by
  rw [handedBytes, if_neg (by omega)]
  exact bytes_store s.image 0 t

/-- A file of which a sector was read. -/
theorem handedBytes_sector {d : List UInt8} (hd : d.length = 512) (ht : d.take t.length = t.take 512)
    (hcap : 512 ≤ cap) : handedBytes s cap (d, t.length) = t.take cap ↔
      s.image.bytes 512 (min t.length cap - 512) = (t.take cap).drop 512 := by
  have hk : (if t.length > cap then cap else t.length) = min t.length cap := by
    split_ifs <;> omega
  have hstore : (s.image.store 0 d).bytes 0 512 = d := by
    rw [← hd]
    exact bytes_store s.image 0 d
  simp only [handedBytes, hk]
  by_cases hshort : t.length ≤ 512
  · -- all of the file is in the sector
    rw [min_eq_left (by omega), show t.length - 512 = 0 by omega, take_of_length_le (by omega : t.length ≤ cap),
      drop_of_length_le hshort]
    refine iff_of_true ?_ rfl
    have hbytes := take_bytes (s.image.store 0 d) 0 512 t.length
    rw [hstore, ht, take_of_length_le hshort, min_eq_left hshort] at hbytes
    exact hbytes.symm
  · have hfirst : d = t.take 512 := by
      rw [← ht]
      exact (take_of_length_le (by omega)).symm
    have hbehind : (s.image.store 0 d).bytes 512 (min t.length cap - 512) =
        s.image.bytes 512 (min t.length cap - 512) :=
      bytes_congr fun x hx _ => store_of_notMem _ (.inr (by omega))
    have hsplit := bytes_add (s.image.store 0 d) 0 512 (min t.length cap - 512)
    rw [show 512 + (min t.length cap - 512) = min t.length cap by omega, zero_add, hstore, hbehind] at hsplit
    have htake : (t.take cap).take 512 = d := by
      rw [take_take, min_eq_left hcap, hfirst]
    rw [hsplit, ← take_append_drop 512 (t.take cap), htake, append_right_inj, drop_left' hd]

/-- All or nothing. -/
theorem handed_whole_iff : (if t.length ≤ cap then some (t, t.length) else none).map (handedBytes s cap) =
    some (t.take cap) ↔ t.length ≤ cap := by
  by_cases hcap : t.length ≤ cap
  · rw [if_pos hcap, Option.map_some, handedBytes_whole hcap, take_of_length_le hcap]
    exact iff_of_true rfl hcap
  · rw [if_neg hcap, Option.map_none]
    exact iff_of_false (by simp) hcap

/-- A text that is cut off in front of the last byte. -/
theorem handed_cut_iff (hcap : 0 < cap) :
    handedBytes s cap (t.take (cap - 1), (t.take (cap - 1)).length) = t.take cap ↔ t.length < cap := by
  have hle : (t.take (cap - 1)).length ≤ cap := by
    rw [length_take]
    omega
  rw [handedBytes_whole hle]
  refine ⟨fun heq => ?_, fun hlt => ?_⟩
  · have hlen := congrArg List.length heq
    rw [length_take, length_take] at hlen
    omega
  · rw [take_of_length_le (by omega), take_of_length_le (by omega)]

/-- What the archive has instead of a file that does not fit. -/
theorem handed_archive_iff (hlong : ¬t.length ≤ cap) :
    ((readArchive s.vfs p cap).map fun r => (r.data, r.n)).map (handedBytes s cap) = some (t.take cap) ↔
      ∃ e, fsFind s.vfs p = some e ∧ e.isDir = false ∧ e.data = t.take cap := by
  have htake : (t.take cap).length = cap := by
    rw [length_take]
    omega
  refine ⟨fun h => ?_, ?_⟩
  · rw [readArchive] at h
    rcases he : fsFind s.vfs p with _ | e
    · simp [he] at h
    rw [he] at h
    by_cases hbad : e.isDir = true ∨ e.data.length > cap
    · simp [hbad] at h
    rw [not_or, Bool.not_eq_true, not_lt] at hbad
    have hmap := readArchive_map he hbad.1 cap
    rw [readArchive, he, if_pos hbad.2] at hmap
    rw [hmap, Option.map_some, handedBytes_whole hbad.2] at h
    exact ⟨e, rfl, hbad.1, Option.some.inj h⟩
  · rintro ⟨e, he, hfile, hdata⟩
    have hle : e.data.length ≤ cap := by rw [hdata, htake]
    rw [readArchive_map he hfile, if_pos hle, Option.map_some, handedBytes_whole hle, hdata]

/-- **What is handed on is the beginning of the file exactly if there is room.** -/
theorem handed_iff {k : Backend} (h : FileAt env s.vfs p k t)
    (hcheck : vfsCheckPermission env s.vfs p accessRead = true) (hcap : 0 < cap) :
    (delivered env s.vfs p cap).map (handedBytes s cap) = some (t.take cap) ↔ EnoughRoom s p cap t k := by
  cases h with
  | proc hp ht =>
    rw [(delivered_proc hcheck cap hp ht).2, Option.map_some, Option.some_inj]
    exact handed_cut_iff hcap
  | tmp hp hnode =>
    rw [(delivered_tmp hcheck cap hp hnode).2]
    exact handed_whole_iff
  | home hp ht =>
    have hdel := (delivered_home hcheck cap hp ht).2
    by_cases hlt : cap < 512
    · rw [if_pos hlt] at hdel
      rw [hdel, Option.map_none]
      exact iff_of_false (by simp) fun hand => absurd hand.1 (by omega)
    · rw [if_neg hlt] at hdel
      obtain ⟨b, hb, htake⟩ := hdel
      rw [hb, Option.map_some, Option.some_inj, handedBytes_sector (length_bytes b 0 512) htake (by omega)]
      exact (and_iff_right (by omega)).symm
  | native hp ht =>
    rw [(delivered_native hcheck cap hp ht).2]
    by_cases hle : t.length ≤ cap
    · have hwhole := (@handed_whole_iff R s cap t).mpr hle
      rw [if_pos hle] at hwhole ⊢
      exact iff_of_true hwhole (.inl hle)
    · rw [if_neg hle, handed_archive_iff hle]
      exact (or_iff_right hle).symm
  | archive hproc htmp hhome hdev hnative he hfile =>
    rw [(delivered_archive hcheck cap hproc htmp hhome hdev.1 hnative he hfile).2]
    exact handed_whole_iff

/-- The operand is cut to 127 characters, which is as much of it as `resolve_path` looks at. -/
theorem resolvePath_take (cwd : Path) {w : List UInt8} (hw : 32 ∉ w) :
    resolvePath cwd (w.take 127) = resolvePath cwd w := by
  have hskip : ∀ {v : List UInt8}, 32 ∉ v → skipSpaces v = v := by
    intro v hv
    cases v with
    | nil => rfl
    | cons c v =>
      have hc : c ≠ 32 := fun hc => hv (hc ▸ mem_cons_self)
      exact dropWhile_cons_of_neg (by simpa using hc)
  have hraw : resolveRaw cwd (w.take 127) = resolveRaw cwd w := by
    have hhead : (w.take 127).head? = w.head? := by
      cases w with
      | nil => rfl
      | cons c w => rfl
    simp only [resolveRaw, hhead, take_take]
    congr 2
    omega
  rw [resolvePath, resolvePath, hskip hw, hskip fun hmem => hw (mem_of_mem_take hmem), hraw]

/-- **`dd` copies the beginning of a file exactly if** both numbers are at most 16384 and
there is enough room in as many bytes as are asked for. -/
theorem dd_prefix_iff {k : Backend} (hinput : input ≠ [] ∧ 32 ∉ input) (houtput : output ≠ [] ∧ 32 ∉ output)
    (hbs : 0 < bs) (hcount : 0 < count) (hmax : bs * count ≤ imageCapacity)
    (hfile : FileAt env s.vfs (resolvePath s.cwd input) k t)
    (hallowed : ofpAllowed s.vfs.auth (resolvePath s.cwd input) ofpRead = true)
    (hcheck : vfsCheckPermission env s.vfs (resolvePath s.cwd input) accessRead = true)
    (hprotect : protectWrite s (resolvePath s.cwd output) = true)
    (hroom : (vfsWrite env s.vfs (resolvePath s.cwd output) (t.take (bs * count))).2 =
      .ok (t.take (bs * count)).length) :
    DdCopies env s (ddLine input output bs count) bs (resolvePath s.cwd output) (t.take (bs * count)) ↔
      bs ≤ 16384 ∧ count ≤ 16384 ∧ EnoughRoom s (resolvePath s.cwd input) (bs * count) t k := by
  have hargs := @ddArgs_ddLine input output bs count hinput houtput hbs
  by_cases hnumbers : bs ≤ 16384 ∧ count ≤ 16384
  case neg =>
    obtain ⟨m, hm⟩ := hargs.2 hnumbers
    refine iff_of_false (fun h => ?_) fun hand => hnumbers ⟨hand.1, hand.2.1⟩
    have hhanded := h.handed
    rw [ddHanded, hm] at hhanded
    simp at hhanded
  have ha := hargs.1 hnumbers
  have hip := resolvePath_take s.cwd hinput.2
  have hop := resolvePath_take s.cwd houtput.2
  have hread := hfile.vfsRead_eq hcheck (bs * count)
  rw [ddCopies_iff ha hcount hop.symm (by simpa only [hip] using hread) hroom, ddHanded, ha]
  simp only [hip, hop, hcount.ne', ne_eq, not_false_eq_true, if_true, true_and]
  rw [if_pos ⟨⟨hallowed, hprotect⟩, by omega⟩, readImage_eq hread, ← and_assoc, and_iff_right hnumbers,
    ← handed_iff hfile hcheck (mul_pos hbs hcount)]
  rcases hdel : delivered env s.vfs (resolvePath s.cwd input) (bs * count) with _ | ⟨d, n⟩
  · simp
  · simp only [Option.map_some, Option.some_inj, Prod.mk.injEq, true_and, handedBytes]

end

/-- The file of two bytes that `alice` has at hand. -/
theorem fileAt_textDesk : FileAt quietEnv (textDesk (chars ['a', '\n'])).vfs (resolvePath [47] (chars ['t'])) .initramfs
    (chars ['a', '\n']) :=
  FileAt.archive (by decide) (by decide) (by decide) (by decide) (fun hnative => absurd hnative (by decide))
    (show fsFind (textDesk (chars ['a', '\n'])).vfs _ = some ⟨chars ['t'], chars ['a', '\n'], 48⟩ from rfl) rfl

/-- `/tmp/o`. -/
def outputPath : Path := tmpPrefix ++ chars ['o']

/-- Two bytes are copied from a file of two bytes. -/
theorem dd_whole_file : DdCopies quietEnv (textDesk (chars ['a', '\n'])) (ddLine (chars ['t']) outputPath 2 1) 2
    (resolvePath [47] outputPath) ((chars ['a', '\n']).take (2 * 1)) :=
  (dd_prefix_iff ⟨by decide, by decide⟩ ⟨by decide, by decide⟩ (by decide) (by decide) (by decide) fileAt_textDesk
    (by decide +kernel) (by decide +kernel) (by decide +kernel) (by decide +kernel)).mpr
    ⟨by decide, by decide, le_rfl⟩

/-- One byte is not copied from a file of two bytes. -/
theorem dd_longer_file :
    FileAt quietEnv (textDesk (chars ['a', '\n'])).vfs (resolvePath [47] (chars ['t'])) .initramfs (chars ['a', '\n']) ∧
    (vfsWrite quietEnv (textDesk (chars ['a', '\n'])).vfs (resolvePath [47] outputPath) (chars ['a'])).2 = .ok 1 ∧
    (cDd quietEnv (textDesk (chars ['a', '\n'])) (ddLine (chars ['t']) outputPath 1 1)).2.out =
      [.message "dd: failed to read input\n"] ∧
    ¬DdCopies quietEnv (textDesk (chars ['a', '\n'])) (ddLine (chars ['t']) outputPath 1 1) 1
      (resolvePath [47] outputPath) ((chars ['a', '\n']).take (1 * 1)) := by
  have hout : (cDd quietEnv (textDesk (chars ['a', '\n'])) (ddLine (chars ['t']) outputPath 1 1)).2.out =
      [.message "dd: failed to read input\n"] := by decide +kernel
  refine ⟨fileAt_textDesk, by decide +kernel, hout, fun h => ?_⟩
  have hreport := h.reported
  cases hreport

end OS64.Shell
