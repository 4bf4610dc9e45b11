import OS64.Auth.Accounts

/-!
# Writing the accounts and reading them back

The table is kept in two files. `auth_export_shadow` writes one line for each
account with its salt and key, `auth_export_accounts` one with its numbers, role
and groups. `auth_load` reads the first and gives every account the defaults of
its place, and `auth_load_accounts` replaces these by what the second says.

Names and salts go into the lines as they are. A line is read back if the name
has no colon in it and the salt no dollar sign, which ends it. The salt of a
password that is set is made from the name, so that a dollar sign in a name ends
up in the salt (`reload_fails_with_dollar`); `KeptAs` says what else is true of
every account at any time. For all other tables the two files restore the
records one by one (`reload_restores`).
-/

namespace OS64.Auth

open List Text Runs Option

/-! ### The two formats -/

variable {r : Record} {t : State}

/-- The line of an account in the file of keys. -/
def shadowText (r : Record) : List UInt8 :=
  r.user ++ 58 :: if r.locked then [33]
    else shadowStart ++ (r.salt ++ 36 :: r.hash.1.flatMap hexPair)

/-- The line of an account in the file of accounts. -/
def accountText (r : Record) : List UInt8 :=
  r.user ++ 58 :: (decimal r.uid.toNat ++ 58 :: (decimal r.gid.toNat ++ 58 ::
    (decimal r.role.code.toNat ++ 58 :: decimal r.groups.toNat)))

theorem length_flatMap_hexPair : ∀ l : List UInt8, (l.flatMap hexPair).length = 2 * l.length
  | [] => rfl
  | b :: l => by
    rw [flatMap_cons, length_append, length_flatMap_hexPair l, length_cons]
    change 2 + 2 * l.length = 2 * (l.length + 1)
    omega

theorem length_shadowText_le (r : Record) : (shadowText r ++ [10]).length ≤ 134 := by
  have hstart : shadowStart.length = 21 := rfl
  have huser := r.user_fits.1
  have hsalt := r.salt_fits.1
  have hhash : (r.hash.1.flatMap hexPair).length = 64 := by
    rw [length_flatMap_hexPair, r.hash.2]
  rw [shadowText]
  split
  · simp only [length_append, length_cons, length_nil]
    omega
  · simp only [length_append, length_cons, length_nil, hhash, hstart]
    omega

theorem length_accountText_le (r : Record) : (accountText r ++ [10]).length ≤ 50 := by
  have huser := r.user_fits.1
  have huid := length_decimal_le (v := r.uid.toNat) (k := 5) (by decide)
    (lt_trans r.uid.toNat_lt (by decide))
  have hgid := length_decimal_le (v := r.gid.toNat) (k := 5) (by decide)
    (lt_trans r.gid.toNat_lt (by decide))
  have hrole := length_decimal_le (v := r.role.code.toNat) (k := 10) (by decide)
    (lt_trans r.role.code.toNat_lt (by decide))
  have hgroups := length_decimal_le (v := r.groups.toNat) (k := 10) (by decide)
    (lt_trans r.groups.toNat_lt (by decide))
  rw [accountText]
  simp only [length_append, length_cons, length_nil]
  omega

section

variable {cap : ℕ}

theorem putKey_of_le : ∀ {bs out : List UInt8}, out.length + 2 * bs.length ≤ cap →
    putKey cap bs out = some (out ++ bs.flatMap hexPair)
  | [], out, _ => by rw [putKey, flatMap_nil, append_nil]
  | b :: bs, out, h => by
    rw [length_cons] at h
    rw [putKey, put2, if_neg (by omega), bind_some,
      putKey_of_le (by rw [length_append]; change out.length + 2 + _ ≤ _; omega),
      flatMap_cons, append_assoc]

variable {out : List UInt8}

/-- A line of the file of keys that fits is written. -/
theorem putShadow_of_le (h : out.length + (shadowText r ++ [10]).length ≤ cap) :
    putShadow cap r out = some (out ++ (shadowText r ++ [10])) := by
  rw [shadowText] at h ⊢
  simp only [putShadow, bind_eq_bind]
  cases hlocked : r.locked with
  | true =>
    simp only [hlocked, if_true, length_append, length_cons, length_nil] at h
    rw [puts_of_le (by omega), bind_some, putc_of_lt (by rw [length_append]; omega),
      bind_some, put2, if_pos rfl, if_neg]
    · simp only [if_true, append_assoc, cons_append, nil_append]
    · simp only [length_append, length_cons, length_nil]
      omega
  | false =>
    have hhash : (r.hash.1.flatMap hexPair).length = 2 * r.hash.1.length := length_flatMap_hexPair r.hash.1
    simp only [hlocked, Bool.false_eq_true, if_false, length_append, length_cons, length_nil, hhash] at h
    rw [puts_of_le (by omega), bind_some, putc_of_lt (by rw [length_append]; omega),
      bind_some, if_neg (by simp), puts_of_le, bind_some, puts_of_le, bind_some,
      putc_of_lt, bind_some, putKey_of_le, bind_some, putc_of_lt]
    · simp only [Bool.false_eq_true, if_false, append_assoc, cons_append, nil_append]
    all_goals
      simp only [length_append, length_cons, length_nil, hhash]
      omega

/-- A line of the file of accounts that fits is written. -/
theorem putAccount_of_le (h : out.length + (accountText r ++ [10]).length ≤ cap) :
    putAccount cap r out = some (out ++ (accountText r ++ [10])) := by
  rw [accountText] at h ⊢
  simp only [length_append, length_cons, length_nil] at h
  simp only [putAccount, putnum, bind_eq_bind]
  rw [puts_of_le (by omega), bind_some, putc_of_lt, bind_some, puts_of_le,
    bind_some, putc_of_lt, bind_some, puts_of_le, bind_some, putc_of_lt,
    bind_some, puts_of_le, bind_some, putc_of_lt, bind_some, puts_of_le,
    bind_some, putc_of_lt]
  · simp only [append_assoc, cons_append, nil_append]
  all_goals
    simp only [length_append, length_cons, length_nil]
    omega

/-- **The file of keys fits.** -/
theorem authExportShadow_eq (t : State) (hcap : 134 * 16 ≤ cap) :
    authExportShadow t cap = some (t.records.flatMap fun r => shadowText r ++ [10]) := by
  have hle := t.length_le
  rw [authExportShadow, foldlM_of_le length_shadowText_le (fun r out => putShadow_of_le), nil_append]
  rw [length_nil]
  omega

/-- **The file of accounts fits.** -/
theorem authExportAccounts_eq (t : State) (hcap : 50 * 16 ≤ cap) :
    authExportAccounts t cap = some (t.records.flatMap fun r => accountText r ++ [10]) := by
  have hle := t.length_le
  rw [authExportAccounts, foldlM_of_le length_accountText_le (fun r out => putAccount_of_le), nil_append]
  rw [length_nil]
  omega

end

/-! ### Reading a line of keys -/

/-- What is true of every account: a locked one has no key, and a salt can be
written into a line or was made from the name. -/
structure KeptAs (r : Record) : Prop where
  locked : r.locked = true → r.salt = [] ∧ r.hash = Hash.zero
  salt : (36 ∉ r.salt ∧ 10 ∉ r.salt) ∨ r.salt = saltFor r.user

/-- The name of the account can be written into a line. -/
structure Writable (r : Record) : Prop where
  nonempty : r.user ≠ []
  colon : 58 ∉ r.user
  newline : 10 ∉ r.user
  dollar : 36 ∉ r.user
  comment : r.user.head? ≠ some 35

theorem KeptAs.salt_notMem (h : KeptAs r) (hw : Writable r) : 36 ∉ r.salt ∧ 10 ∉ r.salt := by
  rcases h.salt with hsalt | hsalt
  · exact hsalt
  · have hstart : 36 ∉ saltStart ∧ 10 ∉ saltStart := by decide
    rw [hsalt, saltFor]
    refine ⟨fun hmem => ?_, fun hmem => ?_⟩
    · rcases mem_append.mp hmem with hmem | hmem
      · exact hstart.1 hmem
      · exact hw.dollar (mem_of_mem_take hmem)
    · rcases mem_append.mp hmem with hmem | hmem
      · exact hstart.2 hmem
      · exact hw.newline (mem_of_mem_take hmem)

@[simp] theorem salt_defaults (r : Record) (index : ℕ) : (defaults r index).salt = r.salt := by
  rw [defaults]
  split
  · rfl
  · split
    · rfl
    · rfl

@[simp] theorem hash_defaults (r : Record) (index : ℕ) : (defaults r index).hash = r.hash := by
  rw [defaults]
  split
  · rfl
  · split
    · rfl
    · rfl

@[simp] theorem locked_defaults (r : Record) (index : ℕ) : (defaults r index).locked = r.locked := by
  rw [defaults]
  split
  · rfl
  · split
    · rfl
    · rfl

/-- The defaults go by the name. -/
theorem defaults_congr {r' : Record} (h : r.user = r'.user) (index : ℕ) :
    (defaults r index).uid = (defaults r' index).uid ∧ (defaults r index).gid = (defaults r' index).gid ∧
      (defaults r index).role = (defaults r' index).role ∧
      (defaults r index).groups = (defaults r' index).groups := by
  by_cases hroot : r'.user = rootName
  · rw [defaults, defaults, if_pos (h.trans hroot), if_pos hroot]
    exact ⟨rfl, rfl, rfl, rfl⟩
  · by_cases hnobody : r'.user = nobodyName
    · rw [defaults, defaults, if_neg (fun h' => hroot (h.symm.trans h')), if_neg hroot,
        if_pos (h.trans hnobody), if_pos hnobody]
      exact ⟨rfl, rfl, rfl, rfl⟩
    · rw [defaults, defaults, if_neg (fun h' => hroot (h.symm.trans h')), if_neg hroot,
        if_neg (fun h' => hnobody (h.symm.trans h')), if_neg hnobody]
      exact ⟨rfl, rfl, rfl, rfl⟩

theorem user_named (r : Record) : (Record.named (r.user.take 15)).user = r.user := by
  change (cstr (r.user.take 15)).take 15 = r.user
  rw [take_of_length_le r.user_fits.1, cstr_eq_self r.user_fits.2, take_of_length_le r.user_fits.1]

variable {v i : ℕ}

theorem hex_hexDigit (h : v < 16) : hex (hexDigit v) = some v := by
  have hall : ∀ v < 16, hex (hexDigit v) = some v := by decide
  exact hall v h

/-- A key is read back. -/
theorem hexBytes_flatMap_hexPair : ∀ (l : List UInt8) {n : ℕ} (hn : l.length = n),
    hexBytes n (l.flatMap hexPair) = some ⟨l, hn⟩
  | [], _, rfl => rfl
  | b :: l, _, rfl => by
    have hbyte : UInt8.ofNat (b.toNat / 16 * 16 + b.toNat % 16) = b := by
      rw [Nat.div_add_mod', UInt8.ofNat_toNat]
    have hdiv : b.toNat / 16 < 16 := by
      have := b.toNat_lt
      omega
    rw [flatMap_cons, hexPair]
    change hexBytes (l.length + 1) (hexDigit (b.toNat / 16) :: hexDigit (b.toNat % 16) :: l.flatMap hexPair) = _
    rw [hexBytes, hex_hexDigit hdiv, hex_hexDigit (Nat.mod_lt _ (by decide)), hexBytes_flatMap_hexPair l rfl]
    simp only [hbyte]

theorem parseKey_text {r₀ : Record} (hsalt : 36 ∉ r.salt) :
    parseKey r₀ (r.salt ++ 36 :: r.hash.1.flatMap hexPair) =
      some { r₀ with salt := r.salt, hash := r.hash, salt_fits := r.salt_fits } := by
  have htake : (r.salt ++ 36 :: r.hash.1.flatMap hexPair).takeWhile (· != 36) = r.salt := by
    refine takeWhile_append_cons _ (fun c hc => ?_) rfl
    rw [bne_iff_ne]
    rintro rfl
    exact hsalt hc
  have hcopied : copied 31 r.salt = r.salt := by
    rw [copied, cstr_eq_self r.salt_fits.2, take_of_length_le r.salt_fits.1]
  simp only [parseKey, htake, take_of_length_le r.salt_fits.1, drop_left]
  rw [hexBytes_flatMap_hexPair r.hash.1 r.hash.2, map_some]
  congr 1
  exact Record.ext rfl hcopied rfl rfl rfl rfl rfl rfl

/-- **A line of keys is read back** as the account with the defaults of its
place. -/
theorem parseLine_shadowText (h : KeptAs r) (hw : Writable r) (index : ℕ) :
    parseLine (shadowText r) index = some (defaults r index) := by
  have hname : (shadowText r).takeWhile (· != 58) = r.user := by
    refine takeWhile_append_cons _ (fun c hc => ?_) rfl
    rw [bne_iff_ne]
    rintro rfl
    exact hw.colon hc
  have hlen : ¬(r.user = [] ∨ r.user.length = (shadowText r).length) := by
    rw [not_or]
    refine ⟨hw.nonempty, ?_⟩
    rw [shadowText, length_append, length_cons]
    omega
  have hdrop : (shadowText r).drop (r.user.length + 1) = if r.locked then [33]
      else shadowStart ++ (r.salt ++ 36 :: r.hash.1.flatMap hexPair) := by
    rw [shadowText, ← drop_drop, drop_left, drop_one, tail_cons]
  obtain ⟨huid, hgid, hrole, hgroups⟩ := defaults_congr (user_named r) index
  simp only [parseLine, hname, if_neg hlen, hdrop]
  cases hlocked : r.locked with
  | true =>
    obtain ⟨hsalt, hhash⟩ := h.locked hlocked
    rw [if_pos rfl, if_pos (by rfl)]
    congr 1
    refine Record.ext ?_ ?_ ?_ ?_ huid hgid hrole hgroups
    · rw [user_defaults, user_defaults, user_named]
    · rw [salt_defaults, salt_defaults, hsalt]
      rfl
    · rw [hash_defaults, hash_defaults, hhash]
      rfl
    · rw [locked_defaults, hlocked]
  | false =>
    have hstart : shadowStart.length = 21 := rfl
    have hhead : ∀ rest : List UInt8, (shadowStart ++ rest).head? ≠ some 33 := by
      intro rest hno
      exact absurd (some.inj hno) (by decide)
    simp only [Bool.false_eq_true, if_false, if_neg (hhead _)]
    rw [if_pos (by rw [← hstart, take_left]), ← hstart, drop_left, parseKey_text (h.salt_notMem hw).1]
    congr 1
    refine Record.ext ?_ ?_ ?_ ?_ huid hgid hrole hgroups
    · rw [user_defaults, user_defaults, user_named]
    · rw [salt_defaults]
    · rw [hash_defaults]
    · rw [locked_defaults, locked_defaults, hlocked]
      rfl

/-! ### Reading the file of keys -/

/-- The accounts with the defaults of their places, from place `k` on. -/
def reset : ℕ → List Record → List Record
  | _, [] => []
  | k, r :: rs => defaults r k :: reset (k + 1) rs

theorem newline_notMem_shadowText (h : KeptAs r) (hw : Writable r) : 10 ∉ shadowText r := by
  have hdigit : ∀ v < 16, 10 ≠ hexDigit v := by decide
  have hpair : ∀ b : UInt8, 10 ∉ hexPair b := by
    intro b hmem
    have hb := b.toNat_lt
    rcases mem_cons.mp hmem with heq | hmem
    · exact hdigit _ (by omega) heq
    · exact hdigit _ (by omega) (mem_singleton.mp hmem)
  have hstart : 10 ∉ shadowStart := by decide
  rw [shadowText, mem_append, mem_cons, not_or, not_or]
  refine ⟨hw.newline, by decide, ?_⟩
  split
  · decide
  · rw [mem_append, mem_append, mem_cons, not_or, not_or, not_or]
    refine ⟨hstart, (h.salt_notMem hw).2, by decide, fun hmem => ?_⟩
    obtain ⟨b, -, hb⟩ := mem_flatMap.mp hmem
    exact hpair b hb

/-- The lines of some accounts are read back one by one. -/
theorem loadLines_shadowText : ∀ {rs : List Record} {t : State},
    (∀ r ∈ rs, KeptAs r ∧ Writable r) → t.records.length + rs.length ≤ 16 →
    ∃ t', loadLines (rs.map shadowText ++ [[]]) t = (t', true) ∧ t'.records = t.records ++ reset t.records.length rs
  | [], t, _, _ => ⟨t, rfl, by rw [reset, append_nil]⟩
  | r :: rs, t, h, hlen => by
    obtain ⟨hkept, hw⟩ := h r mem_cons_self
    have hline : shadowText r ≠ [] ∧ (shadowText r).head? ≠ some 35 := by
      obtain ⟨c, cs, hcs⟩ := exists_cons_of_ne_nil hw.nonempty
      have hhead := hw.comment
      rw [hcs] at hhead
      rw [shadowText, hcs]
      exact ⟨by simp, hhead⟩
    rw [length_cons] at hlen
    have hroom : t.records.length < 16 := by omega
    rw [map_cons, cons_append, loadLines, if_pos hline, dif_pos hroom, parseLine_shadowText hkept hw]
    have hpush : (t.push (defaults r t.records.length) hroom).records.length = t.records.length + 1 := by
      rw [State.push, length_append, length_singleton]
    obtain ⟨t', hload, hrecords⟩ := loadLines_shadowText
      (t := t.push (defaults r t.records.length) hroom)
      (fun r' hr' => h r' (mem_cons_of_mem _ hr')) (by rw [hpush]; omega)
    refine ⟨t', hload, ?_⟩
    rw [hrecords, hpush, reset, State.push, append_assoc, singleton_append]

/-- **`auth_load` of the exported keys.** -/
theorem authLoad_export (h : ∀ r ∈ t.records, KeptAs r ∧ Writable r) (t₀ : State) :
    ∃ t', authLoad t₀ (t.records.flatMap fun r => shadowText r ++ [10]) =
        (t', decide (t.records ≠ [])) ∧ t'.records = reset 0 t.records := by
  have hlines : (t.records.flatMap fun r => shadowText r ++ [10]).splitOn 10 = t.records.map shadowText ++ [[]] := by
    have hfree : ∀ l ∈ t.records.map shadowText, 10 ∉ l := by
      intro l hl
      obtain ⟨r, hr, rfl⟩ := mem_map.mp hl
      exact newline_notMem_shadowText (h r hr).1 (h r hr).2
    rw [← splitOn_lines hfree, flatMap_map]
  obtain ⟨t', hload, hrecords⟩ := loadLines_shadowText (t := t₀.cleared) h
    (by change 0 + _ ≤ 16; have := t.length_le; omega)
  have hempty : (t'.records ≠ []) = (t.records ≠ []) := by
    rw [hrecords]
    change (reset 0 t.records ≠ []) = _
    cases t.records with
    | nil => rfl
    | cons r rs => simp [reset]
  refine ⟨(authSelect t' rootName).1, ?_, ?_⟩
  · rw [authLoad, hlines, hload]
    simp only [hempty]
  · rw [records_authSelect, hrecords]
    rfl

/-! ### Reading the file of accounts -/

theorem field_decimal (hv : v < 2 ^ 32) (rest : List UInt8) : field (decimal v ++ 58 :: rest) = (v, some rest) := by
  rw [field, number_decimal hv (by decide)]
  rfl

/-- An account with the numbers, the role and the groups of another one. -/
def Record.withNumbers (r₀ r : Record) : Record :=
  { r₀ with uid := r.uid, gid := r.gid, role := r.role, groups := r.groups }

/-- The fields of an account are read back. -/
theorem readAccount_text (r₀ r : Record) (rest : List UInt8) :
    readAccount r₀ (decimal r.uid.toNat ++ 58 :: (decimal r.gid.toNat ++ 58 ::
      (decimal r.role.code.toNat ++ 58 :: (decimal r.groups.toNat ++ 10 :: rest)))) =
      (r₀.withNumbers r, some rest) := by
  have huid : r.uid.toNat < 2 ^ 32 := lt_trans r.uid.toNat_lt (by decide)
  have hgid : r.gid.toNat < 2 ^ 32 := lt_trans r.gid.toNat_lt (by decide)
  simp only [readAccount, field_decimal huid, field_decimal hgid, field_decimal r.role.code.toNat_lt,
    number_decimal r.groups.toNat_lt (show isDigit 10 = false from rfl), UInt16.ofNat_toNat,
    UInt32.ofNat_toNat]
  rfl

theorem map_user_reset : ∀ (rs : List Record) (k : ℕ), (reset k rs).map Record.user = rs.map Record.user
  | [], _ => rfl
  | r :: rs, k => by rw [reset, map_cons, map_cons, user_defaults, map_user_reset rs]

/-- **The lines of accounts restore the records** one by one: those before are as
they were, those behind still have the defaults of their places. -/
theorem loadAccounts_text : ∀ {rs : List Record} {pre : List Record} {t : State} {fuel : ℕ},
    t.records = pre ++ reset pre.length rs → ((pre ++ rs).map Record.user).Nodup →
    (∀ r ∈ rs, Writable r) → (rs.flatMap fun r => accountText r ++ [10]).length ≤ fuel →
    ∃ t', loadAccounts fuel t (rs.flatMap fun r => accountText r ++ [10]) = (t', true) ∧ t'.records = pre ++ rs
  | [], pre, t, fuel, ht, _, _, _ => by
    refine ⟨t, ?_, ht⟩
    cases fuel with
    | zero => rfl
    | succ fuel => rfl
  | r :: rs, pre, t, fuel, ht, hnames, hw, hfuel => by
    have hwr := hw r mem_cons_self
    have hplace : t.records[pre.length]? = some (defaults r pre.length) := by
      rw [ht, List.getElem?_append_right le_rfl, Nat.sub_self]
      rfl
    have hdistinct : (t.records.map Record.user).Nodup := by
      rw [ht, map_append, map_user_reset, ← map_append]
      exact hnames
    have huser : r.user.take 15 = r.user := take_of_length_le r.user_fits.1
    have hfind : t.find (r.user.take 15) = some (pre.length, defaults r pre.length) := by
      rw [huser, ← user_defaults r pre.length]
      exact State.find_user hdistinct hplace
    -- the text of the line, cut at the colon behind the name
    have htext : ((r :: rs).flatMap fun r => accountText r ++ [10]) = r.user ++ 58 ::
        (decimal r.uid.toNat ++ 58 :: (decimal r.gid.toNat ++ 58 :: (decimal r.role.code.toNat ++
          58 :: (decimal r.groups.toNat ++ 10 :: rs.flatMap fun r => accountText r ++ [10])))) := by
      rw [flatMap_cons, accountText]
      simp only [append_assoc, cons_append, nil_append]
    have hname : ((r :: rs).flatMap fun r => accountText r ++ [10]).takeWhile
        (fun c => c != 58 && c != 10) = r.user := by
      rw [htext]
      refine takeWhile_append_cons _ (fun c hc => ?_) rfl
      rw [Bool.and_eq_true, bne_iff_ne, bne_iff_ne]
      exact ⟨fun heq => hwr.colon (heq ▸ hc), fun heq => hwr.newline (heq ▸ hc)⟩
    have hrecord : (defaults r pre.length).withNumbers r = r :=
      Record.ext (user_defaults ..) (salt_defaults ..) (hash_defaults ..) (locked_defaults ..) rfl rfl
        rfl rfl
    have hput : (t.put pre.length r).records = (pre ++ [r]) ++ reset (pre ++ [r]).length rs := by
      change t.records.set pre.length r = _
      rw [ht, set_append_right _ _ le_rfl, Nat.sub_self, reset, set_cons_zero,
        append_assoc, singleton_append, length_append, length_singleton]
    cases fuel with
    | zero =>
      rw [htext, length_append, length_cons] at hfuel
      omega
    | succ fuel =>
      have hrest : (rs.flatMap fun r => accountText r ++ [10]).length ≤ fuel := by
        rw [flatMap_cons, length_append, length_append, length_singleton] at hfuel
        omega
      obtain ⟨t', hload, hrecords⟩ := loadAccounts_text hput
        (by rw [append_assoc, singleton_append]; exact hnames)
        (fun r' hr' => hw r' (mem_cons_of_mem _ hr')) hrest
      refine ⟨t', ?_, by rw [hrecords, append_assoc, singleton_append]⟩
      rw [loadAccounts, if_neg (by rw [htext]; simp)]
      simp only [hname, hfind]
      rw [htext, drop_left]
      simp only [readAccount_text, hrecord]
      exact hload

/-! ### What is kept of every account -/

/-- Every account of the table is as `KeptAs` says. -/
def Kept (t : State) : Prop := ∀ r ∈ t.records, KeptAs r

theorem Kept.put (h : Kept t) (hr : KeptAs r) : Kept (t.put i r) := by
  intro r' hr'
  rcases mem_or_eq_of_mem_set hr' with hr' | rfl
  · exact h r' hr'
  · exact hr

theorem Kept.push (h : Kept t) (hr : KeptAs r)
    (hlen : t.records.length < 16) : Kept (t.push r hlen) := by
  intro r' hr'
  rcases mem_append.mp hr' with hr' | hr'
  · exact h r' hr'
  · rw [mem_singleton.mp hr']
    exact hr

theorem Kept.find (h : Kept t) {u : List UInt8} (hfind : t.find u = some (i, r)) : KeptAs r :=
  h r (mem_of_getElem? (t.find_some hfind).1)

theorem keptAs_hashPassword (kdf : List UInt8 → List UInt8 → Hash) (r : Record) (p : List UInt8) :
    KeptAs (hashPassword kdf r p) :=
  ⟨fun hlocked => absurd hlocked Bool.false_ne_true, .inr rfl⟩

theorem keptAs_parseLine {line : List UInt8} {index : ℕ} (hline : 10 ∉ line)
    (h : parseLine line index = some r) : KeptAs r := by
  simp only [parseLine] at h
  split at h
  · cases h
  · split at h
    · cases h
      refine ⟨fun _ => ⟨salt_defaults .., hash_defaults ..⟩, .inl ?_⟩
      change 36 ∉ (defaults _ _).salt ∧ 10 ∉ (defaults _ _).salt
      rw [salt_defaults]
      exact ⟨not_mem_nil, not_mem_nil⟩
    · split at h
      · simp only [parseKey] at h
        split at h
        · obtain ⟨hash, -, rfl⟩ := map_eq_some_iff.mp h
          refine ⟨fun hlocked => ?_, .inl ⟨fun hmem => ?_, fun hmem => ?_⟩⟩
          · change (defaults _ _).locked = true at hlocked
            rw [locked_defaults] at hlocked
            exact absurd hlocked Bool.false_ne_true
          · -- the salt ends before the first dollar sign
            have hwhile := (takeWhile_sublist (· != 0)).subset (mem_of_mem_take hmem)
            have hne := mem_takeWhile_imp (mem_of_mem_take hwhile)
            cases hne
          · have hwhile := (takeWhile_sublist (· != 0)).subset (mem_of_mem_take hmem)
            have hrest := (takeWhile_sublist _).subset (mem_of_mem_take hwhile)
            exact hline (mem_of_mem_drop (mem_of_mem_drop hrest))
        · cases h
      · cases h

theorem Kept.loadLines : ∀ {lines : List (List UInt8)} {t : State}, Kept t →
    (∀ line ∈ lines, 10 ∉ line) → Kept (loadLines lines t).1
  | [], _, h, _ => h
  | line :: lines, t, h, hlines => by
    have hrest : ∀ line ∈ lines, 10 ∉ line := fun l hl => hlines l (mem_cons_of_mem _ hl)
    rw [Auth.loadLines]
    split
    · split
      · rename_i hlen
        split
        · exact h
        · rename_i r hr
          exact Kept.loadLines (h.push (keptAs_parseLine (hlines line mem_cons_self) hr) hlen) hrest
      · exact h
    · exact Kept.loadLines h hrest

theorem kept_authLoad (t : State) (d : List UInt8) : Kept (authLoad t d).1 := by
  have hload : Kept (loadLines (d.splitOn 10) t.cleared).1 :=
    Kept.loadLines (fun r hr => absurd hr not_mem_nil) fun line hline =>
      sep_notMem_of_mem_splitOn hline
  rw [authLoad]
  split
  · rename_i heq
    rwa [heq] at hload
  · rename_i heq
    rw [heq] at hload
    intro r hr
    rw [records_authSelect] at hr
    exact hload r hr

/-- Reading the numbers of an account leaves name, salt and key alone. -/
theorem KeptAs.readAccount (h : KeptAs r) (d : List UInt8) : KeptAs (readAccount r d).1 := by
  rw [Auth.readAccount]
  split
  · exact ⟨h.locked, h.salt⟩
  · split
    · exact ⟨h.locked, h.salt⟩
    · split
      · exact ⟨h.locked, h.salt⟩
      · exact ⟨h.locked, h.salt⟩

theorem Kept.loadAccounts : ∀ {fuel : ℕ} {t : State} {d : List UInt8}, Kept t → Kept (loadAccounts fuel t d).1
  | 0, _, _, h => h
  | fuel + 1, t, d, h => by
    rw [Auth.loadAccounts]
    split
    · exact h
    · simp only
      split
      · rename_i d' _
        rcases hfind : t.find ((d.takeWhile fun c => c != 58 && c != 10).take 15) with _ | ⟨i, r⟩
        · exact Kept.loadAccounts h
        · have hread := (h.find hfind).readAccount d'
          simp only
          split
          · rename_i heq
            rw [heq] at hread
            exact h.put hread
          · rename_i heq
            rw [heq] at hread
            exact Kept.loadAccounts (h.put hread)
      · exact h

/-- **Every call keeps** what is true of the accounts. -/
theorem Kept.step (h : Kept t) (kdf : List UInt8 → List UInt8 → Hash) (op : Op) : Kept (step kdf t op) := by
  cases op with
  | addRole u p role =>
    rw [Auth.step, authAddRole]
    split
    · rename_i hlen
      split
      · exact h
      · exact h.push (keptAs_hashPassword ..) hlen
    · exact h
  | delete u =>
    rw [Auth.step, authDelete]
    split
    · exact h
    · split
      · exact h
      · exact fun r hr => h r (mem_of_mem_eraseIdx hr)
  | setPassword u p =>
    rw [Auth.step, authSetPassword]
    split
    · exact h
    · exact h.put (keptAs_hashPassword ..)
  | setRole u role =>
    rw [Auth.step, authSetRole]
    split
    · exact h
    · rename_i hfind
      have hr := h.find hfind
      split
      · exact h
      · exact h.put ⟨hr.locked, hr.salt⟩
  | setGroups u g =>
    rw [Auth.step, authSetGroups]
    split
    · exact h
    · rename_i hfind
      have hr := h.find hfind
      split
      · exact h
      · exact h.put ⟨hr.locked, hr.salt⟩
  | setUmask m => exact h
  | select u =>
    intro r hr
    rw [Auth.step, records_authSelect] at hr
    exact h r hr
  | selectUid uid =>
    rw [Auth.step, authSelectUid]
    split
    · exact h
    · intro r hr
      rw [records_authSelect] at hr
      exact h r hr
  | load d => exact kept_authLoad t d
  | loadAccounts d => exact h.loadAccounts

theorem Kept.run (h : Kept t) (kdf : List UInt8 → List UInt8 → Hash) (ops : List Op) : Kept (run kdf t ops) :=
  foldl_invariant h fun _ op _ _ hbefore => hbefore.step kdf op

/-! ### Both files -/

theorem authCheck_congr {t' : State} (h : t'.records = t.records)
    (kdf : List UInt8 → List UInt8 → Hash) (u p : List UInt8) :
    authCheck kdf t' u p = authCheck kdf t u p := by
  rw [authCheck, authCheck, State.find, State.find, h]

/-- **Writing the accounts and reading them back loses nothing**: after any calls
on a loaded table, if the names are distinct, not empty, free of colons, line ends
and dollar signs and do not begin like a comment, both files fit into 4096 bytes,
and loading the first and then the second restores the records in their order, so
that every password is accepted or refused as before. -/
theorem reload_restores (kdf : List UInt8 → List UInt8 → Hash) (t₀ : State) (d : List UInt8)
    (ops : List Op) (hnames : ((run kdf (authLoad t₀ d).1 ops).records.map Record.user).Nodup)
    (hw : ∀ r ∈ (run kdf (authLoad t₀ d).1 ops).records, Writable r) (t₁ : State) :
    ∃ shadow accounts t₂ t₃,
      authExportShadow (run kdf (authLoad t₀ d).1 ops) 4096 = some shadow ∧
      authExportAccounts (run kdf (authLoad t₀ d).1 ops) 4096 = some accounts ∧
      authLoad t₁ shadow = (t₂, decide ((run kdf (authLoad t₀ d).1 ops).records ≠ [])) ∧
      authLoadAccounts t₂ accounts = (t₃, true) ∧
      t₃.records = (run kdf (authLoad t₀ d).1 ops).records ∧
      ∀ u p, authCheck kdf t₃ u p = authCheck kdf (run kdf (authLoad t₀ d).1 ops) u p := by
  have hkept : Kept (run kdf (authLoad t₀ d).1 ops) := (kept_authLoad t₀ d).run kdf ops
  obtain ⟨t₂, hload, hreset⟩ := authLoad_export (fun r hr => ⟨hkept r hr, hw r hr⟩) t₁
  obtain ⟨t₃, haccounts, hrecords⟩ := @loadAccounts_text _ [] t₂ _ hreset hnames hw le_rfl
  exact ⟨_, _, t₂, t₃, authExportShadow_eq _ (by decide), authExportAccounts_eq _ (by decide), hload,
    haccounts, hrecords, authCheck_congr hrecords kdf⟩

/-- The three accounts, one of them with a password, are restored. -/
theorem reload_restores_three : ∃ shadow accounts t₂ t₃,
    authExportShadow (run (fun _ _ => Hash.zero) (authLoad State.initial threeAccounts).1
      [.setPassword aliceName bobName]) 4096 = some shadow ∧
    authExportAccounts (run (fun _ _ => Hash.zero) (authLoad State.initial threeAccounts).1
      [.setPassword aliceName bobName]) 4096 = some accounts ∧
    authLoad State.initial shadow = (t₂, true) ∧ authLoadAccounts t₂ accounts = (t₃, true) ∧
    authCheck (fun _ _ => Hash.zero) t₃ aliceName bobName = true := by
  obtain ⟨shadow, accounts, t₂, t₃, hs, ha, hl, hla, -, hcheck⟩ :=
    reload_restores (fun _ _ => Hash.zero) State.initial threeAccounts [.setPassword aliceName bobName]
      (by decide) (by
        have hall : ∀ r ∈ (run (fun _ _ => Hash.zero) (authLoad State.initial threeAccounts).1
            [.setPassword aliceName bobName]).records, r.user ≠ [] ∧ 58 ∉ r.user ∧ 10 ∉ r.user ∧
            36 ∉ r.user ∧ r.user.head? ≠ some 35 := by decide
        intro r hr
        obtain ⟨h1, h2, h3, h4, h5⟩ := hall r hr
        exact ⟨h1, h2, h3, h4, h5⟩) State.initial
  refine ⟨shadow, accounts, t₂, t₃, hs, ha, ?_, hla, ?_⟩
  · rw [hl]
    congr 1
  · rw [hcheck]
    decide

/-- `"a$b"`. -/
def dollarName : List UInt8 := chars ['a', '$', 'b']

/-- The three accounts and one with a dollar sign in its name. -/
def withDollar : State :=
  run (fun _ _ => Hash.zero) (authLoad State.initial threeAccounts).1
    [.addRole dollarName [] Role.standard]

/-- The name with a dollar sign is distinct from the others, not empty, and free of
NULs, colons and line ends, and does not begin like a comment; but what is
exported is not loaded again, and the account is lost. -/
theorem reload_fails_with_dollar :
    (withDollar.records.map Record.user).Nodup ∧
      (∀ u ∈ withDollar.records.map Record.user, u ≠ [] ∧ 0 ∉ u ∧ 58 ∉ u ∧ 10 ∉ u ∧ u.head? ≠ some 35) ∧
      ((authExportShadow withDollar 4096).map fun shadow =>
        ((authLoad State.initial shadow).2, (authLoad State.initial shadow).1.records.map Record.user)) =
        some (false, [rootName, aliceName, bobName]) := by
  decide +kernel

end OS64.Auth
