import OS64.Fat.Model
import OS64.Lib.Text
import Mathlib.Data.UInt

/-!
# The account table

`kernel/security/auth.c`: a table of at most sixteen accounts, an index into it
that says whose session it is, and the two text formats in which the table is
kept on the disk.

A string in a record is what is before its NUL; a string argument is what is at
the pointer, so that it is `Text.cstr` of it that counts. A record carries the
bounds of its two arrays, and the table carries its size and the bound on the
index of the session, which is 0 while there are no accounts: the operations
below cannot be written without keeping them.

The derived key of a password, `pbkdf2_sha256` with 10000 rounds, is a parameter
of the operations that use it.
-/

namespace OS64

namespace Auth

open List Text

/-! ### Accounts -/

/-- `auth_role_t`: a number, five of which have names. -/
structure Role where
  code : UInt32
  deriving DecidableEq

namespace Role

/-- `AUTH_ROOT`. -/
def root : Role := ⟨0⟩

/-- `AUTH_ADMIN`. -/
def admin : Role := ⟨1⟩

/-- `AUTH_POWER`. -/
def power : Role := ⟨2⟩

/-- `AUTH_STANDARD`. -/
def standard : Role := ⟨3⟩

/-- `AUTH_GUEST`. -/
def guest : Role := ⟨4⟩

end Role

/-- `AUTH_GROUP_ROOT`. -/
def groupRoot : UInt32 := 1

/-- `AUTH_GROUP_ADMIN`. -/
def groupAdmin : UInt32 := 2

/-- `AUTH_GROUP_USERS`. -/
def groupUsers : UInt32 := 4

/-- `AUTH_GROUP_DEVELOPERS`. -/
def groupDevelopers : UInt32 := 8

/-- `AUTH_GROUP_OPERATORS`. -/
def groupOperators : UInt32 := 16

/-- `AUTH_GROUP_NETWORK`. -/
def groupNetwork : UInt32 := 32

/-- `AUTH_GROUP_STORAGE`. -/
def groupStorage : UInt32 := 256

/-- `AUTH_GROUP_WHEEL`. -/
def groupWheel : UInt32 := 512

/-- A derived key. -/
abbrev Hash := { l : List UInt8 // l.length = 32 }

/-- The key of a cleared record. -/
def Hash.zero : Hash := ⟨List.replicate 32 0, length_replicate ..⟩

/-- `record_t`. -/
@[ext]
structure Record where
  user : List UInt8
  salt : List UInt8
  hash : Hash
  locked : Bool
  uid : UInt16
  gid : UInt16
  role : Role
  groups : UInt32
  user_fits : user.length ≤ 15 ∧ 0 ∉ user
  salt_fits : salt.length ≤ 31 ∧ 0 ∉ salt
  deriving DecidableEq

/-- The string an array of `n + 1` characters holds after a copy. -/
def copied (n : ℕ) (l : List UInt8) : List UInt8 := (cstr l).take n

theorem copied_fits (n : ℕ) (l : List UInt8) : (copied n l).length ≤ n ∧ 0 ∉ copied n l :=
  ⟨length_take_le n _, fun h => zero_notMem_cstr l (mem_of_mem_take h)⟩

/-- A cleared record with a name. -/
def Record.named (u : List UInt8) : Record where
  user := copied 15 u
  salt := []
  hash := Hash.zero
  locked := false
  uid := 0
  gid := 0
  role := Role.root
  groups := 0
  user_fits := copied_fits 15 u
  salt_fits := by simp

/-- `"root"`. -/
def rootName : List UInt8 := chars ['r', 'o', 'o', 't']

/-- `"nobody"`. -/
def nobodyName : List UInt8 := chars ['n', 'o', 'b', 'o', 'd', 'y']

/-- `defaults`. -/
def defaults (r : Record) (index : ℕ) : Record :=
  if r.user = rootName then
    { r with
      uid := 0
      gid := 0
      role := Role.root
      groups := groupRoot ||| groupAdmin ||| groupWheel ||| groupStorage ||| groupNetwork }
  else if r.user = nobodyName then
    { r with uid := 65534, gid := 65534, role := Role.guest, groups := 0 }
  else
    { r with
      uid := UInt16.ofNat (1000 + index)
      gid := 100
      role := Role.standard
      groups := groupUsers }

/-- `"os64-user-"`. -/
def saltStart : List UInt8 := chars ['o', 's', '6', '4', '-', 'u', 's', 'e', 'r', '-']

/-- The salt that `hash_password` makes for a user. -/
def saltFor (user : List UInt8) : List UInt8 := saltStart ++ user.take 21

theorem saltFor_fits (r : Record) : (saltFor r.user).length ≤ 31 ∧ 0 ∉ saltFor r.user := by
  refine ⟨?_, fun h => ?_⟩
  · have := length_take_le 21 r.user
    rw [saltFor, length_append, show saltStart.length = 10 from rfl]
    omega
  · rcases mem_append.mp h with h | h
    · revert h
      decide
    · exact r.user_fits.2 (mem_of_mem_take h)

/-- `hash_password`. -/
def hashPassword (kdf : List UInt8 → List UInt8 → Hash) (r : Record) (p : List UInt8) : Record :=
  { r with
    salt := saltFor r.user
    hash := kdf (cstr p) (saltFor r.user)
    locked := false
    salt_fits := saltFor_fits r }

/-! ### The table -/

/-- The variables of `auth.c`. -/
structure State where
  records : List Record
  current : ℕ
  umask : UInt16
  length_le : records.length ≤ 16
  current_lt : current = 0 ∨ current < records.length

/-- No accounts. -/
def State.cleared (t : State) : State := ⟨[], 0, t.umask, Nat.zero_le _, Or.inl rfl⟩

/-- The accounts before anything is loaded. -/
def State.initial : State := ⟨[], 0, 0o022, Nat.zero_le _, Or.inl rfl⟩

/-- The table with one more account. -/
def State.push (t : State) (r : Record) (h : t.records.length < 16) : State where
  records := t.records ++ [r]
  current := t.current
  umask := t.umask
  length_le := by rw [length_append, length_singleton]; omega
  current_lt := t.current_lt.imp id fun h => by rw [length_append]; omega

/-- The table with another account at place `i`. -/
def State.put (t : State) (i : ℕ) (r : Record) : State where
  records := t.records.set i r
  current := t.current
  umask := t.umask
  length_le := by rw [length_set]; exact t.length_le
  current_lt := by rw [length_set]; exact t.current_lt

/-- The search of `find`, from place `i` on. -/
def findFrom (u : List UInt8) : ℕ → List Record → Option (ℕ × Record)
  | _, [] => none
  | i, r :: rs => if cstr u = r.user then some (i, r) else findFrom u (i + 1) rs

/-- `find`: the account with this name and its place. -/
def State.find (t : State) (u : List UInt8) : Option (ℕ × Record) := findFrom u 0 t.records

theorem findFrom_some {u : List UInt8} : ∀ {rs : List Record} {i at' : ℕ} {r : Record},
    findFrom u i rs = some (at', r) → i ≤ at' ∧ rs[at' - i]? = some r ∧ cstr u = r.user
  | r' :: rs, i, at', r, h => by
    rw [findFrom] at h
    split at h
    · obtain ⟨rfl, rfl⟩ := Prod.mk.inj (Option.some.inj h)
      exact ⟨le_rfl, by simp, ‹_›⟩
    · obtain ⟨hle, hget, hname⟩ := findFrom_some h
      refine ⟨by omega, ?_, hname⟩
      rw [show at' - i = (at' - (i + 1)) + 1 by omega, List.getElem?_cons_succ]
      exact hget

variable {t : State} {u : List UInt8} {i : ℕ} {r : Record}

/-- What `find` finds is there. -/
theorem State.find_some (h : t.find u = some (i, r)) : t.records[i]? = some r ∧ cstr u = r.user := (findFrom_some h).2

theorem State.find_lt (h : t.find u = some (i, r)) : i < t.records.length :=
  (List.getElem?_eq_some_iff.mp (t.find_some h).1).1

/-! ### The operations -/

/-- `auth_select`. -/
def authSelect (t : State) (u : List UInt8) : State × Bool :=
  match h : t.find u with
  | none => (t, false)
  | some (i, r) =>
    ({ t with
      current := i
      umask := if r.role = Role.guest then 0o077 else 0o022
      current_lt := .inr (t.find_lt h) }, true)

/-- `auth_select_uid`. -/
def authSelectUid (t : State) (uid : UInt16) : State × Bool :=
  match t.records.find? (fun r => r.uid = uid) with
  | none => (t, false)
  | some r => authSelect t r.user

/-- The groups an account of a role is created with, from those of `defaults`. -/
def roleGroups (role : Role) (groups : UInt32) : UInt32 :=
  if role = Role.admin then
    groups ||| (groupAdmin ||| groupWheel ||| groupNetwork ||| groupOperators)
  else if role = Role.power then groups ||| (groupDevelopers ||| groupOperators)
  else if role = Role.guest then 0
  else groups

/-- The account that `auth_add_role` makes at place `index`. -/
def newRecord (kdf : List UInt8 → List UInt8 → Hash) (u p : List UInt8) (role : Role) (index : ℕ) :
    Record :=
  let r := defaults (Record.named u) index
  let r := { r with
    role := role
    groups := roleGroups role r.groups
    gid := if role = Role.guest then 65534 else r.gid }
  hashPassword kdf r p

/-- `auth_add_role`. -/
def authAddRole (kdf : List UInt8 → List UInt8 → Hash) (t : State) (u p : List UInt8) (role : Role) :
    State × Bool :=
  if h : t.records.length < 16 then
    if (t.find u).isSome ∨ role.code > Role.guest.code then (t, false)
    else (t.push (newRecord kdf u p role t.records.length) h, true)
  else (t, false)

/-- `auth_delete`. -/
def authDelete (t : State) (u : List UInt8) : State × Bool :=
  match t.find u with
  | none => (t, false)
  | some (i, r) =>
    if r.uid = 0 then (t, false)
    else
      ({ records := t.records.eraseIdx i
         current := if t.current ≥ (t.records.eraseIdx i).length then 0 else t.current
         umask := t.umask
         length_le := (length_eraseIdx_le t.records i).trans t.length_le
         current_lt := by split <;> omega }, true)

/-- `auth_set_password`. -/
def authSetPassword (kdf : List UInt8 → List UInt8 → Hash) (t : State) (u p : List UInt8) :
    State × Bool :=
  match t.find u with
  | none => (t, false)
  | some (i, r) => (t.put i (hashPassword kdf r p), true)

/-- `auth_set_role`. -/
def authSetRole (t : State) (u : List UInt8) (role : Role) : State × Bool :=
  match t.find u with
  | none => (t, false)
  | some (i, r) =>
    if r.uid = 0 ∨ role = Role.root then (t, false) else (t.put i { r with role := role }, true)

/-- `auth_set_groups`. -/
def authSetGroups (t : State) (u : List UInt8) (g : UInt32) : State × Bool :=
  match t.find u with
  | none => (t, false)
  | some (i, r) =>
    if r.uid = 0 then (t, false) else (t.put i { r with groups := g ||| groupUsers }, true)

/-- `auth_set_umask`. -/
def authSetUmask (t : State) (m : UInt16) : State := { t with umask := m &&& 0o777 }

/-- `auth_check`. -/
def authCheck (kdf : List UInt8 → List UInt8 → Hash) (t : State) (u p : List UInt8) : Bool :=
  match t.find u with
  | none => false
  | some (_, r) => !r.locked && decide (kdf (cstr p) r.salt = r.hash)

/-- `auth_nologin`. -/
def authNologin (t : State) (u : List UInt8) : Bool :=
  match t.find u with
  | none => true
  | some (_, r) => r.locked

/-! ### The session -/

/-- The account of the session; there is none in an empty table. -/
def State.session (t : State) : Option Record := t.records[t.current]?

/-- `auth_current_user`. -/
def authCurrentUser (t : State) : List UInt8 := (t.session.map Record.user).getD nobodyName

/-- `auth_getuid`. -/
def authGetuid (t : State) : UInt16 := (t.session.map Record.uid).getD 65534

/-- `auth_getgid`. -/
def authGetgid (t : State) : UInt16 := (t.session.map Record.gid).getD 65534

/-- `auth_getgroups`. -/
def authGetgroups (t : State) : UInt32 := (t.session.map Record.groups).getD 0

/-- `auth_current_role`. -/
def authCurrentRole (t : State) : Role := (t.session.map Record.role).getD Role.guest

/-- `auth_is_root`. -/
def authIsRoot (t : State) : Bool := authGetuid t = 0

/-- `auth_has_group`. -/
def authHasGroup (t : State) (g : UInt32) : Bool := authGetgroups t &&& g ≠ 0

/-- `auth_is_admin`. -/
def authIsAdmin (t : State) : Bool :=
  authIsRoot t || decide (authCurrentRole t = Role.admin) || authHasGroup t groupAdmin

/-- `auth_lookup`: user and group number. -/
def authLookup (t : State) (u : List UInt8) : Option (UInt16 × UInt16) :=
  (t.find u).map fun p => (p.2.uid, p.2.gid)

/-! ### The file of keys -/

/-- `hex`. -/
def hex (c : UInt8) : Option ℕ :=
  if 48 ≤ c ∧ c ≤ 57 then some (c.toNat - 48)
  else if 97 ≤ c ∧ c ≤ 102 then some (c.toNat - 97 + 10)
  else if 65 ≤ c ∧ c ≤ 70 then some (c.toNat - 65 + 10)
  else none

/-- The loop of `parse_line` that reads the key. -/
def hexBytes : (n : ℕ) → List UInt8 → Option { l : List UInt8 // l.length = n }
  | 0, _ => some ⟨[], rfl⟩
  | n + 1, a :: b :: cs =>
    match hex a, hex b, hexBytes n cs with
    | some x, some y, some l => some ⟨UInt8.ofNat (x * 16 + y) :: l.1, congrArg (· + 1) l.2⟩
    | _, _, _ => none
  | _ + 1, _ => none

/-- `"$pbkdf2-sha256$10000$"`. -/
def shadowStart : List UInt8 :=
  chars ['$', 'p', 'b', 'k', 'd', 'f', '2', '-', 's', 'h', 'a', '2', '5', '6', '$', '1', '0', '0', '0',
    '0', '$']

/-- The part of `parse_line` behind the prefix: salt and key. -/
def parseKey (r : Record) (rest : List UInt8) : Option Record :=
  let salt := (rest.takeWhile (· != 36)).take 31
  match rest.drop salt.length with
  | 36 :: rest =>
    (hexBytes 32 rest).map fun hash =>
      { r with salt := copied 31 salt, hash := hash, salt_fits := copied_fits 31 salt }
  | _ => none

/-- `parse_line`, where `index` accounts are there already. -/
def parseLine (line : List UInt8) (index : ℕ) : Option Record :=
  let name := line.takeWhile (· != 58)
  if name = [] ∨ name.length = line.length then none
  else
    let r := defaults (Record.named (name.take 15)) index
    let rest := line.drop (name.length + 1)
    if rest.head? = some 33 then some { r with locked := true }
    else if rest.take 21 = shadowStart then parseKey r (rest.drop 21)
    else none

/-- The loop of `auth_load`. -/
def loadLines : List (List UInt8) → State → State × Bool
  | [], t => (t, true)
  | line :: lines, t =>
    if line ≠ [] ∧ line.head? ≠ some 35 then
      if h : t.records.length < 16 then
        match parseLine line t.records.length with
        | none => (t, false)
        | some r => loadLines lines (t.push r h)
      else (t, false)
    else loadLines lines t

/-- `auth_load`. -/
def authLoad (t : State) (d : List UInt8) : State × Bool :=
  match loadLines (d.splitOn 10) t.cleared with
  | (t, false) => (t, false)
  | (t, true) => ((authSelect t rootName).1, t.records ≠ [])

/-- `h[v]` for the string `h` of the hexadecimal digits. -/
def hexDigit (v : ℕ) : UInt8 := if v < 10 then UInt8.ofNat (48 + v) else UInt8.ofNat (87 + v)

/-- The two digits of a byte. -/
def hexPair (b : UInt8) : List UInt8 := [hexDigit (b.toNat / 16), hexDigit (b.toNat % 16)]

/-- Two characters, if there is room for both. -/
def put2 (cap : ℕ) (cs out : List UInt8) : Option (List UInt8) :=
  if out.length + 2 > cap then none else some (out ++ cs)

/-- The loop of `auth_export_shadow` that writes the key. -/
def putKey (cap : ℕ) : List UInt8 → List UInt8 → Option (List UInt8)
  | [], out => some out
  | b :: bs, out => (put2 cap (hexPair b) out).bind (putKey cap bs)

/-- One round of `auth_export_shadow`. -/
def putShadow (cap : ℕ) (r : Record) (out : List UInt8) : Option (List UInt8) := do
  let out ← puts cap r.user out
  let out ← putc cap 58 out
  if r.locked then put2 cap [33, 10] out
  else do
    let out ← puts cap shadowStart out
    let out ← puts cap r.salt out
    let out ← putc cap 36 out
    let out ← putKey cap r.hash.1 out
    putc cap 10 out

/-- `auth_export_shadow`: what it writes, if there is room. -/
def authExportShadow (t : State) (cap : ℕ) : Option (List UInt8) :=
  t.records.foldlM (fun out r => putShadow cap r out) []

/-! ### The file of accounts -/

/-- `putnum`. -/
def putnum (cap v : ℕ) (out : List UInt8) : Option (List UInt8) := puts cap (decimal v) out

/-- One round of `auth_export_accounts`. -/
def putAccount (cap : ℕ) (r : Record) (out : List UInt8) : Option (List UInt8) := do
  let out ← puts cap r.user out
  let out ← putc cap 58 out
  let out ← putnum cap r.uid.toNat out
  let out ← putc cap 58 out
  let out ← putnum cap r.gid.toNat out
  let out ← putc cap 58 out
  let out ← putnum cap r.role.code.toNat out
  let out ← putc cap 58 out
  let out ← putnum cap r.groups.toNat out
  putc cap 10 out

/-- `auth_export_accounts`: what it writes, if there is room. -/
def authExportAccounts (t : State) (cap : ℕ) : Option (List UInt8) :=
  t.records.foldlM (fun out r => putAccount cap r out) []

/-- The next field of a line of accounts: the number, and what follows the colon
behind it. -/
def field (d : List UInt8) : ℕ × Option (List UInt8) :=
  match number (2 ^ 32) 0 d with
  | (v, 58 :: rest) => (v, some rest)
  | (v, _) => (v, none)

/-- Going on behind the end of the line. -/
def skipLine (d : List UInt8) : List UInt8 := (d.dropWhile (· != 10)).drop 1

/-- The fields of an account, as far as they can be read: it is changed field by
field. -/
def readAccount (r : Record) (d : List UInt8) : Record × Option (List UInt8) :=
  match field d with
  | (uid, none) => ({ r with uid := UInt16.ofNat uid }, none)
  | (uid, some d) =>
    match field d with
    | (gid, none) => ({ r with uid := UInt16.ofNat uid, gid := UInt16.ofNat gid }, none)
    | (gid, some d) =>
      match field d with
      | (role, none) =>
        ({ r with uid := UInt16.ofNat uid, gid := UInt16.ofNat gid, role := ⟨UInt32.ofNat role⟩ }, none)
      | (role, some d) =>
        match number (2 ^ 32) 0 d with
        | (groups, d) =>
          ({ r with
              uid := UInt16.ofNat uid
              gid := UInt16.ofNat gid
              role := ⟨UInt32.ofNat role⟩
              groups := UInt32.ofNat groups }, some (skipLine d))

/-- The loop of `auth_load_accounts`. A round takes at least one character, so
that there are at most as many rounds as characters. -/
def loadAccounts : ℕ → State → List UInt8 → State × Bool
  | 0, t, _ => (t, true)
  | fuel + 1, t, d =>
    if d = [] then (t, true)
    else
      let name := d.takeWhile fun c => c != 58 && c != 10
      match d.drop name.length with
      | 58 :: d =>
        match t.find (name.take 15) with
        | none => loadAccounts fuel t (skipLine d)
        | some (i, r) =>
          match readAccount r d with
          | (r, none) => (t.put i r, false)
          | (r, some d) => loadAccounts fuel (t.put i r) d
      | _ => (t, false)

/-- `auth_load_accounts`. -/
def authLoadAccounts (t : State) (d : List UInt8) : State × Bool := loadAccounts d.length t d

end Auth

end OS64
