import OS64.Auth.Model
import OS64.Lib.Runs

/-!
# Whose session it is

The session is an index into the table. Everything that is asked about it, the
name, the numbers, the groups and the role, is read from the record the index
leads to, its *identity*. An operation that is not meant to change the session
can still change what the index leads to: `auth_delete` moves the records behind
the deleted one down by one place and leaves the index alone, so that the
session of a record behind it becomes that of the next one, or, if it was the
last one, that of the first.

`KeepsSession` says of each operation when that does not happen, and
`identity_step_iff` that it says so exactly.
-/

namespace OS64.Auth

open List Text Runs Option

/-! ### Identities -/

variable {u : List UInt8} {r r' : Record} {i : ℕ}

/-- What the session functions report. -/
structure Identity where
  user : List UInt8
  uid : UInt16
  gid : UInt16
  groups : UInt32
  role : Role
  deriving DecidableEq

/-- The identity of an account. -/
def Record.identity (r : Record) : Identity := ⟨r.user, r.uid, r.gid, r.groups, r.role⟩

/-- The identity reported when there are no accounts. -/
def Identity.nobody : Identity := ⟨nobodyName, 65534, 65534, 0, Role.guest⟩

/-- `auth_current_user`, `auth_getuid`, `auth_getgid`, `auth_getgroups` and
`auth_current_role`. -/
def State.identity (t : State) : Identity :=
  ⟨authCurrentUser t, authGetuid t, authGetgid t, authGetgroups t, authCurrentRole t⟩

theorem State.identity_eq (t : State) : t.identity = (t.session.map Record.identity).getD Identity.nobody := by
  rw [State.identity, authCurrentUser, authGetuid, authGetgid, authGetgroups, authCurrentRole]
  cases t.session with
  | none => rfl
  | some r => rfl

/-! ### Finding an account -/

theorem findFrom_none : ∀ {rs : List Record} {k : ℕ}, findFrom u k rs = none → ∀ r ∈ rs, cstr u ≠ r.user
  | r₀ :: rs, k, h, r, hr => by
    rw [findFrom] at h
    split at h
    · cases h
    · rename_i hname
      rcases mem_cons.mp hr with rfl | hr
      · exact hname
      · exact findFrom_none h r hr

theorem findFrom_set (huser : r'.user = r.user) :
    ∀ {rs : List Record} {k i : ℕ}, findFrom u k rs = some (k + i, r) → findFrom u k (rs.set i r') = some (k + i, r')
  | r₀ :: rs, k, 0, h => by
    rw [findFrom] at h
    rw [set_cons_zero, findFrom]
    split at h
    · rename_i hname
      obtain ⟨-, rfl⟩ := Prod.mk.inj (some.inj h)
      rw [if_pos (hname.trans huser.symm)]
      rfl
    · have := (findFrom_some h).1
      omega
  | r₀ :: rs, k, i + 1, h => by
    rw [findFrom] at h
    rw [set_cons_succ, findFrom]
    split at h
    · obtain ⟨hk, -⟩ := Prod.mk.inj (some.inj h)
      omega
    · rename_i hname
      rw [if_neg hname]
      have hk : k + (i + 1) = k + 1 + i := by omega
      rw [hk] at h ⊢
      exact findFrom_set huser h

/-- The account that is found is found again when its other fields change. -/
theorem State.find_put {t : State}
    (h : t.find u = some (i, r)) (huser : r'.user = r.user) : (t.put i r').find u = some (i, r') := by
  have hset := findFrom_set (u := u) (k := 0) (i := i) huser (by rw [zero_add]; exact h)
  rwa [zero_add] at hset

theorem findFrom_append_singleton (huser : cstr u = r.user) :
    ∀ {rs : List Record} {k : ℕ}, findFrom u k rs = none → findFrom u k (rs ++ [r]) = some (k + rs.length, r)
  | [], k, _ => by rw [nil_append, findFrom, if_pos huser]; rfl
  | r₀ :: rs, k, h => by
    rw [findFrom] at h
    split at h
    · cases h
    · rename_i hname
      rw [cons_append, findFrom, if_neg hname, findFrom_append_singleton huser h, length_cons]
      congr 2
      omega

theorem State.find_push {t : State} (hlen : t.records.length < 16)
    (h : t.find u = none) (huser : cstr u = r.user) :
    (t.push r hlen).find u = some (t.records.length, r) := by
  have happ := findFrom_append_singleton huser h
  rwa [zero_add] at happ

theorem State.session_authSelect {t : State}
    (h : t.find u = some (i, r)) : (authSelect t u).1.session = some r := by
  rw [authSelect]
  split
  · rename_i hno
    rw [h] at hno
    cases hno
  · rename_i hsome
    rw [h] at hsome
    cases hsome
    exact (t.find_some h).1

/-! ### Operations -/

/-- The calls that change the table or the session. -/
inductive Op where
  | addRole (u p : List UInt8) (role : Role)
  | delete (u : List UInt8)
  | setPassword (u p : List UInt8)
  | setRole (u : List UInt8) (role : Role)
  | setGroups (u : List UInt8) (g : UInt32)
  | setUmask (m : UInt16)
  | select (u : List UInt8)
  | selectUid (uid : UInt16)
  | load (d : List UInt8)
  | loadAccounts (d : List UInt8)

/-- The table after a call. -/
def step (kdf : List UInt8 → List UInt8 → Hash) (t : State) : Op → State
  | .addRole u p role => (authAddRole kdf t u p role).1
  | .delete u => (authDelete t u).1
  | .setPassword u p => (authSetPassword kdf t u p).1
  | .setRole u role => (authSetRole t u role).1
  | .setGroups u g => (authSetGroups t u g).1
  | .setUmask m => authSetUmask t m
  | .select u => (authSelect t u).1
  | .selectUid uid => (authSelectUid t uid).1
  | .load d => (authLoad t d).1
  | .loadAccounts d => (authLoadAccounts t d).1

/-- The table after a sequence of calls. -/
def run (kdf : List UInt8 → List UInt8 → Hash) (t : State) (ops : List Op) : State :=
  ops.foldl (step kdf) t

/-- The calls that choose a session or load the table. -/
def Op.Chooses : Op → Prop
  | .select _ | .selectUid _ | .load _ => True
  | _ => False

/-! ### When the session is kept -/

/-- The record that takes the place of the session when record `i`, before it, is
deleted. -/
def State.successor (t : State) (i : ℕ) : Option Record :=
  if t.current + 1 < t.records.length then t.records[t.current + 1]?
  else if 0 < i then t.records[0]?
  else t.records[1]?

/-- The place of the account of a name. -/
def State.place (t : State) (u : List UInt8) : Option ℕ := (t.find u).map Prod.fst

/-- The lines of a text of accounts that are for the account at place `i`, each from its number on,
up to the line at which `auth_load_accounts` gives up: one without a colon, or one of an account
that is there with a number that no colon follows. -/
def linesFor (place : List UInt8 → Option ℕ) (i : ℕ) : ℕ → List UInt8 → List (List UInt8)
  | 0, _ => []
  | fuel + 1, d =>
    if d = [] then []
    else
      let name := d.takeWhile fun c => c != 58 && c != 10
      match d.drop name.length with
      | 58 :: d =>
        match place (name.take 15) with
        | none => linesFor place i fuel (skipLine d)
        | some j => (if j = i then [d] else []) ++
            ((readAccount (Record.named []) d).2.map (linesFor place i fuel)).getD []
      | _ => []

/-- A record with the numbers of some lines, one after the other. -/
def Record.withLines (r : Record) (lines : List (List UInt8)) : Record :=
  lines.foldl (fun r d => (readAccount r d).1) r

/-- The call does not change what is reported of the session. -/
def KeepsSession (kdf : List UInt8 → List UInt8 → Hash) (t : State) : Op → Prop
  | .addRole u p role => t.records = [] → role.code ≤ Role.guest.code →
    (newRecord kdf u p role 0).identity = Identity.nobody
  | .delete u => ∀ i r, t.find u = some (i, r) → r.uid ≠ 0 →
    t.current < i ∨ ((t.successor i).map Record.identity).getD Identity.nobody = t.identity
  | .setRole u role => ∀ r, t.find u = some (t.current, r) → r.uid ≠ 0 → role ≠ Role.root →
    r.role = role
  | .setGroups u g => ∀ r, t.find u = some (t.current, r) → r.uid ≠ 0 → r.groups = g ||| groupUsers
  | .loadAccounts d => ∀ r, t.session = some r →
    (r.withLines (linesFor t.place t.current d.length d)).identity = r.identity
  | _ => True

section

variable {kdf : List UInt8 → List UInt8 → Hash} {t : State}

/-- Changing a record that is there changes the session if it is that record. -/
theorem State.identity_put (hr : t.records[i]? = some r) :
    (t.put i r').identity = if i = t.current then r'.identity else t.identity := by
  obtain ⟨hi, -⟩ := List.getElem?_eq_some_iff.mp hr
  rw [State.identity_eq, State.identity_eq, State.session, State.session]
  change (((t.records.set i r')[t.current]?).map Record.identity).getD Identity.nobody = _
  by_cases h : i = t.current
  · rw [if_pos h, ← h, getElem?_set_self hi]
    rfl
  · rw [if_neg h, getElem?_set_ne h]

theorem State.session_authDelete (h : t.find u = some (i, r))
    (hr : r.uid ≠ 0) : (authDelete t u).1.session = if t.current < i then t.session else t.successor i := by
  have hi := t.find_lt h
  have hlen : (t.records.eraseIdx i).length = t.records.length - 1 := length_eraseIdx_of_lt hi
  rw [authDelete, h]
  simp only [if_neg hr, State.session, State.successor, hlen, getElem?_eraseIdx]
  by_cases hlt : t.current < i
  · have hplace : ¬t.current ≥ t.records.length - 1 := by omega
    simp only [if_neg hplace, if_pos hlt]
  · by_cases hnext : t.current + 1 < t.records.length
    · have hplace : ¬t.current ≥ t.records.length - 1 := by omega
      simp only [if_neg hplace, if_neg hlt, if_pos hnext]
    · have hplace : t.current ≥ t.records.length - 1 := by omega
      simp only [if_pos hplace, if_neg hlt, if_neg hnext, zero_add]

theorem identity_authDelete_iff (u : List UInt8) :
    (authDelete t u).1.identity = t.identity ↔ KeepsSession kdf t (.delete u) := by
  rcases h : t.find u with _ | ⟨i, r⟩
  · have hsame : (authDelete t u).1 = t := by rw [authDelete, h]
    rw [hsame]
    refine ⟨fun _ i r hfind => ?_, fun _ => rfl⟩
    rw [h] at hfind
    cases hfind
  · by_cases hr : r.uid = 0
    · have hsame : (authDelete t u).1 = t := by
        rw [authDelete, h]
        simp only [if_pos hr]
      rw [hsame]
      refine ⟨fun _ i' r' hfind hr' => ?_, fun _ => rfl⟩
      rw [h] at hfind
      cases hfind
      exact absurd hr hr'
    · rw [State.identity_eq, State.session_authDelete h hr]
      constructor
      · intro hsame i' r' hfind _
        rw [h] at hfind
        cases hfind
        by_cases hlt : t.current < i
        · exact .inl hlt
        · rw [if_neg hlt] at hsame
          exact .inr hsame
      · intro hkeep
        rcases hkeep i r h hr with hlt | hsame
        · rw [if_pos hlt, State.identity_eq]
        · split
          · rw [State.identity_eq]
          · exact hsame

/-- A new account is the session's only in an empty table. -/
theorem identity_authAddRole_iff (u p : List UInt8) (role : Role) :
    (authAddRole kdf t u p role).1.identity = t.identity ↔ KeepsSession kdf t (.addRole u p role) := by
  rw [KeepsSession, authAddRole]
  by_cases hempty : t.records = []
  · have hcurrent : t.current = 0 := by
      rcases t.current_lt with h | h
      · exact h
      · rw [hempty] at h
        exact absurd h (Nat.not_lt_zero _)
    have hid : t.identity = Identity.nobody := by
      rw [State.identity_eq, State.session, hempty]
      rfl
    have hnone : t.find u = none := by rw [State.find, hempty, findFrom]
    rw [dif_pos (show t.records.length < 16 by rw [hempty]; decide), hnone]
    by_cases hrole : role.code > Role.guest.code
    · rw [if_pos (.inr hrole)]
      exact ⟨fun _ _ hle => absurd hle (UInt32.not_le.mpr hrole), fun _ => rfl⟩
    · rw [if_neg (show ¬((none : Option (ℕ × Record)).isSome ∨ _) from not_or.mpr ⟨Bool.false_ne_true, hrole⟩),
        State.identity_eq, State.session, State.push]
      simp only [hempty, hcurrent, hid, forall_const, UInt32.not_lt.mp hrole]
      exact Iff.rfl
  · have hlt : t.current < t.records.length := by
      rcases t.current_lt with h | h
      · rw [h]
        exact length_pos_of_ne_nil hempty
      · exact h
    refine ⟨fun _ hno => absurd hno hempty, fun _ => ?_⟩
    split
    · split
      · rfl
      · rw [State.identity_eq, State.session, State.push, List.getElem?_append_left hlt, State.identity_eq,
          State.session]
    · rfl

theorem identity_authSetPassword (u p : List UInt8) : (authSetPassword kdf t u p).1.identity = t.identity := by
  rw [authSetPassword]
  rcases h : t.find u with _ | ⟨i, r⟩
  · rfl
  · obtain ⟨hget, -⟩ := t.find_some h
    rw [State.identity_put hget]
    split
    · rename_i hi
      rw [State.identity_eq, State.session, ← hi, hget]
      rfl
    · rfl

/-- **Changing a field of an account** is seen in the session if it is that
account and the field was another one. -/
theorem identity_put_iff (h : t.find u = some (i, r)) :
    (t.put i r').identity = t.identity ↔ (i = t.current → r'.identity = r.identity) := by
  obtain ⟨hget, -⟩ := t.find_some h
  rw [State.identity_put hget]
  by_cases hi : i = t.current
  · have hid : t.identity = r.identity := by
      rw [State.identity_eq, State.session, ← hi, hget]
      rfl
    rw [if_pos hi, hid]
    exact ⟨fun heq _ => heq, fun heq => heq hi⟩
  · rw [if_neg hi]
    exact ⟨fun _ hno => absurd hno hi, fun _ => rfl⟩

theorem identity_authSetRole_iff (u : List UInt8) (role : Role) :
    (authSetRole t u role).1.identity = t.identity ↔ KeepsSession kdf t (.setRole u role) := by
  rw [authSetRole, KeepsSession]
  rcases h : t.find u with _ | ⟨i, r⟩
  · exact ⟨fun _ r hno => absurd hno (by simp), fun _ => rfl⟩
  · simp only
    split
    · rename_i hno
      refine ⟨fun _ r' hfind hr hrole => ?_, fun _ => rfl⟩
      cases hfind
      exact absurd hno (by simp [hr, hrole])
    · rename_i hok
      rw [identity_put_iff h]
      constructor
      · intro heq r' hfind _ _
        obtain ⟨hi, rfl⟩ := Prod.mk.inj (some.inj hfind)
        exact (congrArg Identity.role (heq hi)).symm
      · intro hkeep hi
        have := hkeep r (by rw [hi]) (fun hr => hok (.inl hr)) fun hr => hok (.inr hr)
        simp only [Record.identity, this]

theorem identity_authSetGroups_iff (u : List UInt8) (g : UInt32) :
    (authSetGroups t u g).1.identity = t.identity ↔ KeepsSession kdf t (.setGroups u g) := by
  rw [authSetGroups, KeepsSession]
  rcases h : t.find u with _ | ⟨i, r⟩
  · exact ⟨fun _ r hno => absurd hno (by simp), fun _ => rfl⟩
  · simp only
    split
    · rename_i hno
      refine ⟨fun _ r' hfind hr => ?_, fun _ => rfl⟩
      cases hfind
      exact absurd hno hr
    · rename_i hok
      rw [identity_put_iff h]
      constructor
      · intro heq r' hfind _
        obtain ⟨hi, rfl⟩ := Prod.mk.inj (some.inj hfind)
        exact (congrArg Identity.groups (heq hi)).symm
      · intro hkeep hi
        have := hkeep r (by rw [hi]) hok
        simp only [Record.identity, this]

/-! ### Loading accounts -/

theorem findFrom_place {rs rs' : List Record} : ∀ {k : ℕ}, rs.map Record.user = rs'.map Record.user →
    (findFrom u k rs).map Prod.fst = (findFrom u k rs').map Prod.fst := by
  induction rs generalizing rs' with
  | nil =>
    intro k h
    rw [map_eq_nil_iff.mp h.symm]
  | cons r rs ih =>
    intro k h
    obtain ⟨r', rs', rfl, huser, htail⟩ := map_eq_cons_iff.mp h.symm
    rw [findFrom, findFrom, huser]
    split
    · rfl
    · exact ih htail.symm

theorem State.place_put (h : t.records[i]? = some r) (huser : r'.user = r.user) : (t.put i r').place = t.place := by
  funext u
  refine findFrom_place ?_
  obtain ⟨hi, rfl⟩ := List.getElem?_eq_some_iff.mp h
  change (t.records.set i r').map Record.user = _
  rw [map_set, huser, ← getElem_map Record.user (h := by rwa [length_map]), set_getElem_self]

theorem readAccount_snd (r r' : Record) (d : List UInt8) : (readAccount r d).2 = (readAccount r' d).2 := by
  rw [readAccount, readAccount]
  rcases field d with ⟨uid, _ | d₁⟩
  · rfl
  dsimp only
  rcases field d₁ with ⟨gid, _ | d₂⟩
  · rfl
  dsimp only
  rcases field d₂ with ⟨role, _ | d₃⟩
  · rfl
  · rfl

theorem user_readAccount (r : Record) (d : List UInt8) : (readAccount r d).1.user = r.user := by
  rw [readAccount]
  rcases field d with ⟨uid, _ | d₁⟩
  · rfl
  dsimp only
  rcases field d₁ with ⟨gid, _ | d₂⟩
  · rfl
  dsimp only
  rcases field d₂ with ⟨role, _ | d₃⟩
  · rfl
  · rfl

theorem State.session_put {s : Record} (h : t.records[i]? = some r) (hs : t.session = some s) (d : List UInt8) :
    (t.put i (readAccount r d).1).session = some (s.withLines (if i = t.current then [d] else [])) := by
  obtain ⟨hi, -⟩ := List.getElem?_eq_some_iff.mp h
  rw [State.session] at hs ⊢
  change (t.records.set i _)[t.current]? = _
  split_ifs with hcurrent
  · subst hcurrent
    rw [h] at hs
    rw [getElem?_set_self hi, ← some.inj hs]
    rfl
  · rw [getElem?_set_ne hcurrent]
    exact hs

/-- **What `auth_load_accounts` makes of the record in session**, by induction on the lines: no line
moves an account. -/
theorem State.session_loadAccounts : ∀ {fuel : ℕ} {t : State} {d : List UInt8} {s : Record}, t.session = some s →
    (loadAccounts fuel t d).1.session = some (s.withLines (linesFor t.place t.current fuel d))
  | 0, t, d, s, hs => hs
  | fuel + 1, t, d, s, hs => by
    rw [loadAccounts, linesFor]
    by_cases hd : d = []
    · rw [if_pos hd, if_pos hd]
      exact hs
    rw [if_neg hd, if_neg hd]
    dsimp only
    generalize d.drop _ = text
    split
    · rename_i d'
      rw [State.place]
      rcases hfind : t.find _ with _ | ⟨i, r⟩
      · exact State.session_loadAccounts hs
      · obtain ⟨hget, -⟩ := t.find_some hfind
        have hput := State.session_put hget hs d'
        have hplace := State.place_put hget (user_readAccount r d')
        change _ = some (s.withLines ((if i = t.current then [d'] else []) ++
          ((readAccount (Record.named []) d').2.map (linesFor t.place t.current fuel)).getD []))
        rw [readAccount_snd (Record.named []) r, Record.withLines, foldl_append]
        dsimp only
        rcases hread : readAccount r d' with ⟨r', _ | rest⟩
        · rw [hread] at hput
          exact hput
        · rw [hread] at hput hplace
          have hrest : (loadAccounts fuel (t.put i r') rest).1.session = _ := State.session_loadAccounts hput
          rw [hplace] at hrest
          exact hrest
    · simp [hs, Record.withLines]

theorem State.loadAccounts_of_none (hs : t.session = none) : ∀ {fuel : ℕ} {d : List UInt8},
    (loadAccounts fuel t d).1 = t
  | 0, d => rfl
  | fuel + 1, d => by
    have hnone : ∀ u, t.find u = none := fun u => by
      have hempty : t.records = [] := by
        have hle := getElem?_eq_none_iff.mp hs
        rcases t.current_lt with h | h
        · exact length_eq_zero_iff.mp (by omega)
        · omega
      rw [State.find, hempty, findFrom]
    rw [loadAccounts]
    split_ifs
    · rfl
    dsimp only
    split
    · rw [hnone]
      exact State.loadAccounts_of_none hs
    · rfl

theorem identity_authLoadAccounts_iff (d : List UInt8) :
    (authLoadAccounts t d).1.identity = t.identity ↔ KeepsSession kdf t (.loadAccounts d) := by
  rw [KeepsSession, authLoadAccounts]
  rcases hs : t.session with _ | s
  · rw [State.loadAccounts_of_none hs]
    exact ⟨fun _ r hno => absurd hno (by simp), fun _ => rfl⟩
  · rw [State.identity_eq, State.identity_eq, State.session_loadAccounts hs, hs]
    refine ⟨fun h r hr => ?_, fun h => h s rfl⟩
    obtain rfl := some.inj hr
    exact h

/-- **One call keeps the session** exactly under its condition. -/
theorem identity_step_iff {op : Op} (hop : ¬op.Chooses) :
    (step kdf t op).identity = t.identity ↔ KeepsSession kdf t op := by
  cases op with
  | addRole u p role => exact identity_authAddRole_iff u p role
  | delete u => exact identity_authDelete_iff u
  | setPassword u p => exact ⟨fun _ => trivial, fun _ => identity_authSetPassword u p⟩
  | setRole u role => exact identity_authSetRole_iff u role
  | setGroups u g => exact identity_authSetGroups_iff u g
  | setUmask m => exact ⟨fun _ => trivial, fun _ => rfl⟩
  | select u => exact absurd trivial hop
  | selectUid uid => exact absurd trivial hop
  | load d => exact absurd trivial hop
  | loadAccounts d => exact identity_authLoadAccounts_iff d

/-- A sequence of calls that do not choose a session keeps it throughout exactly
if each of them does. -/
theorem identity_run_iff {ops : List Op} (hops : ∀ op ∈ ops, ¬op.Chooses) :
    (∀ before after, ops = before ++ after → (run kdf t before).identity = t.identity) ↔
      Throughout (fun before op => KeepsSession kdf (run kdf t before) op) ops := by
  refine forall_states_iff (I := fun t' => t'.identity = t.identity)
    (C := fun t' op => KeepsSession kdf t' op) rfl fun t' op hop hsame => ?_
  rw [← hsame]
  exact identity_step_iff (hops op hop)

/-! ### Deletion -/

section

variable (hnames : (t.records.map Record.user).Nodup)
include hnames

/-- In a table without double names, a name has one place. -/
theorem State.place_inj {j : ℕ}
    (hr : t.records[i]? = some r) (hr' : t.records[j]? = some r') (huser : r.user = r'.user) : i = j := by
  obtain ⟨hi, rfl⟩ := List.getElem?_eq_some_iff.mp hr
  obtain ⟨hj, rfl⟩ := List.getElem?_eq_some_iff.mp hr'
  have hi' : i < (t.records.map Record.user).length := by rwa [length_map]
  have hj' : j < (t.records.map Record.user).length := by rwa [length_map]
  have hsame : (t.records.map Record.user)[i] = (t.records.map Record.user)[j] := by
    rw [getElem_map, getElem_map, huser]
  exact (Nodup.getElem_inj_iff hnames).mp hsame

/-- In a table without double names, every account is found by its name. -/
theorem State.find_user (hr : t.records[i]? = some r) : t.find r.user = some (i, r) := by
  have hcstr : cstr r.user = r.user := cstr_eq_self r.user_fits.2
  rcases h : t.find r.user with _ | ⟨j, r'⟩
  · exact absurd hcstr (findFrom_none h r (mem_of_getElem? hr))
  · obtain ⟨hr', huser⟩ := t.find_some h
    obtain rfl := State.place_inj hnames hr hr' (hcstr.symm.trans huser)
    rw [hr] at hr'
    rw [some.inj hr']

/-- **Without double names** the session survives the deletion of another account
if that one is behind it, or if the two are alone. -/
theorem keepsSession_delete_iff (h : t.find u = some (i, r)) (hr : r.uid ≠ 0) (hu : cstr u ≠ authCurrentUser t) :
    KeepsSession kdf t (.delete u) ↔ t.current < i ∨ t.records.length = 2 := by
  obtain ⟨hget, huser⟩ := t.find_some h
  have hi := t.find_lt h
  have hlt : t.current < t.records.length := by
    rcases t.current_lt with h' | h'
    · omega
    · exact h'
  have hother : i ≠ t.current := by
    rintro rfl
    refine hu ?_
    rw [huser, authCurrentUser, State.session, hget]
    rfl
  -- a record with the session's identity is the session's
  have hplace : ∀ {j : ℕ}, ((t.records[j]?).map Record.identity).getD Identity.nobody = t.identity →
      j < t.records.length → j = t.current := by
    intro j hj hjlt
    rw [getElem?_eq_getElem hjlt, State.identity_eq, State.session, getElem?_eq_getElem hlt] at hj
    exact State.place_inj hnames (getElem?_eq_getElem hjlt) (getElem?_eq_getElem hlt)
      (congrArg Identity.user hj)
  constructor
  · intro hkeep
    rcases hkeep i r h hr with hbehind | hsame
    · exact .inl hbehind
    · rw [State.successor] at hsame
      split at hsame
      · have := hplace hsame ‹_›
        omega
      · split at hsame
        · have := hplace hsame (by omega)
          omega
        · by_cases hone : 1 < t.records.length
          · have := hplace hsame hone
            omega
          · omega
  · rintro (hbehind | htwo) i' r' hfind _
    · rw [h] at hfind
      cases hfind
      exact .inl hbehind
    · rw [h] at hfind
      cases hfind
      by_cases hbehind : t.current < i
      · exact .inl hbehind
      · refine .inr ?_
        rw [State.successor, if_neg (by omega), if_neg (by omega), State.identity_eq, State.session,
          show t.current = 1 by omega]

end

/-- **The session survives a deletion exactly if it keeps its record**, and a
sequence of calls none of which chooses a session keeps it throughout exactly if
each of them does. Deleting another account keeps it if that account is behind
the session's in the table, or if the two are alone; otherwise the index leads to
the next record, or to the first one. -/
theorem session_kept_iff (kdf : List UInt8 → List UInt8 → Hash) (t : State) :
    (∀ u, (authDelete t u).2 = true → cstr u ≠ authCurrentUser t →
      ((authDelete t u).1.identity = t.identity ↔ KeepsSession kdf t (.delete u)) ∧
      ((t.records.map Record.user).Nodup →
        (KeepsSession kdf t (.delete u) ↔ (∀ i r, t.find u = some (i, r) → t.current < i) ∨ t.records.length = 2))) ∧
    ∀ ops : List Op, (∀ op ∈ ops, ¬op.Chooses) →
      ((∀ before after, ops = before ++ after → (run kdf t before).identity = t.identity) ↔
        Throughout (fun before op => KeepsSession kdf (run kdf t before) op) ops) := by
  refine ⟨fun u hok hu => ⟨identity_authDelete_iff u, fun hnames => ?_⟩, fun ops hops => identity_run_iff hops⟩
  rcases h : t.find u with _ | ⟨i, r⟩
  · rw [authDelete, h] at hok
    cases hok
  · have hr : r.uid ≠ 0 := by
      intro hzero
      rw [authDelete, h] at hok
      simp only [if_pos hzero] at hok
      cases hok
    rw [keepsSession_delete_iff hnames h hr hu]
    refine or_congr ⟨?_, fun hall => hall i r rfl⟩ Iff.rfl
    rintro hlt i' r' hfind
    cases hfind
    exact hlt

end

/-- `"alice"`. -/
def aliceName : List UInt8 := chars ['a', 'l', 'i', 'c', 'e']

/-- `"bob"`. -/
def bobName : List UInt8 := chars ['b', 'o', 'b']

/-- The file of keys of `root`, `alice` and `bob`, all locked. -/
def threeAccounts : List UInt8 :=
  [rootName, aliceName, bobName].flatMap fun u => u ++ [58, 33, 10]

/-- The table of the three accounts, with one of them in session. -/
def sessionOf (u : List UInt8) : State := (authSelect (authLoad State.initial threeAccounts).1 u).1

/-- Deleting the account behind the session's keeps the session. -/
theorem session_kept_of_delete_behind :
    (authDelete (sessionOf aliceName) bobName).1.identity = (sessionOf aliceName).identity :=
  ((session_kept_iff (fun _ _ => Hash.zero) (sessionOf aliceName)).1 bobName (by decide)
    (by decide)).1.mpr (by
      intro i r hfind _
      refine .inl ?_
      have : (sessionOf aliceName).find bobName = some (2, (sessionOf aliceName).records.getD 2
          (Record.named [])) := by decide
      rw [this] at hfind
      obtain ⟨rfl, -⟩ := Prod.mk.inj (some.inj hfind)
      decide)

/-- Deleting `alice` in the session of `bob` makes it one of `root`. -/
theorem session_of_root_after_delete :
    (authDelete (sessionOf bobName) aliceName).2 = true ∧
      aliceName ≠ authCurrentUser (sessionOf bobName) ∧
      authGetuid (sessionOf bobName) = 1002 ∧
      authCurrentUser (authDelete (sessionOf bobName) aliceName).1 = rootName ∧
      authIsRoot (authDelete (sessionOf bobName) aliceName).1 = true := by
  decide

end OS64.Auth
