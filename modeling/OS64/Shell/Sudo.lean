import OS64.Auth.Accounts
import OS64.Shell.Model

/-!
# Coming back from `sudo`

`c_sudo` switches to `root`, runs a command and switches back to the user it was
called by. The switch back goes by name and can fail: if the command has deleted
the account, there is no such name, `set_session_user` does nothing, and the
session stays with `root`.

`c_userdel` refuses to delete the user of the session, but that is `root` while
the command runs. `Erases` says which command lines delete an account, directly or
through further `sudo`s, and `sudo_restores_iff` that these are exactly the ones
after which the session is not the one before.
-/

namespace OS64

namespace Auth

open List Text Option

/-! ### Who an account is -/

variable {u : List UInt8} {t : State}

/-- The fields of an account that do not change while it exists. -/
def Record.key (r : Record) : List UInt8 × UInt16 × UInt16 := (r.user, r.uid, r.gid)

theorem Record.copied_user (r : Record) : copied 15 r.user = r.user := by
  rw [copied, cstr_eq_self r.user_fits.2, take_of_length_le r.user_fits.1]

theorem lookup_congr : ∀ {rs rs' : List Record} {k k' : ℕ},
    rs'.map Record.key = rs.map Record.key →
    (findFrom u k' rs').map (fun p => p.2.key) = (findFrom u k rs).map fun p => p.2.key
  | [], [], _, _, _ => rfl
  | r :: rs, r' :: rs', k, k', h => by
    obtain ⟨hkey, hrest⟩ := List.cons.inj h
    have huser : r'.user = r.user := congrArg Prod.fst hkey
    rw [findFrom, findFrom, huser]
    split
    · exact congrArg some hkey
    · exact lookup_congr hrest

/-- What `find` finds of an account, up to its place and its other fields. -/
def State.who (t : State) (u : List UInt8) : Option (List UInt8 × UInt16 × UInt16) :=
  (t.find u).map fun p => p.2.key

variable {v : List UInt8} {w : List UInt8 × UInt16 × UInt16}

theorem State.who_put {i : ℕ} {r r' : Record} (h : t.find v = some (i, r)) (hkey : r'.key = r.key) (u : List UInt8) :
    (t.put i r').who u = t.who u := by
  refine lookup_congr ?_
  obtain ⟨hget, -⟩ := t.find_some h
  obtain ⟨hi, hr⟩ := List.getElem?_eq_some_iff.mp hget
  change (t.records.set i r').map Record.key = _
  have hi' : i < (t.records.map Record.key).length := by rwa [length_map]
  have hsame : (t.records.map Record.key)[i] = r.key := by rw [getElem_map, hr]
  rw [map_set, hkey, ← hsame, set_getElem_self]

theorem findFrom_append_left (l : List Record) : ∀ {rs : List Record} {k : ℕ}
    {p : ℕ × Record}, findFrom u k rs = some p → findFrom u k (rs ++ l) = some p
  | r :: rs, k, p, h => by
    rw [findFrom] at h
    rw [cons_append, findFrom]
    split at h
    · rename_i hname
      rw [if_pos hname, h]
    · rename_i hname
      rw [if_neg hname]
      exact findFrom_append_left l h

theorem State.who_push {r : Record}
    (hlen : t.records.length < 16) (h : t.who u = some w) : (t.push r hlen).who u = some w := by
  obtain ⟨p, hp, rfl⟩ := map_eq_some_iff.mp h
  have hfind : (t.push r hlen).find u = some p := findFrom_append_left [r] hp
  rw [State.who, hfind, map_some]

theorem lookup_eraseIdx : ∀ {rs : List Record} {i k : ℕ} {r : Record},
    rs[i]? = some r → cstr u ≠ r.user →
    (findFrom u k (rs.eraseIdx i)).map (fun p => p.2.key) = (findFrom u k rs).map fun p => p.2.key
  | r₀ :: rs, 0, k, r, h, hu => by
    rw [List.getElem?_cons_zero] at h
    obtain rfl := some.inj h
    rw [eraseIdx_cons_zero, findFrom, if_neg hu]
    exact lookup_congr rfl
  | r₀ :: rs, i + 1, k, r, h, hu => by
    rw [eraseIdx_cons_succ, findFrom, findFrom]
    split
    · rfl
    · exact lookup_eraseIdx h hu

/-- Deleting one account leaves the others. -/
theorem State.who_authDelete (h : cstr u ≠ cstr v) : (authDelete t v).1.who u = t.who u := by
  rw [authDelete]
  split
  · rfl
  · rename_i i r hfind
    obtain ⟨hget, huser⟩ := t.find_some hfind
    split
    · rfl
    · exact lookup_eraseIdx hget (by rwa [← huser])

theorem authDelete_of_refused (h : (authDelete t u).2 = false) : (authDelete t u).1 = t := by
  rw [authDelete] at h ⊢
  split at h
  · rfl
  · split at h
    · rename_i huid
      simp only [if_pos huid]
    · cases h

theorem State.who_authSelect (t : State) (u v : List UInt8) : (authSelect t u).1.who v = t.who v := by
  rw [authSelect]
  split
  · rfl
  · rfl

theorem who_authAddRole
    (h : t.who u = some w) (kdf : List UInt8 → List UInt8 → Hash) (v p : List UInt8) (role : Role) :
    (authAddRole kdf t v p role).1.who u = some w := by
  rw [authAddRole]
  split
  · split
    · exact h
    · exact State.who_push (by assumption) h
  · exact h

theorem who_authSetRole (t : State) (u v : List UInt8) (role : Role) : (authSetRole t v role).1.who u = t.who u := by
  rw [authSetRole]
  split
  · rfl
  · rename_i hfind
    split
    · rfl
    · refine State.who_put hfind ?_ u
      rfl

theorem who_authSetPassword (t : State) (kdf : List UInt8 → List UInt8 → Hash) (u v p : List UInt8) :
    (authSetPassword kdf t v p).1.who u = t.who u := by
  rw [authSetPassword]
  split
  · rfl
  · rename_i hfind
    refine State.who_put hfind ?_ u
    rfl

end Auth

namespace Shell

open List Text Auth

section

variable {W : Type} {k : Kernel W} {kdf : List UInt8 → List UInt8 → Hash} {o : List UInt8}
  {w : List UInt8 × UInt16 × UInt16}

/-! ### Switching users -/

variable {s : Session W} {user a : List UInt8}

theorem setSessionUser_of_none (h : s.auth.find user = none) : setSessionUser s user = s := by
  have hselect : (authSelect s.auth user).2 = false := by
    rw [authSelect]
    split
    · rfl
    · rename_i hsome
      rw [h] at hsome
      cases hsome
  rw [setSessionUser]
  split
  · rfl
  · rename_i heq
    rw [heq] at hselect
    cases hselect

theorem setSessionUser_of_some {i : ℕ} {r : Record} (h : s.auth.find user = some (i, r)) :
    (setSessionUser s user).auth = (authSelect s.auth user).1 ∧
      (setSessionUser s user).currentUser = copied 15 user := by
  have hselect : (authSelect s.auth user).2 = true := by
    rw [authSelect]
    split
    · rename_i hno
      rw [h] at hno
      cases hno
    · rfl
  rw [setSessionUser]
  split
  · rename_i heq
    rw [heq] at hselect
    cases hselect
  · rename_i heq
    exact ⟨(congrArg Prod.fst heq).symm, rfl⟩

@[simp] theorem who_setSessionUser (s : Session W) (user u : List UInt8) :
    (setSessionUser s user).auth.who u = s.auth.who u := by
  rcases h : s.auth.find user with _ | ⟨i, r⟩
  · rw [setSessionUser_of_none h]
  · rw [(setSessionUser_of_some h).1, State.who_authSelect]

/-! ### The other commands keep the accounts -/

theorem who_createAccount {user p : List UInt8} {role : Role}
    (h : s.auth.who o = some w) : (createAccount k kdf s user p role).auth.who o = some w := by
  have hadd := who_authAddRole h kdf user p role
  rw [createAccount]
  split
  · exact h
  · rename_i heq
    rw [heq] at hadd
    split
    · exact hadd
    · exact hadd

section

variable (h : s.auth.who o = some w)
include h

theorem who_useraddNamed (a : List UInt8) (role : Role) : (useraddNamed k kdf s a role).auth.who o = some w := by
  simp only [useraddNamed]
  split
  · split
    · exact h
    · split
      · exact who_createAccount h
      · exact h
  · exact h

theorem who_cUseradd (a : List UInt8) : (cUseradd k kdf s a).auth.who o = some w := by
  simp only [cUseradd]
  split
  · split
    · split
      · exact h
      · split
        · exact h
        · exact who_useraddNamed h ..
    · exact who_useraddNamed h ..
  · exact h

theorem who_cMkuser (a : List UInt8) : (cMkuser k kdf s a).auth.who o = some w := by
  have hadd := fun p => who_authAddRole h kdf (word 15 (skipSpaces a)) p Role.standard
  simp only [cMkuser]
  split
  · split
    · exact h
    · split
      · exact h
      · rename_i heq
        have hnew := hadd (k.readSecret s.world).1
        rw [heq] at hnew
        split
        · exact hnew
        · split
          · exact hnew
          · exact hnew
  · exact h

theorem who_cUsermod (a : List UInt8) : (cUsermod k s a).auth.who o = some w := by
  simp only [cUsermod]
  split
  · split
    · split
      · exact h
      · split
        · exact h
        · rename_i role _
          split
          · exact h
          · have hset := who_authSetRole s.auth o
              (skipSpaces ((skipSpaces ((skipSpaces a).drop 3)).dropWhile (· != 32))) role
            split
            · exact h
            · rename_i heq
              rw [heq] at hset
              exact hset.trans h
    · exact h
  · exact h

theorem who_passwdNew : (passwdNew k kdf s user).auth.who o = some w := by
  have hset := who_authSetPassword s.auth kdf o user (k.readSecret s.world).1
  simp only [passwdNew]
  split
  · exact h
  · split
    · split
      · exact h
      · rename_i heq
        rw [heq] at hset
        exact hset.trans h
    · exact h

theorem who_cPasswd (a : List UInt8) : (cPasswd k kdf s a).auth.who o = some w := by
  simp only [cPasswd]
  generalize (if skipSpaces a = [] then s.currentUser else skipSpaces a) = user
  split
  · exact h
  · split
    · split
      · exact who_passwdNew h
      · exact h
    · exact who_passwdNew h

theorem who_cUmask (a : List UInt8) : (cUmask s a).auth.who o = some w := by
  rw [cUmask]
  split
  · exact h
  · exact h

theorem who_cSu (a : List UInt8) : (cSu k kdf s a).auth.who o = some w := by
  simp only [cSu]
  split
  · exact h
  · split
    · rw [who_setSessionUser, h]
    · split
      · rw [who_setSessionUser, h]
      · exact h

end

theorem currentUser_cUserdel (s : Session W) (a : List UInt8) : (cUserdel k s a).currentUser = s.currentUser := by
  rw [cUserdel]
  dsimp only
  split_ifs
  · rfl
  · split
    · rfl
    · rfl
  · rfl

/-- `c_userdel` deletes an account that is neither `root` nor the session's. -/
theorem auth_cUserdel (s : Session W) (a : List UInt8) :
    (cUserdel k s a).auth =
      if authIsAdmin s.auth = true ∧ skipSpaces a ≠ [] ∧ skipSpaces a ≠ rootName ∧
          skipSpaces a ≠ s.currentUser then (authDelete s.auth (skipSpaces a)).1
      else s.auth := by
  rw [cUserdel]
  dsimp only
  split_ifs with hadmin hno h h h
  · exact absurd hno (by simp [h.2])
  · rfl
  · rcases hdel : authDelete s.auth (skipSpaces a) with ⟨t, _ | _⟩
    · have hsame := authDelete_of_refused (t := s.auth) (u := skipSpaces a) (by rw [hdel])
      rw [hdel] at hsame
      exact hsame.symm
    · rfl
  · exact absurd ⟨hadmin, by simpa [not_or] using hno⟩ h
  · exact absurd h.1 hadmin
  · rfl

theorem who_cUserdel (ho : 0 ∉ o) (ha : 0 ∉ a) : (cUserdel k s a).auth.who o ≠ s.auth.who o ↔
      authIsAdmin s.auth = true ∧ skipSpaces a = o ∧ o ≠ [] ∧ o ≠ rootName ∧ o ≠ s.currentUser ∧
        (authDelete s.auth o).1.who o ≠ s.auth.who o := by
  have hname : 0 ∉ skipSpaces a := fun h => ha ((dropWhile_suffix _).subset h)
  rw [auth_cUserdel]
  split_ifs with hdo
  · constructor
    · intro h
      have heq : skipSpaces a = o := by
        by_contra hne
        refine h (State.who_authDelete ?_)
        rw [cstr_eq_self ho, cstr_eq_self hname]
        exact Ne.symm hne
      rw [heq] at h hdo
      exact ⟨hdo.1, heq, hdo.2.1, hdo.2.2.1, hdo.2.2.2, h⟩
    · rintro ⟨-, rfl, -, -, -, h⟩
      exact h
  · refine iff_of_false (fun h => h rfl) ?_
    rintro ⟨hadmin, rfl, hne, hroot, huser, -⟩
    exact hdo ⟨hadmin, hne, hroot, huser⟩

/-! ### Up to the switch -/

theorem sudoAuthenticate_keeps (k : Kernel W) (kdf : List UInt8 → List UInt8 → Hash) (s : Session W) :
    (sudoAuthenticate k kdf s).1.auth = s.auth ∧
    (sudoAuthenticate k kdf s).1.currentUser = s.currentUser := by
  simp only [sudoAuthenticate]
  split
  · split
    · exact ⟨rfl, rfl⟩
    · exact ⟨rfl, rfl⟩
  · exact ⟨rfl, rfl⟩

/-- Before the switch to `root`, `c_sudo` changes neither accounts nor the session. -/
theorem sudoEnter_keeps (k : Kernel W) (kdf : List UInt8 → List UInt8 → Hash) (s : Session W)
    (a : List UInt8) : (sudoEnter k kdf s a).1.auth = s.auth ∧
    (sudoEnter k kdf s a).1.currentUser = s.currentUser := by
  have h := sudoAuthenticate_keeps k kdf s
  simp only [sudoEnter]
  split
  · exact ⟨rfl, rfl⟩
  · split
    · rename_i heq
      rwa [heq] at h
    · rename_i heq
      rwa [heq] at h

theorem word_ne_nil {n : ℕ} (hn : 0 < n) (h : skipSpaces a ≠ []) : word n (skipSpaces a) ≠ [] := by
  have hhead := head_dropWhile_not (· == (32 : UInt8)) h
  obtain ⟨c, cs, hcs⟩ := exists_cons_of_ne_nil h
  have hc : (c != 32) = true := by
    simp only [skipSpaces] at hcs
    simpa [hcs] using hhead
  rw [hcs, word, takeWhile_cons, if_pos hc]
  obtain ⟨m, rfl⟩ := Nat.exists_eq_succ_of_ne_zero hn.ne'
  simp

/-- The argument of the command is shorter than that of `sudo`. -/
theorem sudoEnter_rest {s s' : Session W} {a cmd rest : List UInt8}
    (h : sudoEnter k kdf s a = (s', some (cmd, rest))) : rest.length < a.length ∧ rest ⊆ a := by
  simp only [sudoEnter] at h
  split at h
  · exact absurd (congrArg Prod.snd h) (by simp)
  · rename_i hgo
    split at h
    · exact absurd (congrArg Prod.snd h) (by simp)
    · obtain ⟨-, rfl⟩ := Prod.mk.inj (Option.some.inj (Prod.mk.inj h).2)
      set b := skipSpaces a with hb
      have hsuffix : b <:+ a := dropWhile_suffix _
      have hword : 0 < (word 15 b).length := length_pos_of_ne_nil (word_ne_nil (by omega) (not_or.mp hgo).1)
      have hrest : skipSpaces (b.drop (word 15 b).length) <:+ b.drop (word 15 b).length := dropWhile_suffix _
      have hne : 0 < b.length := length_pos_of_ne_nil (not_or.mp hgo).1
      refine ⟨?_, (hrest.trans ((drop_suffix _ _).trans hsuffix)).subset⟩
      calc (skipSpaces (b.drop (word 15 b).length)).length
          ≤ b.length - (word 15 b).length := by simpa using hrest.length_le
        _ < b.length := by omega
        _ ≤ a.length := hsuffix.length_le

/-! ### Command lines that delete an account -/

end

/-- The command `name args` deletes the account `o`: as `userdel`, or as `sudo`
with a command that does. -/
inductive Erases {W : Type} (k : Kernel W) (kdf : List UInt8 → List UInt8 → Hash) (o : List UInt8) :
    Session W → List UInt8 → List UInt8 → Prop
  | userdel {s : Session W} {name args : List UInt8} (hname : (name, Command.userdel) ∈ commands)
      (hhelp : asksHelp args = false) (hadmin : authIsAdmin s.auth = true) (hargs : skipSpaces args = o)
      (hne : o ≠ []) (hroot : o ≠ rootName) (huser : o ≠ s.currentUser)
      (hdel : (authDelete s.auth o).1.who o ≠ s.auth.who o) : Erases k kdf o s name args
  | nested {s s' : Session W} {name args cmd rest : List UInt8} (hname : (name, Command.sudo) ∈ commands)
      (hhelp : asksHelp args = false) (henter : sudoEnter k kdf s args = (s', some (cmd, rest)))
      (hcmd : Erases k kdf o (setSessionUser s' rootName) cmd rest) : Erases k kdf o s name args

section

variable {W : Type} {k : Kernel W} {kdf : List UInt8 → List UInt8 → Hash} {o : List UInt8}
  {w : List UInt8 × UInt16 × UInt16}

variable {c : Command} {name args : List UInt8} {s : Session W} {r : Record}

theorem find?_commands {name n : List UInt8} :
    commands.find? (fun row => row.1 = name) = some (n, c) ↔ n = name ∧ (name, c) ∈ commands := by
  constructor
  · intro h
    have hn : n = name := by simpa using List.find?_some h
    refine ⟨hn, ?_⟩
    rw [← hn]
    exact mem_of_find?_eq_some h
  · rintro ⟨rfl, h⟩
    simp only [commands, mem_cons, Prod.mk.injEq, not_mem_nil, or_false] at h
    rcases h with ⟨rfl, rfl⟩ | ⟨rfl, rfl⟩ | ⟨rfl, rfl⟩ | ⟨rfl, rfl⟩ | ⟨rfl, rfl⟩ | ⟨rfl, rfl⟩ |
      ⟨rfl, rfl⟩ | ⟨rfl, rfl⟩ | ⟨rfl, rfl⟩ | ⟨rfl, rfl⟩ <;> decide

theorem command_unique {c c' : Command} (h : (name, c) ∈ commands) (h' : (name, c') ∈ commands) : c = c' := by
  have h₁ := find?_commands.mpr ⟨rfl, h⟩
  have h₂ := find?_commands.mpr ⟨rfl, h'⟩
  rw [h₁] at h₂
  exact (Prod.mk.inj (Option.some.inj h₂)).2

theorem abiDispatch_of_mem {fuel : ℕ} (h : (name, c) ∈ commands) (hauth : commandAuthorized s.auth c = true)
    (hhelp : asksHelp args = false) :
    abiDispatch k kdf (fuel + 1) s name args = runCommand k kdf (abiDispatch k kdf fuel) s args c := by
  rw [abiDispatch, find?_commands.mpr ⟨rfl, h⟩]
  simp only [if_pos (And.intro hauth hhelp)]

/-- Without an account `root` there is no switch, and `c_userdel` does refuse. -/
theorem Erases.currentUser_ne (h : Erases k kdf o s name args)
    (hnone : s.auth.find rootName = none) : s.currentUser ≠ o := by
  induction h with
  | userdel _ _ _ _ _ _ huser => exact Ne.symm huser
  | @nested s s' name args cmd rest _ _ henter _ ih =>
    obtain ⟨hauth, huser⟩ := sudoEnter_keeps k kdf s args
    rw [henter] at hauth huser
    have hnone' : s'.auth.find rootName = none := by rw [hauth, hnone]
    rw [setSessionUser_of_none hnone'] at ih
    rw [← huser]
    exact ih hnone'

theorem Erases.ne_root (h : Erases k kdf o s name args) : o ≠ rootName := by
  induction h with
  | userdel _ _ _ _ _ hroot => exact hroot
  | nested _ _ _ _ ih => exact ih

theorem currentUser_setSessionUser_root {user : List UInt8}
    (huser : copied 15 user = rootName) (h : s.currentUser = rootName) :
    (setSessionUser s user).currentUser = rootName := by
  rcases hfind : s.auth.find user with _ | ⟨i, r⟩
  · rw [setSessionUser_of_none hfind, h]
  · rw [(setSessionUser_of_some hfind).2, huser]

/-- Such a command, run by `root`, ends with the session of `root`. -/
theorem Erases.currentUser_eq (h : Erases k kdf o s name args) (hs : s.currentUser = rootName) (fuel : ℕ) :
    (abiDispatch k kdf fuel s name args).currentUser = rootName := by
  induction h generalizing fuel with
  | @userdel s name args hname hhelp hadmin =>
    rcases fuel with _ | fuel
    · exact hs
    rw [abiDispatch_of_mem hname hadmin hhelp, runCommand]
    rw [currentUser_cUserdel, hs]
  | @nested s s' name args cmd rest hname hhelp henter _ ih =>
    rcases fuel with _ | fuel
    · exact hs
    obtain ⟨-, huser⟩ := sudoEnter_keeps k kdf s args
    rw [henter] at huser
    have hroot : copied 15 rootName = rootName := by decide
    rw [abiDispatch_of_mem hname rfl hhelp, runCommand, sudoWith, henter]
    refine currentUser_setSessionUser_root (by rw [hs, hroot, hroot]) (ih ?_ fuel)
    exact currentUser_setSessionUser_root hroot (huser.trans hs)

theorem Erases.command (h : Erases k kdf o s name args) :
    asksHelp args = false ∧ ∃ c, (name, c) ∈ commands ∧ commandAuthorized s.auth c = true ∧
      (c = Command.userdel ∨ c = Command.sudo) := by
  cases h with
  | userdel hname hhelp hadmin => exact ⟨hhelp, _, hname, hadmin, .inl rfl⟩
  | nested hname hhelp => exact ⟨hhelp, _, hname, rfl, .inr rfl⟩

theorem who_sudoWith_iff {dispatch : Session W → List UInt8 → List UInt8 → Session W}
    {a : List UInt8} (hwho : s.auth.who o = some w) :
    (sudoWith k kdf dispatch s a).auth.who o ≠ some w ↔
      ∃ s' cmd rest, sudoEnter k kdf s a = (s', some (cmd, rest)) ∧
        (dispatch (setSessionUser s' rootName) cmd rest).auth.who o ≠ some w := by
  rw [sudoWith]
  obtain ⟨hauth, -⟩ := sudoEnter_keeps k kdf s a
  rcases henter : sudoEnter k kdf s a with ⟨s', _ | ⟨cmd, rest⟩⟩
  · rw [henter] at hauth
    refine iff_of_false (fun h => h (by rw [hauth, hwho])) ?_
    rintro ⟨_, _, _, h, -⟩
    exact absurd (congrArg Prod.snd h) (by simp)
  · simp only [who_setSessionUser]
    constructor
    · intro h
      exact ⟨s', cmd, rest, rfl, h⟩
    · rintro ⟨s'', cmd', rest', h, hne⟩
      cases h
      exact hne

/-- **A command deletes an account exactly if it is one of those.** -/
theorem who_abiDispatch_iff (ho : 0 ∉ o) : ∀ {fuel : ℕ} {s : Session W} {name args : List UInt8},
    args.length < fuel → 0 ∉ args → s.auth.who o = some w →
    ((abiDispatch k kdf fuel s name args).auth.who o ≠ some w ↔ Erases k kdf o s name args)
  | fuel + 1, s, name, args, hfuel, hargs, hwho => by
    by_cases hrun : ∃ c, (name, c) ∈ commands ∧ commandAuthorized s.auth c = true ∧ asksHelp args = false
    swap
    · refine iff_of_false ?_ ?_
      · rw [abiDispatch]
        split
        · exact fun h => h hwho
        · rename_i n c hfind
          obtain ⟨rfl, hmem⟩ := find?_commands.mp hfind
          rw [if_neg fun h : _ ∧ _ => hrun ⟨c, hmem, h.1, h.2⟩]
          exact fun h => h hwho
      · intro h
        obtain ⟨hhelp, c, hmem, hauth, -⟩ := h.command
        exact hrun ⟨c, hmem, hauth, hhelp⟩
    obtain ⟨c, hmem, hauth, hhelp⟩ := hrun
    rw [abiDispatch_of_mem hmem hauth hhelp]
    -- Only `userdel` and `sudo` can delete; for the others both sides are false.
    have hother : ¬(c = Command.userdel ∨ c = Command.sudo) →
        (runCommand k kdf (abiDispatch k kdf fuel) s args c).auth.who o = some w →
        ((runCommand k kdf (abiDispatch k kdf fuel) s args c).auth.who o ≠ some w ↔ Erases k kdf o s name args) := by
      intro hc hsame
      refine iff_of_false (fun h => h hsame) ?_
      intro h
      obtain ⟨-, c', hmem', -, hc'⟩ := h.command
      rw [command_unique hmem' hmem] at hc'
      exact hc hc'
    cases c with
    | useradd => exact hother (by decide) (who_cUseradd hwho _)
    | mkuser => exact hother (by decide) (who_cMkuser hwho _)
    | usermod => exact hother (by decide) (who_cUsermod hwho _)
    | passwd => exact hother (by decide) (who_cPasswd hwho _)
    | umask => exact hother (by decide) (who_cUmask hwho _)
    | su => exact hother (by decide) (who_cSu hwho _)
    | login => exact hother (by decide) (who_cSu hwho _)
    | logout =>
      refine hother (by decide) ?_
      rw [runCommand, cLogout, who_setSessionUser, hwho]
    | userdel =>
      rw [runCommand, ← hwho, who_cUserdel ho hargs]
      constructor
      · rintro ⟨hadmin, heq, hne, hroot, huser, hdel⟩
        exact .userdel hmem hhelp hadmin heq hne hroot huser hdel
      · rintro (⟨-, -, hadmin, heq, hne, hroot, huser, hdel⟩ | ⟨hname, -⟩)
        · exact ⟨hadmin, heq, hne, hroot, huser, hdel⟩
        · exact absurd (command_unique hmem hname) (by decide)
    | «sudo» =>
      rw [runCommand, who_sudoWith_iff hwho]
      have hinner : ∀ s' cmd rest, sudoEnter k kdf s args = (s', some (cmd, rest)) →
          ((abiDispatch k kdf fuel (setSessionUser s' rootName) cmd rest).auth.who o ≠ some w ↔
            Erases k kdf o (setSessionUser s' rootName) cmd rest) := by
        intro s' cmd rest henter
        obtain ⟨hlen, hsub⟩ := sudoEnter_rest henter
        obtain ⟨hkeep, -⟩ := sudoEnter_keeps k kdf s args
        rw [henter] at hkeep
        refine who_abiDispatch_iff ho (by omega) (fun h => hargs (hsub h)) ?_
        rw [who_setSessionUser, hkeep, hwho]
      constructor
      · rintro ⟨s', cmd, rest, henter, hne⟩
        exact .nested hmem hhelp henter ((hinner s' cmd rest henter).mp hne)
      · rintro (⟨hname, -⟩ | ⟨-, -, henter, hcmd⟩)
        · exact absurd (command_unique hmem hname) (by decide)
        · exact ⟨_, _, _, henter, (hinner _ _ _ henter).mpr hcmd⟩

/-! ### The session afterwards -/

/-- The session is the one of the account `r`, or there is no such account and the
session has no privileges. In any case it is not the one of `root`. -/
def Returned (r : Record) (s : Session W) : Prop :=
  authIsRoot s.auth = false ∧
    ((s.currentUser = r.user ∧ s.auth.session.map Record.key = some r.key) ∨
      (s.auth.find r.user = none ∧ s.currentUser ≠ rootName ∧ maySudo s.auth = false))

theorem Returned.of_key (hroot : r.uid ≠ 0) (huser : s.currentUser = r.user)
    (hsession : s.auth.session.map Record.key = some r.key) : Returned r s := by
  refine ⟨?_, .inl ⟨huser, hsession⟩⟩
  obtain ⟨r', hr', hkey⟩ := Option.map_eq_some_iff.mp hsession
  have huid : r'.uid = r.uid := congrArg (fun key => key.2.1) hkey
  rw [authIsRoot, authGetuid, hr', Option.map_some, Option.getD_some, huid]
  exact decide_eq_false hroot

/-- An account that is still there gets its session back. -/
theorem returned_setSessionUser (hroot : r.uid ≠ 0)
    (hwho : s.auth.who r.user = some r.key) : Returned r (setSessionUser s (copied 15 r.user)) := by
  rw [r.copied_user]
  obtain ⟨⟨i, r'⟩, hfind, hkey⟩ := Option.map_eq_some_iff.mp hwho
  obtain ⟨hauth, huser⟩ := setSessionUser_of_some hfind
  refine .of_key hroot (huser.trans r.copied_user) ?_
  rw [hauth, State.session_authSelect hfind, Option.map_some, hkey]

/-- An account that is not there any more leaves the session with `root`. -/
theorem not_returned_setSessionUser (hname : r.user ≠ rootName)
    (huser : s.currentUser = rootName) (hwho : s.auth.who r.user ≠ some r.key) :
    ¬Returned r (setSessionUser s (copied 15 r.user)) := by
  rw [r.copied_user]
  rcases hfind : s.auth.find r.user with _ | ⟨i, r'⟩
  · rw [setSessionUser_of_none hfind]
    rintro ⟨-, ⟨huser', -⟩ | ⟨-, hne, -⟩⟩
    · exact hname (huser'.symm.trans huser)
    · exact hne huser
  · obtain ⟨hauth, -⟩ := setSessionUser_of_some hfind
    have hkey : s.auth.who r.user = some r'.key := by rw [State.who, hfind, Option.map_some]
    rintro ⟨-, ⟨-, hsession⟩ | ⟨hnone, -⟩⟩
    · rw [hauth, State.session_authSelect hfind, Option.map_some, ← hkey] at hsession
      exact hwho hsession
    · have hsame := who_setSessionUser s r.user r.user
      rw [hkey, State.who, hnone] at hsame
      cases hsame

/-- **`sudo` gives the session back unless the command deletes the user's own
account.** In that case the session stays with `root`. -/
theorem sudo_restores_iff (k : Kernel W) (kdf : List UInt8 → List UInt8 → Hash) {s : Session W}
    {r : Record} (hsession : s.auth.session = some r) (huser : s.currentUser = r.user)
    (hwho : s.auth.who r.user = some r.key) (hroot : r.uid ≠ 0) {a : List UInt8} (ha : 0 ∉ a) :
    Returned r (cSudo k kdf s a) ↔ ¬∃ s' cmd rest, sudoEnter k kdf s a = (s', some (cmd, rest)) ∧
      Erases k kdf r.user (setSessionUser s' rootName) cmd rest := by
  obtain ⟨hauth, huser'⟩ := sudoEnter_keeps k kdf s a
  rw [cSudo, sudoWith]
  rcases henter : sudoEnter k kdf s a with ⟨s', _ | ⟨cmd, rest⟩⟩
  · rw [henter] at hauth huser'
    refine iff_of_true (.of_key hroot (huser'.trans huser) ?_) ?_
    · rw [hauth, hsession, Option.map_some]
    · rintro ⟨_, _, _, h, -⟩
      exact absurd (congrArg Prod.snd h) (by simp)
  rw [henter] at hauth huser'
  obtain ⟨hlen, hsub⟩ := sudoEnter_rest henter
  have hwho' : (setSessionUser s' rootName).auth.who r.user = some r.key := by
    rw [who_setSessionUser, hauth, hwho]
  have hiff : (abiDispatch k kdf (a.length + 1) (setSessionUser s' rootName) cmd rest).auth.who r.user ≠
      some r.key ↔ Erases k kdf r.user (setSessionUser s' rootName) cmd rest :=
    who_abiDispatch_iff r.user_fits.2 (Nat.lt_succ_of_lt hlen) (fun h => ha (hsub h)) hwho'
  rw [huser]
  by_cases herases : Erases k kdf r.user (setSessionUser s' rootName) cmd rest
  · refine iff_of_false ?_ fun h => h ⟨s', cmd, rest, rfl, herases⟩
    refine not_returned_setSessionUser herases.ne_root (herases.currentUser_eq ?_ _)
      (hiff.mpr herases)
    -- The switch to `root` has worked, or `userdel` would have refused.
    rcases hfind : s'.auth.find rootName with _ | ⟨i, r'⟩
    · rw [setSessionUser_of_none hfind] at herases
      exact absurd (huser'.trans huser) (herases.currentUser_ne hfind)
    · rw [(setSessionUser_of_some hfind).2]
      decide
  · refine iff_of_true (returned_setSessionUser hroot (not_not.mp (mt hiff.mp herases))) ?_
    rintro ⟨s'', cmd', rest', h, herases'⟩
    cases h
    exact herases herases'

end

/-- A kernel in which every password is eight zeros and storage is there. -/
def quietKernel : Kernel Unit where
  readSecret _ := (List.replicate 8 48, ())
  now _ := 0
  mounted _ := true
  diskCreate _ _ := (true, ())
  storeShadow _ _ := (true, ())
  persistAccounts _ _ := (true, ())
  other _ _ _ _ _ := ()

/-- The session of the administrator `carol`. -/
def carolSession : Session Unit where
  auth := (authSelect (withCarol Role.admin) carolName).1
  currentUser := carolName
  sudoCachedUid := 65535
  sudoCacheUntil := 0
  world := ()

/-- `carol` comes back from `sudo su bob`. -/
theorem sudo_restores_after_su :
    Returned (newRecord (fun _ _ => Hash.zero) carolName [] Role.admin 3)
      (cSudo quietKernel (fun _ _ => Hash.zero) carolSession (chars ['s', 'u', ' '] ++ bobName)) :=
  (sudo_restores_iff quietKernel (fun _ _ => Hash.zero) (by decide) (by decide) (by decide) (by decide)
    (by decide)).mpr (by
      rintro ⟨s', cmd, rest, henter, herases⟩
      obtain ⟨-, hcmd⟩ := Prod.mk.inj henter
      obtain ⟨rfl, rfl⟩ := Prod.mk.inj (Option.some.inj hcmd)
      obtain ⟨-, c, hmem, -, hc⟩ := herases.command
      rcases hc with rfl | rfl
      · exact absurd hmem (by decide)
      · exact absurd hmem (by decide))

/-- `carol` runs `sudo userdel carol`, and is `root` from then on. -/
theorem root_after_sudo_userdel :
    maySudo carolSession.auth = true ∧ authIsRoot carolSession.auth = false ∧
      (cSudo quietKernel (fun _ _ => Hash.zero) carolSession
        (chars ['u', 's', 'e', 'r', 'd', 'e', 'l', ' '] ++ carolName)).currentUser = rootName ∧
      authIsRoot (cSudo quietKernel (fun _ _ => Hash.zero) carolSession
        (chars ['u', 's', 'e', 'r', 'd', 'e', 'l', ' '] ++ carolName)).auth = true := by
  decide

end Shell

end OS64
