import OS64.Auth.Session

/-!
# User numbers and privileges

Two things that an account is identified by elsewhere: its user number, which
files and sessions carry, and its privileges, a role together with a set of
groups.

`defaults` takes the user number of a new account from the size of the table.
After a deletion that number can belong to the last account of the table
already, and then two accounts share it; `uids_distinct_iff` says that this is
the only way. `auth_add_role` gives an account of a role the groups that go with
the role, but `auth_set_role` does not touch the groups, and privileges are
granted by them too; `privileges_setRole_iff` says when a change of role is one of
privileges.
-/

namespace OS64.Auth

open List Text Runs Option

section

variable {kdf : List UInt8 → List UInt8 → Hash} {t : State}

/-! ### User numbers -/

/-- The user numbers of the table are distinct. -/
def UidsDistinct (t : State) : Prop := (t.records.map Record.uid).Nodup

/-- The user number `defaults` gives to a name at a place of the table. -/
def defaultUid (user : List UInt8) (index : ℕ) : UInt16 :=
  if user = rootName then 0 else if user = nobodyName then 65534 else UInt16.ofNat (1000 + index)

theorem uid_defaults (r : Record) (index : ℕ) : (defaults r index).uid = defaultUid r.user index := by
  rw [defaults, defaultUid]
  split
  · rfl
  · split
    · rfl
    · rfl

@[simp] theorem user_defaults (r : Record) (index : ℕ) : (defaults r index).user = r.user := by
  rw [defaults]
  split
  · rfl
  · split
    · rfl
    · rfl

theorem uid_newRecord (u p : List UInt8) (role : Role) (index : ℕ) :
    (newRecord kdf u p role index).uid = defaultUid (copied 15 u) index :=
  uid_defaults (Record.named u) index

/-- Every account has the user number of its place. -/
def Numbered (t : State) : Prop :=
  ∀ i r, t.records[i]? = some r → r.uid = defaultUid r.user i

variable {r : Record}

theorem uid_parseLine {line : List UInt8} {index : ℕ} (h : parseLine line index = some r) :
    r.uid = defaultUid r.user index := by
  have hdefaults : ∀ u, (defaults (Record.named u) index).uid =
      defaultUid (defaults (Record.named u) index).user index := fun u => by
    rw [uid_defaults, user_defaults]
  simp only [parseLine] at h
  split at h
  · cases h
  · split at h
    · cases h
      exact hdefaults _
    · split at h
      · simp only [parseKey] at h
        split at h
        · obtain ⟨hash, -, rfl⟩ := map_eq_some_iff.mp h
          exact hdefaults _
        · cases h
      · cases h

theorem Numbered.push (h : Numbered t) (hlen : t.records.length < 16)
    (hr : r.uid = defaultUid r.user t.records.length) : Numbered (t.push r hlen) := by
  intro i r' hr'
  change (t.records ++ [r])[i]? = some r' at hr'
  rcases lt_trichotomy i t.records.length with hi | hi | hi
  · rw [getElem?_append_left hi] at hr'
    exact h i r' hr'
  · rw [hi, getElem?_concat_length] at hr'
    cases hr'
    rw [hi]
    exact hr
  · rw [getElem?_eq_none (by rw [length_append, length_singleton]; omega)] at hr'
    cases hr'

theorem Numbered.loadLines : ∀ {lines : List (List UInt8)} {t : State}, Numbered t → Numbered (loadLines lines t).1
  | [], _, h => h
  | line :: lines, t, h => by
    rw [Auth.loadLines]
    split
    · split
      · rename_i hlen
        split
        · exact h
        · rename_i r hr
          exact Numbered.loadLines (h.push hlen (uid_parseLine hr))
      · exact h
    · exact Numbered.loadLines h

theorem records_authSelect (t : State) (u : List UInt8) : (authSelect t u).1.records = t.records := by
  rw [authSelect]
  split
  · rfl
  · rfl

theorem numbered_authLoad (t : State) (d : List UInt8) : Numbered (authLoad t d).1 := by
  have hcleared : Numbered t.cleared := by
    intro i r hr
    exact absurd hr (by simp [State.cleared])
  have hload : Numbered (loadLines (d.splitOn 10) t.cleared).1 := hcleared.loadLines
  rw [authLoad]
  split
  · rename_i heq
    rwa [heq] at hload
  · rename_i heq
    rw [heq] at hload
    intro i r hr
    rw [records_authSelect] at hr
    exact hload i r hr

theorem defaultUid_inj {u u' : List UInt8} {i j : ℕ} (hi : i < 16) (hj : j < 16)
    (h : defaultUid u i = defaultUid u' j) : u = u' ∨ i = j := by
  have hplaces : ∀ i < 16, ∀ j < 16, UInt16.ofNat (1000 + i) = UInt16.ofNat (1000 + j) → i = j := by
    decide
  have hroot : ∀ i < 16, UInt16.ofNat (1000 + i) ≠ 0 := by decide
  have hnobody : ∀ i < 16, UInt16.ofNat (1000 + i) ≠ 65534 := by decide
  rw [defaultUid, defaultUid] at h
  split at h
  · rename_i hu
    split at h
    · rename_i hu'
      exact .inl (hu.trans hu'.symm)
    · split at h
      · cases h
      · exact absurd h.symm (hroot j hj)
  · split at h
    · rename_i hu
      split at h
      · cases h
      · split at h
        · rename_i hu'
          exact .inl (hu.trans hu'.symm)
        · exact absurd h.symm (hnobody j hj)
    · split at h
      · exact absurd h (hroot i hi)
      · split at h
        · exact absurd h (hnobody i hi)
        · exact .inr (hplaces i hi j hj h)

theorem Numbered.uidsDistinct (h : Numbered t) (hnames : (t.records.map Record.user).Nodup) : UidsDistinct t := by
  rw [UidsDistinct, nodup_iff_injective_getElem]
  intro ⟨i, hi⟩ ⟨j, hj⟩ heq
  rw [length_map] at hi hj
  simp only [getElem_map] at heq
  rw [h i _ (getElem?_eq_getElem hi), h j _ (getElem?_eq_getElem hj)] at heq
  have hle := t.length_le
  refine Fin.ext ?_
  rcases defaultUid_inj (by omega) (by omega) heq with huser | hplace
  · exact State.place_inj hnames (getElem?_eq_getElem hi) (getElem?_eq_getElem hj) huser
  · exact hplace

/-- The call is one of `auth_add_role` and `auth_delete`. -/
def Op.Edits : Op → Prop
  | .addRole .. | .delete _ => True
  | _ => False

/-- A call that adds an account takes a user number that is not in use. -/
def TakesFreeUid (t : State) : Op → Prop
  | .addRole u _ role => t.records.length < 16 → t.find u = none → role.code ≤ Role.guest.code →
    defaultUid (copied 15 u) t.records.length ∉ t.records.map Record.uid
  | _ => True

/-- **One call** keeps the user numbers distinct exactly if it takes a free one. -/
theorem uidsDistinct_step_iff (h : UidsDistinct t) {op : Op} (hop : op.Edits) :
    UidsDistinct (step kdf t op) ↔ TakesFreeUid t op := by
  cases op with
  | addRole u p role =>
    rw [step, TakesFreeUid, authAddRole]
    split
    · rename_i hlen
      split
      · rename_i hno
        refine ⟨fun _ _ hnone hrole => ?_, fun _ => h⟩
        rcases hno with hsome | hcode
        · rw [hnone] at hsome
          exact absurd hsome Bool.false_ne_true
        · exact absurd hrole (UInt32.not_le.mpr hcode)
      · rename_i hno
        obtain ⟨hsome, hrole⟩ := not_or.mp hno
        simp only [forall_const, hlen, Option.not_isSome_iff_eq_none.mp hsome, UInt32.not_lt.mp hrole]
        rw [UidsDistinct, State.push, map_append, map_singleton, uid_newRecord, nodup_append]
        constructor
        · rintro ⟨-, -, hdisj⟩ hmem
          exact hdisj _ hmem _ (mem_singleton_self _) rfl
        · intro hfree
          refine ⟨h, nodup_singleton _, fun x hx y hy heq => hfree ?_⟩
          rw [← mem_singleton.mp hy, ← heq]
          exact hx
    · rename_i hlen
      exact ⟨fun _ hno => absurd hno hlen, fun _ => h⟩
  | delete u =>
    refine ⟨fun _ => trivial, fun _ => ?_⟩
    rw [step, authDelete]
    split
    · exact h
    · split
      · exact h
      · exact Nodup.sublist (Sublist.map Record.uid (eraseIdx_sublist ..)) h
  | setPassword u p => exact absurd hop not_false
  | setRole u role => exact absurd hop not_false
  | setGroups u g => exact absurd hop not_false
  | setUmask m => exact absurd hop not_false
  | select u => exact absurd hop not_false
  | selectUid uid => exact absurd hop not_false
  | load d => exact absurd hop not_false
  | loadAccounts d => exact absurd hop not_false

/-- **User numbers stay distinct** exactly in the runs in which every new account
takes a free one. -/
theorem uids_distinct_iff (kdf : List UInt8 → List UInt8 → Hash) (t : State) (d : List UInt8)
    (hnames : ((authLoad t d).1.records.map Record.user).Nodup) (ops : List Op)
    (hops : ∀ op ∈ ops, op.Edits) :
    (∀ before after, ops = before ++ after → UidsDistinct (run kdf (authLoad t d).1 before)) ↔
      Throughout (fun before op => TakesFreeUid (run kdf (authLoad t d).1 before) op) ops := by
  exact forall_states_iff (I := UidsDistinct) (C := fun t' op => TakesFreeUid t' op)
    ((numbered_authLoad t d).uidsDistinct hnames) fun t' op hop h =>
      uidsDistinct_step_iff h (hops op hop)

end

/-- `"carol"`. -/
def carolName : List UInt8 := chars ['c', 'a', 'r', 'o', 'l']

/-- Adding an account to the three loaded ones gives it a number of its own. -/
theorem uids_distinct_of_add :
    UidsDistinct (run (fun _ _ => Hash.zero) (authLoad State.initial threeAccounts).1
      [.addRole carolName [] Role.standard]) :=
  (uids_distinct_iff (fun _ _ => Hash.zero) State.initial threeAccounts (by decide)
    [.addRole carolName [] Role.standard] (by simp [Op.Edits])).mpr (by
      rintro before op after hsplit
      obtain ⟨rfl, hop⟩ := append_eq_singleton_iff.mp hsplit.symm |>.resolve_right (by simp)
      obtain ⟨rfl, -⟩ := cons.inj hop
      rw [TakesFreeUid]
      decide) _ [] rfl

/-- Deleting `alice` and adding `carol` makes two accounts with number 1002. -/
theorem uids_shared_after_delete_add :
    (run (fun _ _ => Hash.zero) (authLoad State.initial threeAccounts).1
      [.delete aliceName, .addRole carolName [] Role.standard]).records.map
        (fun r => (r.user, r.uid)) = [(rootName, 0), (bobName, 1002), (carolName, 1002)] := by
  decide

/-! ### Privileges -/

theorem eq_of_and_ne_zero {a b : UInt32} (h : ∀ g, (a &&& g ≠ 0) ↔ (b &&& g ≠ 0)) : a = b := by
  have hsub : ∀ x y : UInt32, x &&& ~~~y = 0 → ∀ i, x.toBitVec.getLsbD i = true → y.toBitVec.getLsbD i = true := by
    intro x y hxy i hi
    have hbit := congrArg (fun w : UInt32 => w.toBitVec.getLsbD i) hxy
    have hlt : i < 32 := BitVec.lt_of_getLsbD hi
    simp only [UInt32.toBitVec_and, UInt32.toBitVec_not, BitVec.getLsbD_and, BitVec.getLsbD_not, hi,
      hlt, decide_true, Bool.true_and] at hbit
    simpa using hbit
  have hself : ∀ x : UInt32, x &&& ~~~x = 0 := fun x => by
    rw [← UInt32.toBitVec_inj, UInt32.toBitVec_and, UInt32.toBitVec_not, BitVec.and_not_self]
    rfl
  have hab : a &&& ~~~b = 0 := not_not.mp fun hne => (h (~~~b)).mp hne (hself b)
  have hba : b &&& ~~~a = 0 := not_not.mp fun hne => (h (~~~a)).mpr hne (hself a)
  rw [← UInt32.toBitVec_inj]
  refine BitVec.eq_of_getLsbD_eq fun i _ => ?_
  rw [Bool.eq_iff_iff]
  exact ⟨hsub a b hab i, hsub b a hba i⟩

variable {kdf : List UInt8 → List UInt8 → Hash} {u p : List UInt8} {role : Role}

theorem groups_newRecord {index : ℕ} (hroot : copied 15 u ≠ rootName) (hnobody : copied 15 u ≠ nobodyName) :
    (newRecord kdf u p role index).groups = roleGroups role groupUsers := by
  have hgroups : (defaults (Record.named u) index).groups = groupUsers := by
    rw [defaults, if_neg (show (Record.named u).user ≠ rootName from hroot),
      if_neg (show (Record.named u).user ≠ nobodyName from hnobody)]
  change roleGroups role (defaults (Record.named u) index).groups = _
  rw [hgroups]

theorem authAddRole_eq {t : State} (hok : (authAddRole kdf t u p role).2 = true) : ∃ hlen, t.find u = none ∧
      (authAddRole kdf t u p role).1 = t.push (newRecord kdf u p role t.records.length) hlen := by
  rw [authAddRole] at hok ⊢
  split at hok
  · rename_i hlen
    split at hok
    · cases hok
    · rename_i hno
      rw [dif_pos hlen, if_neg hno]
      rw [not_or, Bool.not_eq_true, isSome_eq_false_iff, isNone_iff_eq_none] at hno
      exact ⟨hlen, hno.1, rfl⟩
  · cases hok

/-- **A change of role is one of privileges** exactly if the account has the
groups of the new role already: in a session of the account, `auth_is_admin` and
`auth_has_group` then answer as for an account created with that role. -/
theorem privileges_setRole_iff (kdf : List UInt8 → List UInt8 → Hash) (t : State) (u : List UInt8)
    (role : Role) (i : ℕ) (r : Record) (hfind : t.find u = some (i, r))
    (hok : (authSetRole t u role).2 = true) (t' : State) (v p : List UInt8)
    (hnew : (authAddRole kdf t' v p role).2 = true) (hlen : (cstr v).length ≤ 15)
    (hroot : cstr v ≠ rootName) (hnobody : cstr v ≠ nobodyName) :
    (authIsAdmin (authSelect (authSetRole t u role).1 u).1 =
        authIsAdmin (authSelect (authAddRole kdf t' v p role).1 v).1 ∧
      ∀ g, authHasGroup (authSelect (authSetRole t u role).1 u).1 g =
        authHasGroup (authSelect (authAddRole kdf t' v p role).1 v).1 g) ↔
    r.groups = roleGroups role groupUsers := by
  -- the session of the account whose role has changed
  have huid : ¬(r.uid = 0 ∨ role = Role.root) := by
    intro hno
    rw [authSetRole, hfind] at hok
    simp only [if_pos hno] at hok
    cases hok
  have hset : (authSetRole t u role).1 = t.put i { r with role := role } := by
    rw [authSetRole, hfind]
    simp only [if_neg huid]
  have hchanged : (authSelect (authSetRole t u role).1 u).1.session = some { r with role := role } := by
    rw [hset]
    exact State.session_authSelect (State.find_put hfind rfl)
  -- the session of the new account
  have hcopied : copied 15 v = cstr v := take_of_length_le hlen
  obtain ⟨hroom, hno, hpush⟩ := authAddRole_eq hnew
  have huser : (newRecord kdf v p role t'.records.length).user = cstr v :=
    (user_defaults (Record.named v) _).trans hcopied
  have hfresh : (authSelect (authAddRole kdf t' v p role).1 v).1.session =
      some (newRecord kdf v p role t'.records.length) := by
    rw [hpush]
    exact State.session_authSelect (State.find_push hroom hno huser.symm)
  have hgroups : (newRecord kdf v p role t'.records.length).groups = roleGroups role groupUsers :=
    groups_newRecord (by rwa [hcopied]) (by rwa [hcopied])
  have hfreshUid : (newRecord kdf v p role t'.records.length).uid ≠ 0 := by
    have hplaces : ∀ i < 16, UInt16.ofNat (1000 + i) ≠ 0 := by decide
    rw [uid_newRecord, hcopied, defaultUid, if_neg hroot, if_neg hnobody]
    exact hplaces _ hroom
  simp only [authIsAdmin, authIsRoot, authHasGroup, authGetuid, authGetgroups, authCurrentRole,
    hchanged, hfresh, map_some, getD_some, hgroups,
    show (newRecord kdf v p role t'.records.length).role = role from rfl]
  constructor
  · rintro ⟨-, hmasks⟩
    exact eq_of_and_ne_zero fun g => decide_eq_decide.mp (hmasks g)
  · intro heq
    rw [heq]
    refine ⟨?_, fun _ => rfl⟩
    rw [decide_eq_false (fun h => huid (.inl h)), decide_eq_false hfreshUid]

/-- The three accounts with one more of a role. -/
def withCarol (role : Role) : State :=
  (authAddRole (fun _ _ => Hash.zero) (authLoad State.initial threeAccounts).1 carolName [] role).1

/-- An administrator who is given the groups of a standard user by `auth_set_groups`, and then
the role, has the privileges of a new one. -/
theorem privileges_setRole_regrouped :
    let regrouped := (authSetGroups (withCarol Role.admin) carolName (roleGroups Role.standard groupUsers)).1
    authIsAdmin (authSelect (withCarol Role.admin) carolName).1 = true ∧
      authIsAdmin (authSelect (authSetRole regrouped carolName Role.standard).1 carolName).1 =
        authIsAdmin (authSelect (withCarol Role.standard) carolName).1 := by
  intro regrouped
  refine ⟨by decide, ((privileges_setRole_iff (fun _ _ => Hash.zero) regrouped carolName Role.standard 3
    { newRecord (fun _ _ => Hash.zero) carolName [] Role.admin 3 with
      groups := roleGroups Role.standard groupUsers ||| groupUsers } (by decide) (by decide)
    (authLoad State.initial threeAccounts).1 carolName [] (by decide) (by decide) (by decide)
    (by decide)).mpr (by decide)).1⟩

/-- An administrator who is made a standard user is still an administrator, and
still in the group that may use `sudo`. -/
theorem admin_after_setRole :
    (authSetRole (withCarol Role.admin) carolName Role.standard).2 = true ∧
      authCurrentRole (authSelect (authSetRole (withCarol Role.admin) carolName
        Role.standard).1 carolName).1 = Role.standard ∧
      authIsAdmin (authSelect (authSetRole (withCarol Role.admin) carolName
        Role.standard).1 carolName).1 = true ∧
      authHasGroup (authSelect (authSetRole (withCarol Role.admin) carolName
        Role.standard).1 carolName).1 groupWheel = true ∧
      authIsAdmin (authSelect (withCarol Role.standard) carolName).1 = false ∧
      authHasGroup (authSelect (withCarol Role.standard) carolName).1 groupWheel = false := by
  decide

end OS64.Auth
