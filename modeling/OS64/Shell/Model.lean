import OS64.Auth.Session

/-!
# Sessions of the shell

The part of `kernel/core/kernel.c` that decides whose session it is: the commands
that change accounts or switch users, `abi_dispatch`, and `c_sudo`, which runs a
command in the session of `root` and goes back. The identity is kept twice, as a
name in the shell (`current_user`) and as an index in the account table;
`set_session_user` changes both or neither.

The rest of the kernel is a parameter, `Kernel W`: what is typed at a password
prompt, the clock, what the storage answers, and what all other commands do. They
may do anything to the rest of the state, a `W`, but do not touch accounts and
sessions. The display, the status of the last command and the log are part of
that rest and left out here.

`sudo` can be nested, each time with a shorter argument, so that the recursion of
`abi_dispatch` is bounded by the length of the argument.
-/

namespace OS64.Shell

open Text Auth

/-! ### Strings -/

/-- `while (*a == ' ') a++`. -/
def skipSpaces (a : List UInt8) : List UInt8 := a.dropWhile (· == 32)

/-- The beginning of a word, at most `n` characters of it. -/
def word (n : ℕ) (a : List UInt8) : List UInt8 := (a.takeWhile (· != 32)).take n

/-- `starts`. -/
def starts (s p : List UInt8) : Bool := p.isPrefixOf s

/-! ### State -/

/-- The variables that make up a session. -/
structure Session (W : Type) where
  auth : Auth.State
  currentUser : List UInt8
  sudoCachedUid : UInt16
  sudoCacheUntil : ℕ
  world : W

/-- The rest of the kernel: prompts, clock, storage and the other commands. -/
structure Kernel (W : Type) where
  readSecret : W → List UInt8 × W
  now : W → ℕ
  mounted : W → Bool
  diskCreate : List UInt8 → W → Bool × W
  storeShadow : List UInt8 → W → Bool × W
  persistAccounts : Auth.State → W → Bool × W
  other : List UInt8 → List UInt8 → Auth.State → List UInt8 → W → W

section

variable {W : Type} (k : Kernel W)

/-- `set_session_user`. -/
def setSessionUser (s : Session W) (user : List UInt8) : Session W :=
  match authSelect s.auth user with
  | (_, false) => s
  | (auth, true) => { s with auth := auth, currentUser := copied 15 user }

/-! ### The commands on accounts -/

/-- `parse_role`. -/
def parseRole (s : List UInt8) : Option Role :=
  if s = chars ['a', 'd', 'm', 'i', 'n', 'i', 's', 't', 'r', 'a', 't', 'o', 'r'] ∨
      s = chars ['a', 'd', 'm', 'i', 'n'] then some Role.admin
  else if s = chars ['p', 'o', 'w', 'e', 'r'] then some Role.power
  else if s = chars ['s', 't', 'a', 'n', 'd', 'a', 'r', 'd'] ∨ s = chars ['u', 's', 'e', 'r'] then
    some Role.standard
  else if s = chars ['g', 'u', 'e', 's', 't'] then some Role.guest
  else none

/-- The characters of a user name. -/
def isNameChar (c : UInt8) : Bool := (97 ≤ c ∧ c ≤ 122) ∨ (48 ≤ c ∧ c ≤ 57) ∨ c = 95

/-- `valid_username`. -/
def validUsername (u : List UInt8) : Bool := u.all isNameChar ∧ u.length ≤ 15 ∧ 3 ≤ u.length

/-- `"-r "`. -/
def roleOption : List UInt8 := chars ['-', 'r', ' ']

/-- The part of `c_useradd` that makes the account and keeps it. -/
def createAccount (kdf : List UInt8 → List UInt8 → Hash) (s : Session W) (user p : List UInt8)
    (role : Role) : Session W :=
  match authAddRole kdf s.auth user p role with
  | (_, false) => s
  | (auth, true) =>
    match k.diskCreate user s.world with
    | (false, world) => { s with auth := auth, world := world }
    | (true, world) => { s with auth := auth, world := (k.persistAccounts auth world).2 }

/-- `c_useradd` behind the role. -/
def useraddNamed (kdf : List UInt8 → List UInt8 → Hash) (s : Session W) (a : List UInt8) (role : Role) :
    Session W :=
  let user := word 15 a
  if validUsername user then
    match k.readSecret s.world with
    | (p1, world) =>
      if p1.length < 8 then { s with world := world }
      else
        match k.readSecret world with
        | (p2, world) =>
          if p1 = p2 then createAccount k kdf { s with world := world } user p1 role
          else { s with world := world }
  else s

/-- `c_useradd`. -/
def cUseradd (kdf : List UInt8 → List UInt8 → Hash) (s : Session W) (a : List UInt8) : Session W :=
  if authIsAdmin s.auth then
    let a := skipSpaces a
    if starts a roleOption then
      let a := a.drop 3
      match parseRole (word 19 a) with
      | none => s
      | some role =>
        if role = Role.admin ∧ authIsRoot s.auth = false then s
        else useraddNamed k kdf s (skipSpaces (a.drop (word 19 a).length)) role
    else useraddNamed k kdf s a Role.standard
  else s

/-- `c_mkuser`. -/
def cMkuser (kdf : List UInt8 → List UInt8 → Hash) (s : Session W) (a : List UInt8) : Session W :=
  let user := word 15 (skipSpaces a)
  if user.all isNameChar ∧ 3 ≤ user.length ∧ k.mounted s.world then
    match k.readSecret s.world with
    | (p, world) =>
      if p.length < 8 then { s with world := world }
      else
        match authAddRole kdf s.auth user p Role.standard with
        | (_, false) => { s with world := world }
        | (auth, true) =>
          match authExportShadow auth 4096 with
          | none => { s with auth := auth, world := world }
          | some shadow =>
            match k.storeShadow shadow world with
            | (false, world) => { s with auth := auth, world := world }
            | (true, world) => { s with auth := auth, world := (k.diskCreate user world).2 }
  else s

/-- `c_userdel`. -/
def cUserdel (s : Session W) (a : List UInt8) : Session W :=
  if authIsAdmin s.auth then
    let a := skipSpaces a
    if a = [] ∨ a = rootName ∨ a = s.currentUser then s
    else
      match authDelete s.auth a with
      | (_, false) => s
      | (auth, true) => { s with auth := auth, world := (k.persistAccounts auth s.world).2 }
  else s

/-- `c_usermod`. -/
def cUsermod (s : Session W) (a : List UInt8) : Session W :=
  if authIsAdmin s.auth then
    let a := skipSpaces a
    if starts a roleOption then
      let a := skipSpaces (a.drop 3)
      let user := skipSpaces (a.dropWhile (· != 32))
      if word 19 a = [] ∨ user = [] then s
      else
        match parseRole (word 19 a) with
        | none => s
        | some role =>
          if role = Role.admin ∧ authIsRoot s.auth = false then s
          else
            match authSetRole s.auth user role with
            | (_, false) => s
            | (auth, true) => { s with auth := auth, world := (k.persistAccounts auth s.world).2 }
    else s
  else s

/-- `c_passwd` behind the question for the old password. -/
def passwdNew (kdf : List UInt8 → List UInt8 → Hash) (s : Session W) (user : List UInt8) : Session W :=
  match k.readSecret s.world with
  | (p1, world) =>
    if p1.length < 8 then { s with world := world }
    else
      match k.readSecret world with
      | (p2, world) =>
        if p1 = p2 then
          match authSetPassword kdf s.auth user p1 with
          | (_, false) => { s with world := world }
          | (auth, true) => { s with auth := auth, world := (k.persistAccounts auth world).2 }
        else { s with world := world }

/-- `c_passwd`. -/
def cPasswd (kdf : List UInt8 → List UInt8 → Hash) (s : Session W) (a : List UInt8) : Session W :=
  let a := skipSpaces a
  let user := if a = [] then s.currentUser else a
  if user ≠ s.currentUser ∧ authIsAdmin s.auth = false then s
  else if authIsRoot s.auth = false ∧ user = s.currentUser then
    match k.readSecret s.world with
    | (old, world) =>
      if authCheck kdf s.auth user old then passwdNew k kdf { s with world := world } user
      else { s with world := world }
  else passwdNew k kdf s user

/-- `octal_mode`. -/
def octalMode (a : List UInt8) : Option UInt16 :=
  let digits := (a.takeWhile fun c => 48 ≤ c ∧ c ≤ 55).take 4
  let v := digits.foldl (fun v c => v * 8 + (c.toNat - 48)) 0
  if digits.length = a.length ∧ digits ≠ [] ∧ v ≤ 0o777 then some (UInt16.ofNat v) else none

/-- `c_umask`. -/
def cUmask (s : Session W) (a : List UInt8) : Session W :=
  match octalMode (skipSpaces a) with
  | none => s
  | some m => { s with auth := authSetUmask s.auth m }

/-! ### The commands on sessions -/

/-- `c_su`, and `c_login`. -/
def cSu (kdf : List UInt8 → List UInt8 → Hash) (s : Session W) (a : List UInt8) : Session W :=
  let user := word 15 (skipSpaces a)
  if user = [] ∨ authNologin s.auth user then s
  else if authIsRoot s.auth then setSessionUser s user
  else
    match k.readSecret s.world with
    | (pass, world) =>
      if authCheck kdf s.auth user pass then setSessionUser { s with world := world } user
      else { s with world := world }

/-- `c_logout`. -/
def cLogout (s : Session W) : Session W := setSessionUser s nobodyName

/-- The part of `c_sudo` that asks for the password: whether it goes on. -/
def sudoAuthenticate (kdf : List UInt8 → List UInt8 → Hash) (s : Session W) : Session W × Bool :=
  let uid := authGetuid s.auth
  let now := k.now s.world
  if authIsRoot s.auth = false ∧ (s.sudoCachedUid ≠ uid ∨ now ≥ s.sudoCacheUntil) then
    match k.readSecret s.world with
    | (pass, world) =>
      if authCheck kdf s.auth (copied 15 s.currentUser) pass then
        ({ s with
            sudoCachedUid := uid
            sudoCacheUntil := (now + 300000000000) % 2 ^ 64
            world := world }, true)
      else ({ s with world := world }, false)
  else (s, true)

/-- The user may use `sudo`. -/
def maySudo (auth : Auth.State) : Bool :=
  authIsRoot auth || authIsAdmin auth || authHasGroup auth groupWheel

/-- `c_sudo` up to the switch to `root`: the command and its argument, if it gets
that far. -/
def sudoEnter (kdf : List UInt8 → List UInt8 → Hash) (s : Session W) (a : List UInt8) :
    Session W × Option (List UInt8 × List UInt8) :=
  let a := skipSpaces a
  if a = [] ∨ maySudo s.auth = false then (s, none)
  else
    match sudoAuthenticate k kdf s with
    | (s, false) => (s, none)
    | (s, true) => (s, some (word 15 a, skipSpaces (a.drop (word 15 a).length)))

/-- `c_sudo`, where `dispatch` runs the command. -/
def sudoWith (kdf : List UInt8 → List UInt8 → Hash)
    (dispatch : Session W → List UInt8 → List UInt8 → Session W) (s : Session W) (a : List UInt8) :
    Session W :=
  match sudoEnter k kdf s a with
  | (s, none) => s
  | (s', some (cmd, args)) =>
    setSessionUser (dispatch (setSessionUser s' rootName) cmd args) (copied 15 s.currentUser)

/-! ### Dispatch -/

/-- The commands that touch accounts and sessions. -/
inductive Command where
  | useradd | mkuser | userdel | usermod | passwd | umask | su | login | logout | sudo
  deriving DecidableEq

/-- The rows of the table of commands that touch accounts and sessions. -/
def commands : List (List UInt8 × Command) :=
  [(chars ['u', 's', 'e', 'r', 'a', 'd', 'd'], .useradd), (chars ['m', 'k', 'u', 's', 'e', 'r'], .mkuser),
    (chars ['u', 's', 'e', 'r', 'd', 'e', 'l'], .userdel),
    (chars ['u', 's', 'e', 'r', 'm', 'o', 'd'], .usermod), (chars ['p', 'a', 's', 's', 'w', 'd'], .passwd),
    (chars ['u', 'm', 'a', 's', 'k'], .umask), (chars ['s', 'u'], .su),
    (chars ['l', 'o', 'g', 'i', 'n'], .login), (chars ['l', 'o', 'g', 'o', 'u', 't'], .logout),
    (chars ['s', 'u', 'd', 'o'], .sudo)]

/-- `command_authorized` for these commands. -/
def commandAuthorized (auth : Auth.State) : Command → Bool
  | .useradd | .mkuser | .userdel | .usermod => authIsAdmin auth
  | _ => true

/-- The argument asks for help or for the version, and the command is not run. -/
def asksHelp (args : List UInt8) : Bool :=
  let a := skipSpaces args
  a = chars ['-', 'h'] ∨ a = chars ['-', '-', 'h', 'e', 'l', 'p'] ∨
    a = chars ['-', '-', 'v', 'e', 'r', 's', 'i', 'o', 'n']

/-- One of these commands. -/
def runCommand (kdf : List UInt8 → List UInt8 → Hash)
    (dispatch : Session W → List UInt8 → List UInt8 → Session W) (s : Session W) (args : List UInt8) :
    Command → Session W
  | .useradd => cUseradd k kdf s args
  | .mkuser => cMkuser k kdf s args
  | .userdel => cUserdel k s args
  | .usermod => cUsermod k s args
  | .passwd => cPasswd k kdf s args
  | .umask => cUmask s args
  | .su => cSu k kdf s args
  | .login => cSu k kdf s args
  | .logout => cLogout s
  | .sudo => sudoWith k kdf dispatch s args

/-- `abi_dispatch`. -/
def abiDispatch (kdf : List UInt8 → List UInt8 → Hash) : ℕ → Session W → List UInt8 → List UInt8 → Session W
  | 0, s, _, _ => s
  | fuel + 1, s, name, args =>
    match commands.find? (fun row => row.1 = name) with
    | none => { s with world := k.other name args s.auth s.currentUser s.world }
    | some (_, command) =>
      if commandAuthorized s.auth command ∧ asksHelp args = false then
        runCommand k kdf (abiDispatch kdf fuel) s args command
      else s

/-- `c_sudo`. -/
def cSudo (kdf : List UInt8 → List UInt8 → Hash) (s : Session W) (a : List UInt8) : Session W :=
  sudoWith k kdf (abiDispatch k kdf (a.length + 1)) s a

end

end OS64.Shell
