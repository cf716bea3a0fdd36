import Mathlib

/-! Registered accounts and what changes them: administration, service tokens and sign-ins. -/

namespace EtlCraft

namespace Accounts

inductive AccountKind
  | user
  | service
  deriving DecidableEq, Repr

inductive ApiRole
  | viewer
  | operator
  | developer
  | admin
  | agent
  deriving DecidableEq, Repr

structure Account where
  accountId : Nat
  name : String
  kind : AccountKind
  role : ApiRole
  passwordHash : Option String := none
  oidcSubject : Option String := none
  activeFlag : Bool := true
  failedSignins : Nat := 0
  lockedDate : Option Int := none
  deriving DecidableEq, Repr

/-- What `account_admin_unlocked` counts: any active account with the admin role that is not
locked. -/
def Account.unlockedAdmin (account : Account) : Bool :=
  account.role = .admin && account.activeFlag && account.lockedDate.isNone

def unlockedAdmins (accounts : List Account) : Nat :=
  accounts.countP Account.unlockedAdmin

def hasAdmin (accounts : List Account) : Bool :=
  unlockedAdmins accounts ≠ 0

def findAccount (accounts : List Account) (name : String) : Option Account :=
  accounts.find? fun account => account.name = name

inductive AccountError
  | agentRole
  | serviceCredential (name : String)
  | userCredential (name : String)
  | emptySubject (name : String)
  | recoveryRole
  | emptyPassword
  | adminExists
  | duplicate (name : String)
  | lastAdmin (name : String)
  | notFound (name : String)
  | tokenRole (name : String) (account : Account) (role : ApiRole)
  | signInRefused
  | locked
  deriving DecidableEq, Repr

structure AccountAdd where
  name : String
  role : ApiRole
  kind : AccountKind := .user
  password : Option String := none
  oidcSubject : Option String := none
  recovery : Bool := false
  deriving DecidableEq, Repr

def AccountAdd.check (request : AccountAdd) : Option AccountError :=
  if request.role = .agent then some .agentRole
  else if request.kind = .service ∧ (request.password.isSome ∨
      request.oidcSubject.any (· ≠ "")) then some (.serviceCredential request.name)
  else if request.kind = .user ∧ ¬(request.password.any (· ≠ "") ∨
      request.oidcSubject.any (· ≠ "")) then some (.userCredential request.name)
  else if request.oidcSubject.any (fun subject => subject.trimAscii.isEmpty) then
    some (.emptySubject request.name)
  else if request.recovery ∧ (request.role ≠ .admin ∨ request.kind ≠ .user) then
    some .recoveryRole
  else none

structure Done where
  accounts : List Account
  error : Option AccountError := none
  deriving DecidableEq, Repr

def insertAccount (accounts : List Account) (name : String) (kind : AccountKind) (role : ApiRole)
    (passwordHash oidcSubject : Option String) : Option (List Account) :=
  if ∃ account ∈ accounts, account.name = name ∨
      (oidcSubject.isSome ∧ account.oidcSubject = oidcSubject) then none
  else
    some (accounts ++
      [{ accountId := accounts.length, name, kind, role, passwordHash, oidcSubject }])

def addAccount (accounts : List Account) (request : AccountAdd) (hashed : String) : Done :=
  match request.check with
  | some error => ⟨accounts, some error⟩
  | none =>
      if request.recovery ∧ hasAdmin accounts then ⟨accounts, some .adminExists⟩
      else
        match insertAccount accounts request.name request.kind request.role
            (request.password.map fun _ => hashed) request.oidcSubject with
        | some added => ⟨added, none⟩
        | none => ⟨accounts, some (.duplicate request.name)⟩

/-- The update of one account by name, where `chosen` is the rest of its condition. -/
def updateAccount (accounts : List Account) (name : String) (chosen : Account → Bool)
    (change : Account → Account) : Done :=
  if accounts.any fun account => account.name = name && chosen account then
    ⟨accounts.map fun account =>
      if account.name = name && chosen account then change account else account, none⟩
  else ⟨accounts, some (.notFound name)⟩

/-- Whether the account is the last one that the guard of `_update` counts. -/
def lastAdmin (accounts : List Account) (name : String) : Bool :=
  (findAccount accounts name).any fun target =>
    target.unlockedAdmin && unlockedAdmins accounts ≤ 1

def setRole (accounts : List Account) (name : String) (role : ApiRole) : Done :=
  if role = .agent then ⟨accounts, some .agentRole⟩
  else if role ≠ .admin ∧ lastAdmin accounts name then ⟨accounts, some (.lastAdmin name)⟩
  else updateAccount accounts name (fun _ => true) fun account => { account with role }

def disable (accounts : List Account) (name : String) : Done :=
  if lastAdmin accounts name then ⟨accounts, some (.lastAdmin name)⟩
  else updateAccount accounts name (fun _ => true) fun account =>
    { account with activeFlag := false }

def Account.localUser (account : Account) : Bool :=
  account.kind = .user && account.oidcSubject.isNone

def unlock (accounts : List Account) (name : String) : Done :=
  updateAccount accounts name Account.localUser fun account =>
    { account with failedSignins := 0, lockedDate := none }

def resetPassword (accounts : List Account) (name password hashed : String) : Done :=
  if password = "" then ⟨accounts, some .emptyPassword⟩
  else
    updateAccount accounts name Account.localUser fun account =>
      { account with passwordHash := some hashed }

def withService (accounts : List Account) (name : String) (role : ApiRole) : List Account :=
  if (findAccount accounts name).isSome then accounts
  else accounts ++ [{ accountId := accounts.length, name, kind := .service, role }]

def accountRole (tokenRole : ApiRole) : ApiRole :=
  if tokenRole = .agent then .viewer else tokenRole

def createToken (accounts : List Account) (name : String) (tokenRole : ApiRole) : Done :=
  match findAccount (withService accounts name (accountRole tokenRole)) name with
  | some account =>
      if account.activeFlag = false ∨ account.role ≠ accountRole tokenRole ∨
          account.kind ≠ .service then
        ⟨accounts, some (.tokenRole name account (accountRole tokenRole))⟩
      else ⟨withService accounts name (accountRole tokenRole), none⟩
  | none => ⟨accounts, none⟩

/-- The proof a sign-in brings: a password, verified against the stored hash or not, or the
subject of an identity provider. -/
inductive Proof
  | password (verified : Bool)
  | subject (subject : String)
  deriving DecidableEq, Repr

def proven (seen : Option Account) (proof : Proof) : Bool :=
  seen.any fun account => account.kind = .user && account.activeFlag &&
    match proof with
    | .password verified => account.passwordHash.any (· ≠ "") && verified
    | .subject subject => account.oidcSubject = some subject

def Proof.isPassword : Proof → Bool
  | .password _ => true
  | .subject _ => false

/-- Whether the account is as it was when the proof was checked, in the fields that matter. -/
def unchanged (seen : Option Account) (current : Account) : Bool :=
  seen.any fun seen =>
    seen.accountId = current.accountId && seen.kind = current.kind && seen.role = current.role &&
      seen.passwordHash = current.passwordHash && seen.oidcSubject = current.oidcSubject &&
      seen.activeFlag = current.activeFlag

def updateById (accounts : List Account) (accountId : Nat) (change : Account → Account) :
    List Account :=
  accounts.map fun account => if account.accountId = accountId then change account else account

def failedPassword (accounts : List Account) (row : Account) (lockoutAfter : Nat) (now : Int) :
    List Account :=
  if row.kind ≠ .user ∨ row.oidcSubject.any (· ≠ "") ∨ row.lockedDate.isSome ∨
      row.activeFlag = false then accounts
  else
    let count := row.failedSignins + 1
    let reached := lockoutAfter ≠ 0 ∧ lockoutAfter ≤ count
    let kept := row.role = .admin ∧ unlockedAdmins accounts ≤ 1
    updateById accounts row.accountId fun account =>
      { account with failedSignins := count, lockedDate := if reached ∧ ¬kept then some now else none }

/-- A sign-in under the lock; `seen` is the row its proof was checked against before. -/
def signIn (accounts : List Account) (name : String) (seen : Option Account) (proof : Proof)
    (lockoutAfter : Nat) (now : Int) : Done :=
  match findAccount accounts name with
  | none => ⟨accounts, some .signInRefused⟩
  | some current =>
      if proven seen proof = false ∨ unchanged seen current = false then
        if unchanged seen current ∧ proof.isPassword then
          ⟨failedPassword accounts current lockoutAfter now, some .signInRefused⟩
        else ⟨accounts, some .signInRefused⟩
      else if proof.isPassword ∧ current.lockedDate.isSome then ⟨accounts, some .locked⟩
      else
        ⟨updateById accounts current.accountId fun account => { account with failedSignins := 0 },
          none⟩

inductive Operation
  | addAccount (request : AccountAdd) (hashed : String)
  | setRole (name : String) (role : ApiRole)
  | disable (name : String)
  | unlock (name : String)
  | resetPassword (name password hashed : String)
  | createToken (name : String) (role : ApiRole)
  | signIn (name : String) (seen : Option Account) (proof : Proof) (lockoutAfter : Nat) (now : Int)
  deriving DecidableEq, Repr

def perform (accounts : List Account) : Operation → Done
  | .addAccount request hashed => addAccount accounts request hashed
  | .setRole name role => setRole accounts name role
  | .disable name => disable accounts name
  | .unlock name => unlock accounts name
  | .resetPassword name password hashed => resetPassword accounts name password hashed
  | .createToken name role => createToken accounts name role
  | .signIn name seen proof lockoutAfter now =>
      signIn accounts name seen proof lockoutAfter now

def run (accounts : List Account) (operations : List Operation) : List Account :=
  operations.foldl (fun accounts operation => (perform accounts operation).accounts) accounts

end Accounts

end EtlCraft
