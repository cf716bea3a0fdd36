import EtlCraft.AccountAdmins
import EtlCraft.Runs

/-! Sessions: refresh tokens, the access tokens renewed from them and what ends them, any number of
clients interleaved. -/

namespace EtlCraft

namespace Sessions

open Accounts

inductive TokenKind
  | access
  | refresh
  | service
  deriving DecidableEq, Repr

/-- A row of the tokens; `secret` is the token its digest is of, instants in microseconds. -/
structure Token where
  tokenId : Nat
  secret : Nat
  accountId : Nat
  tokenKind : TokenKind
  createdAt : Int
  expiresAt : Option Int
  refreshTokenId : Option Nat := none
  ssoGroupIds : List Nat := []
  projectId : Option Nat := none
  lastUsedAt : Option Int := none
  revokedAt : Option Int := none
  activeFlag : Bool := true
  deriving DecidableEq, Repr

/-- A renewal between its check and its insert: what it read of its refresh token. -/
structure Renewal where
  tokenId : Nat
  name : String
  expiresAt : Int
  ssoGroupIds : List Nat
  deriving DecidableEq, Repr

/-- The stored rows, the renewals under way, and the refresh tokens whose session has ended. -/
structure State where
  accounts : List Account := []
  tokens : List Token := []
  renewals : List Renewal := []
  ended : List Nat := []
  deriving DecidableEq, Repr

structure Config where
  sessionSpan : Int
  refreshSpan : Int
  idleSpan : Int
  deriving DecidableEq, Repr

def accessLifetime : Int := 3600000000

def accountOf (state : State) (token : Token) : Option Account :=
  state.accounts.find? fun account => account.accountId = token.accountId

def findRow (state : State) (secret : Nat) : Option (Token × Account) := do
  let token ← state.tokens.find? fun token => token.secret = secret
  let account ← accountOf state token
  if token.activeFlag && account.activeFlag then some (token, account) else none

def findToken (state : State) (secret : Nat) (now : Int) : Option (Token × Account) := do
  let (token, account) ← findRow state secret
  if token.revokedAt.isSome || token.projectId.isSome || token.expiresAt.any (· ≤ now) then none
  else some (token, account)

def idleDeadline (config : Config) (createdAt : Int) (lastUsedAt : Option Int) : Int :=
  lastUsedAt.getD createdAt + config.idleSpan

def authenticate (config : Config) (state : State) (secret : Nat) (now : Int) :
    Option (Token × Account) := do
  let (token, account) ← findToken state secret now
  if token.tokenKind = .refresh then none
  else if token.tokenKind = .access ∧
      idleDeadline config token.createdAt token.lastUsedAt ≤ now then none
  else some (token, account)

/-- `issue_token` within the unique digests; it reads back the token, of an active account. -/
def issueToken (state : State) (token : Token) : Option State :=
  let issued := { state with tokens := state.tokens ++ [{ token with tokenId := state.tokens.length }] }
  if (∃ other ∈ state.tokens, other.secret = token.secret) ∨
      (findRow issued token.secret).isNone then none
  else some issued

def revokeWhere (tokens : List Token) (chosen : Token → Bool) (now : Int) : List Token :=
  tokens.map fun token =>
    if token.revokedAt.isNone && chosen token then { token with revokedAt := some now } else token

def revokeAccount (state : State) (accountId : Nat) (now : Int) : State :=
  { state with
    tokens := revokeWhere state.tokens (fun token => token.accountId = accountId) now,
    ended := state.ended ++ ((state.tokens.filter fun token =>
      token.tokenKind = .refresh ∧ token.accountId = accountId).map Token.tokenId) }

def updateRevoking (state : State) (done : Done) (name : String) (now : Int) : Option State :=
  match done.error with
  | some _ => none
  | none =>
      (findAccount done.accounts name).map fun account =>
        revokeAccount { state with accounts := done.accounts } account.accountId now

/-- What a sign-in brings beside its proof: how it came, and the secrets of its new tokens. -/
structure Entry where
  name : String
  seen : Option Account
  proof : Proof
  lockoutAfter : Nat
  ssoGroupIds : List Nat
  refreshable : Bool
  refreshSecret : Nat
  accessSecret : Nat
  deriving DecidableEq, Repr

def issueSession (config : Config) (state : State) (account : Account) (entry : Entry)
    (now : Int) : Option State :=
  let sessionEnd := now + config.sessionSpan
  if entry.refreshable = false then
    issueToken state
      { tokenId := 0, secret := entry.accessSecret, accountId := account.accountId,
        tokenKind := .access, createdAt := now, expiresAt := some sessionEnd,
        ssoGroupIds := entry.ssoGroupIds }
  else do
    let refreshEnd := if entry.proof.isPassword then now + config.refreshSpan else sessionEnd
    let issued ← issueToken state
      { tokenId := 0, secret := entry.refreshSecret, accountId := account.accountId,
        tokenKind := .refresh, createdAt := now, expiresAt := some refreshEnd,
        ssoGroupIds := entry.ssoGroupIds }
    issueToken issued
      { tokenId := 0, secret := entry.accessSecret, accountId := account.accountId,
        tokenKind := .access, createdAt := now,
        expiresAt := some (min (now + accessLifetime) refreshEnd),
        refreshTokenId := some state.tokens.length, ssoGroupIds := entry.ssoGroupIds }

def signInSession (config : Config) (state : State) (entry : Entry) (now : Int) : Option State :=
  let done := signIn state.accounts entry.name entry.seen entry.proof entry.lockoutAfter now
  let signed := { state with accounts := done.accounts }
  match done.error with
  | some _ => some signed
  | none => do
      let account ← findAccount done.accounts entry.name
      issueSession config signed account entry now

def createServiceToken (state : State) (name : String) (role : ApiRole) (secret : Nat)
    (now expiresAt : Int) : Option State :=
  let done := createToken state.accounts name role
  match done.error with
  | some _ => none
  | none => do
      let account ← findAccount done.accounts name
      issueToken { state with accounts := done.accounts }
        { tokenId := 0, secret, accountId := account.accountId, tokenKind := .service,
          createdAt := now, expiresAt := some expiresAt }

/-- The last use of a session: of its access tokens, or the refresh token's creation. -/
def lastUse (state : State) (token : Token) : Int :=
  (((state.tokens.filter fun other => other.refreshTokenId = some token.tokenId).map
    fun other => other.lastUsedAt.getD other.createdAt).max?).getD token.createdAt

/-- The first transaction of `refresh`: every check that it makes. -/
def readRefresh (config : Config) (state : State) (secret : Nat) (now : Int) :
    Option Renewal := do
  let (token, account) ← findToken state secret now
  let expiresAt ← token.expiresAt
  if token.tokenKind ≠ .refresh then none
  else if lastUse state token + config.idleSpan ≤ now then none
  else
    let end' := if token.ssoGroupIds = [] then expiresAt
      else min expiresAt (token.createdAt + config.sessionSpan)
    if token.ssoGroupIds ≠ [] ∧ end' ≤ now then none
    else some ⟨token.tokenId, account.name, end', token.ssoGroupIds⟩

def insertAccess (state : State) (renewal : Renewal) (secret : Nat) (now : Int) : Option State := do
  let account ← findAccount state.accounts renewal.name
  issueToken state
    { tokenId := 0, secret, accountId := account.accountId, tokenKind := .access,
      createdAt := now, expiresAt := some (min (now + accessLifetime) renewal.expiresAt),
      refreshTokenId := some renewal.tokenId, ssoGroupIds := renewal.ssoGroupIds }

/-- `session_revoke`: the token, and the access tokens renewed from it. -/
def signOut (state : State) (secret : Nat) (now : Int) : State :=
  let owners := (state.tokens.filter fun token => token.secret = secret).map Token.tokenId
  { state with
    tokens := revokeWhere state.tokens
      (fun token => token.secret = secret || token.refreshTokenId.any (· ∈ owners)) now,
    ended := state.ended ++ ((state.tokens.filter fun token =>
      token.tokenKind = .refresh ∧ token.secret = secret).map Token.tokenId) }

def revokeToken (state : State) (tokenId : Nat) (now : Int) : Option State :=
  if state.tokens.any fun token => token.tokenId = tokenId && token.revokedAt.isNone then
    some { state with
      tokens := state.tokens.map fun token =>
        if token.tokenId = tokenId ∧ token.revokedAt = none then
          { token with revokedAt := some now, activeFlag := false }
        else token }
  else none

def touch (state : State) (tokenId : Nat) (now : Int) : State :=
  { state with
    tokens := state.tokens.map fun token =>
      if token.tokenId = tokenId then { token with lastUsedAt := some now } else token }

inductive Event
  | account (operation : Operation)
  | createToken (name : String) (role : ApiRole) (secret : Nat) (now expiresAt : Int)
  | signIn (entry : Entry) (now : Int)
  | readRefresh (secret : Nat) (now : Int)
  | insertAccess (index secret : Nat) (now : Int)
  | signOut (secret : Nat) (now : Int)
  | resetPassword (name password hashed : String) (now : Int)
  | disable (name : String) (now : Int)
  | revokeToken (tokenId : Nat) (now : Int)
  | touch (tokenId : Nat) (now : Int)
  deriving DecidableEq, Repr

def step (config : Config) (state : State) : Event → Option State
  | .account operation =>
      match operation with
      | .addAccount _ _ | .setRole _ _ | .unlock _ =>
          some { state with accounts := (perform state.accounts operation).accounts }
      | _ => none
  | .createToken name role secret now expiresAt =>
      createServiceToken state name role secret now expiresAt
  | .signIn entry now => signInSession config state entry now
  | .readRefresh secret now =>
      (readRefresh config state secret now).map fun renewal =>
        { state with renewals := state.renewals ++ [renewal] }
  | .insertAccess index secret now => do
      let renewal ← state.renewals[index]?
      insertAccess { state with renewals := state.renewals.eraseIdx index } renewal secret now
  | .signOut secret now => some (signOut state secret now)
  | .resetPassword name password hashed now =>
      updateRevoking state (resetPassword state.accounts name password hashed) name now
  | .disable name now => updateRevoking state (disable state.accounts name) name now
  | .revokeToken tokenId now => revokeToken state tokenId now
  | .touch tokenId now => some (touch state tokenId now)

end Sessions

end EtlCraft
