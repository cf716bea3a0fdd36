import EtlCraft.SessionCore

/-! Ending a session: what sign-out, a password reset and a disabled account make final, where no
renewal inserts after the ending of the session it read. -/

namespace EtlCraft

namespace Sessions

open Accounts

def Persist (before after : List Account) : Prop :=
  ∀ account ∈ before, ∃ later ∈ after,
    later.accountId = account.accountId ∧ later.name = account.name

theorem persist_refl (accounts : List Account) : Persist accounts accounts :=
  fun account member => ⟨account, member, rfl, rfl⟩

theorem persist_append (accounts added : List Account) : Persist accounts (accounts ++ added) :=
  fun account member => ⟨account, List.mem_append_left _ member, rfl, rfl⟩

theorem persist_map {accounts : List Account} {change : Account → Account}
    (same : ∀ account, (change account).accountId = account.accountId ∧
      (change account).name = account.name) : Persist accounts (accounts.map change) :=
  fun account member => ⟨change account, List.mem_map_of_mem member, same account⟩

section Persisting

variable {accounts : List Account}

theorem updateAccount_persist {name : String} {chosen : Account → Bool}
    {change : Account → Account} (same : ∀ account, (change account).accountId =
      account.accountId ∧ (change account).name = account.name) :
    Persist accounts (updateAccount accounts name chosen change).accounts := by
  unfold updateAccount
  split
  · apply persist_map
    intro account
    split
    · exact same account
    · exact ⟨rfl, rfl⟩
  · exact persist_refl accounts

theorem updateById_persist {accountId : Nat} {change : Account → Account}
    (same : ∀ account, (change account).accountId = account.accountId ∧
      (change account).name = account.name) :
    Persist accounts (updateById accounts accountId change) := by
  apply persist_map
  intro account
  split
  · exact same account
  · exact ⟨rfl, rfl⟩

theorem addAccount_persist (request : AccountAdd) (hashed : String) :
    Persist accounts (addAccount accounts request hashed).accounts := by
  unfold addAccount
  split
  · exact persist_refl accounts
  · split
    · exact persist_refl accounts
    · split
      · rename_i added inserted
        simp only [insertAccount, Option.ite_none_left_eq_some, Option.some.injEq] at inserted
        rw [← inserted.2]
        exact persist_append accounts _
      · exact persist_refl accounts

theorem createToken_persist (name : String) (role : ApiRole) :
    Persist accounts (Accounts.createToken accounts name role).accounts := by
  unfold createToken
  split
  · split
    · exact persist_refl accounts
    · unfold withService
      split
      · exact persist_refl accounts
      · exact persist_append accounts _
  · exact persist_refl accounts

theorem setRole_persist (name : String) (role : ApiRole) :
    Persist accounts (setRole accounts name role).accounts := by
  unfold setRole
  split
  · exact persist_refl accounts
  · split
    · exact persist_refl accounts
    · exact updateAccount_persist fun _ => ⟨rfl, rfl⟩

theorem disable_persist (name : String) :
    Persist accounts (disable accounts name).accounts := by
  unfold disable
  split
  · exact persist_refl accounts
  · exact updateAccount_persist fun _ => ⟨rfl, rfl⟩

theorem resetPassword_persist (name password hashed : String) :
    Persist accounts (resetPassword accounts name password hashed).accounts := by
  unfold resetPassword
  split
  · exact persist_refl accounts
  · exact updateAccount_persist fun _ => ⟨rfl, rfl⟩

theorem signIn_persist (name : String) (seen : Option Account) (proof : Proof)
    (lockoutAfter : Nat) (now : Int) :
    Persist accounts (signIn accounts name seen proof lockoutAfter now).accounts := by
  unfold signIn
  split
  · exact persist_refl accounts
  · split
    · split
      · unfold failedPassword
        split
        · exact persist_refl accounts
        · exact updateById_persist fun _ => ⟨rfl, rfl⟩
      · exact persist_refl accounts
    · split
      · exact persist_refl accounts
      · exact updateById_persist fun _ => ⟨rfl, rfl⟩

end Persisting

def Behind (tokens : List Token) (refreshTokenId : Nat) (accountId : Nat) (expiresAt : Int) : Prop :=
  ∃ parent ∈ tokens, parent.tokenId = refreshTokenId ∧ parent.tokenKind = .refresh ∧
    parent.accountId = accountId ∧ ∃ last, parent.expiresAt = some last ∧ expiresAt ≤ last

structure Sound (state : State) : Prop where
  formed : WellFormed state.accounts
  ids : state.tokens.map Token.tokenId = List.range state.tokens.length
  secrets : (state.tokens.map Token.secret).Nodup
  expires : ∀ token ∈ state.tokens, token.tokenKind = .refresh → token.expiresAt.isSome = true
  renewed : ∀ token ∈ state.tokens, ∀ refreshTokenId,
    token.refreshTokenId = some refreshTokenId → ∃ expiresAt, token.expiresAt = some expiresAt ∧
      Behind state.tokens refreshTokenId token.accountId expiresAt
  pending : ∀ renewal ∈ state.renewals, ∃ account ∈ state.accounts,
    account.name = renewal.name ∧
      Behind state.tokens renewal.tokenId account.accountId renewal.expiresAt
  known : ∀ tokenId ∈ state.ended, tokenId < state.tokens.length
  final : ∀ token ∈ state.tokens, ∀ tokenId ∈ state.ended,
    token.refreshTokenId = some tokenId → token.revokedAt.isSome = true

variable {state next : State}

theorem Sound.same_id (sound : Sound state) {first second : Token} (member : first ∈ state.tokens)
    (member' : second ∈ state.tokens) (same : first.tokenId = second.tokenId) : first = second := by
  have distinct : (state.tokens.map Token.tokenId).Nodup := by
    rw [sound.ids]
    exact List.nodup_range
  exact List.inj_on_of_nodup_map distinct member member' same

theorem Sound.id_lt (sound : Sound state) {token : Token} (member : token ∈ state.tokens) :
    token.tokenId < state.tokens.length := by
  have listed := List.mem_map_of_mem (f := Token.tokenId) member
  rw [sound.ids] at listed
  exact List.mem_range.mp listed

theorem Behind.mono {tokens later : List Token} {refreshTokenId accountId : Nat} {expiresAt : Int}
    (behind : Behind tokens refreshTokenId accountId expiresAt)
    (kept : ∀ token ∈ tokens, ∃ other ∈ later, other.tokenId = token.tokenId ∧
      other.tokenKind = token.tokenKind ∧ other.accountId = token.accountId ∧
      other.expiresAt = token.expiresAt) : Behind later refreshTokenId accountId expiresAt := by
  obtain ⟨parent, member, isId, isRefresh, isAccount, bound⟩ := behind
  obtain ⟨other, inLater, sameId, sameKind, sameAccount, sameEnd⟩ := kept parent member
  exact ⟨other, inLater, sameId.trans isId, sameKind.trans isRefresh, sameAccount.trans isAccount,
    sameEnd ▸ bound⟩

theorem Sound.withAccounts (sound : Sound state) {accounts : List Account}
    (formed : WellFormed accounts) (persist : Persist state.accounts accounts) :
    Sound { state with accounts } where
  formed := formed
  ids := sound.ids
  secrets := sound.secrets
  expires := sound.expires
  renewed := sound.renewed
  pending := by
    intro renewal member
    obtain ⟨account, inAccounts, sameName, behind⟩ := sound.pending renewal member
    obtain ⟨later, inLater, sameId, kept⟩ := persist account inAccounts
    exact ⟨later, inLater, kept.trans sameName, sameId ▸ behind⟩
  known := sound.known
  final := sound.final

structure Unmoved (old token : Token) : Prop where
  tokenId : token.tokenId = old.tokenId
  secret : token.secret = old.secret
  accountId : token.accountId = old.accountId
  tokenKind : token.tokenKind = old.tokenKind
  expiresAt : token.expiresAt = old.expiresAt
  refreshTokenId : token.refreshTokenId = old.refreshTokenId
  revoked : old.revokedAt.isSome = true → token.revokedAt.isSome = true

theorem unmoved_refl (token : Token) : Unmoved token token :=
  ⟨rfl, rfl, rfl, rfl, rfl, rfl, id⟩

theorem Sound.withTokens (sound : Sound state) {change : Token → Token}
    (unmoved : ∀ token, Unmoved token (change token)) {added : List Nat}
    (known : ∀ tokenId ∈ added, tokenId < state.tokens.length)
    (revokes : ∀ token ∈ state.tokens, ∀ tokenId ∈ added, token.refreshTokenId = some tokenId →
      (change token).revokedAt.isSome = true) :
    Sound { state with tokens := state.tokens.map change, ended := state.ended ++ added } where
  formed := sound.formed
  ids := by
    have same : Token.tokenId ∘ change = Token.tokenId := funext fun token => (unmoved token).tokenId
    rw [List.map_map, same, List.length_map, sound.ids]
  secrets := by
    have same : Token.secret ∘ change = Token.secret := funext fun token => (unmoved token).secret
    rw [List.map_map, same]
    exact sound.secrets
  expires := by
    intro token member isRefresh
    obtain ⟨old, inTokens, rfl⟩ := List.mem_map.mp member
    rw [(unmoved old).tokenKind] at isRefresh
    rw [(unmoved old).expiresAt]
    exact sound.expires old inTokens isRefresh
  renewed := by
    intro token member refreshTokenId from'
    obtain ⟨old, inTokens, rfl⟩ := List.mem_map.mp member
    rw [(unmoved old).refreshTokenId] at from'
    rw [(unmoved old).expiresAt, (unmoved old).accountId]
    obtain ⟨expiresAt, isEnd, behind⟩ := sound.renewed old inTokens refreshTokenId from'
    refine ⟨expiresAt, isEnd, behind.mono ?_⟩
    intro parent inOld
    have still := unmoved parent
    exact ⟨change parent, List.mem_map_of_mem inOld, still.tokenId, still.tokenKind,
      still.accountId, still.expiresAt⟩
  pending := by
    intro renewal member
    obtain ⟨account, inAccounts, sameName, behind⟩ := sound.pending renewal member
    refine ⟨account, inAccounts, sameName, behind.mono ?_⟩
    intro parent inOld
    have still := unmoved parent
    exact ⟨change parent, List.mem_map_of_mem inOld, still.tokenId, still.tokenKind,
      still.accountId, still.expiresAt⟩
  known := by
    intro tokenId member
    rw [List.length_map]
    rcases List.mem_append.mp member with early | late
    · exact sound.known tokenId early
    · exact known tokenId late
  final := by
    intro token member tokenId isEnded from'
    obtain ⟨old, inTokens, rfl⟩ := List.mem_map.mp member
    rw [(unmoved old).refreshTokenId] at from'
    rcases List.mem_append.mp isEnded with early | late
    · exact (unmoved old).revoked (sound.final old inTokens tokenId early from')
    · exact revokes old inTokens tokenId late from'

theorem issueToken_ok {token : Token} (done : issueToken state token = some next) :
    next = { state with tokens := state.tokens ++ [{ token with tokenId := state.tokens.length }] } ∧
      ∀ other ∈ state.tokens, other.secret ≠ token.secret := by
  simp only [issueToken, Option.ite_none_left_eq_some, Option.some.injEq, not_or, not_exists,
    not_and] at done
  exact ⟨done.2.symm, done.1.1⟩

theorem Sound.issue (sound : Sound state) {token : Token}
    (done : issueToken state token = some next)
    (expires : token.tokenKind = .refresh → token.expiresAt.isSome = true)
    (renewed : ∀ refreshTokenId, token.refreshTokenId = some refreshTokenId →
      refreshTokenId ∉ state.ended ∧ ∃ expiresAt, token.expiresAt = some expiresAt ∧
        Behind state.tokens refreshTokenId token.accountId expiresAt) : Sound next := by
  obtain ⟨rfl, fresh⟩ := issueToken_ok done
  have kept : ∀ old ∈ state.tokens, ∃ other ∈ state.tokens ++
      [{ token with tokenId := state.tokens.length }], other.tokenId = old.tokenId ∧
        other.tokenKind = old.tokenKind ∧ other.accountId = old.accountId ∧
        other.expiresAt = old.expiresAt :=
    fun old member => ⟨old, List.mem_append_left _ member, rfl, rfl, rfl, rfl⟩
  constructor
  · exact sound.formed
  · simp only [List.map_append, List.map_singleton, sound.ids, List.length_append,
      List.length_singleton, List.range_succ]
  · rw [List.map_append, List.map_singleton, List.nodup_append]
    refine ⟨sound.secrets, List.nodup_singleton _, ?_⟩
    intro secret member other isNew same
    obtain ⟨old, inTokens, rfl⟩ := List.mem_map.mp member
    exact fresh old inTokens (same.trans (List.mem_singleton.mp isNew))
  · intro other member isRefresh
    rcases List.mem_append.mp member with early | late
    · exact sound.expires other early isRefresh
    · rw [List.mem_singleton] at late
      subst other
      exact expires isRefresh
  · intro other member refreshTokenId from'
    rcases List.mem_append.mp member with early | late
    · obtain ⟨expiresAt, isEnd, behind⟩ := sound.renewed other early refreshTokenId from'
      exact ⟨expiresAt, isEnd, behind.mono kept⟩
    · rw [List.mem_singleton] at late
      subst other
      obtain ⟨_, expiresAt, isEnd, behind⟩ := renewed refreshTokenId from'
      exact ⟨expiresAt, isEnd, behind.mono kept⟩
  · intro renewal member
    obtain ⟨account, inAccounts, sameName, behind⟩ := sound.pending renewal member
    exact ⟨account, inAccounts, sameName, behind.mono kept⟩
  · intro tokenId member
    rw [List.length_append]
    exact Nat.lt_add_right _ (sound.known tokenId member)
  · intro other member tokenId isEnded from'
    rcases List.mem_append.mp member with early | late
    · exact sound.final other early tokenId isEnded from'
    · rw [List.mem_singleton] at late
      subst other
      exact ((renewed tokenId from').1 isEnded).elim

theorem revokeWhere_unmoved (chosen : Token → Bool) (now : Int) (token : Token) :
    Unmoved token (if token.revokedAt.isNone && chosen token then
      { token with revokedAt := some now } else token) := by
  split
  · exact ⟨rfl, rfl, rfl, rfl, rfl, rfl, fun _ => rfl⟩
  · exact unmoved_refl token

theorem revokeWhere_revoked {chosen : Token → Bool} {now : Int} {token : Token}
    (isChosen : chosen token = true) : (if token.revokedAt.isNone && chosen token then
      { token with revokedAt := some now } else token).revokedAt.isSome = true := by
  split
  · rfl
  · rename_i kept
    rw [isChosen, Bool.and_true, Bool.not_eq_true, Option.isNone_eq_false_iff] at kept
    exact kept

theorem Sound.revokeAccount (sound : Sound state) (accountId : Nat) (now : Int) :
    Sound (Sessions.revokeAccount state accountId now) := by
  apply sound.withTokens (revokeWhere_unmoved _ now)
  · intro tokenId member
    obtain ⟨parent, chosen, rfl⟩ := List.mem_map.mp member
    exact sound.id_lt (List.mem_filter.mp chosen).1
  · intro token member tokenId isEnded from'
    apply revokeWhere_revoked
    obtain ⟨parent, chosen, rfl⟩ := List.mem_map.mp isEnded
    obtain ⟨inTokens, owned⟩ := List.mem_filter.mp chosen
    obtain ⟨_, _, other, inOther, sameId, _, sameAccount, _⟩ :=
      sound.renewed token member parent.tokenId from'
    rw [sound.same_id inOther inTokens sameId] at sameAccount
    rw [decide_eq_true_eq] at owned ⊢
    exact sameAccount.symm.trans owned.2

theorem Sound.signOut (sound : Sound state) (secret : Nat) (now : Int) :
    Sound (Sessions.signOut state secret now) := by
  apply sound.withTokens (revokeWhere_unmoved _ now)
  · intro tokenId member
    obtain ⟨parent, chosen, rfl⟩ := List.mem_map.mp member
    exact sound.id_lt (List.mem_filter.mp chosen).1
  · intro token member tokenId isEnded from'
    apply revokeWhere_revoked
    obtain ⟨parent, chosen, rfl⟩ := List.mem_map.mp isEnded
    obtain ⟨inTokens, owned⟩ := List.mem_filter.mp chosen
    rw [decide_eq_true_eq] at owned
    rw [from', Option.any_some, Bool.or_eq_true]
    right
    exact decide_eq_true (List.mem_map_of_mem
      (List.mem_filter.mpr ⟨inTokens, decide_eq_true owned.2⟩))

theorem Sound.touched (sound : Sound state) {change : Token → Token}
    (unmoved : ∀ token, Unmoved token (change token)) :
    Sound { state with tokens := state.tokens.map change } := by
  have changed := @Sound.withTokens state sound change unmoved [] (by simp) (by simp)
  rwa [List.append_nil] at changed

theorem Sound.updateRevoking (sound : Sound state) {done : Done} {name : String} {now : Int}
    (formed : WellFormed done.accounts) (persist : Persist state.accounts done.accounts)
    (taken : Sessions.updateRevoking state done name now = some next) : Sound next := by
  unfold Sessions.updateRevoking at taken
  split at taken
  · cases taken
  · obtain ⟨account, _, rfl⟩ := Option.map_eq_some_iff.mp taken
    exact (sound.withAccounts formed persist).revokeAccount account.accountId now

theorem Sound.issueSession {config : Config} {account : Account} {entry : Entry} {now : Int}
    (sound : Sound state)
    (done : Sessions.issueSession config state account entry now = some next) : Sound next := by
  unfold Sessions.issueSession at done
  dsimp only at done
  split at done
  · exact sound.issue done nofun nofun
  · obtain ⟨issued, first, second⟩ := Option.bind_eq_some_iff.mp done
    have middle := sound.issue first (fun _ => rfl) nofun
    obtain ⟨rfl, _⟩ := issueToken_ok first
    refine middle.issue second nofun ?_
    intro refreshTokenId from'
    cases from'
    refine ⟨fun isEnded => Nat.lt_irrefl _ (sound.known _ isEnded), _, rfl, ?_⟩
    exact ⟨_, List.mem_append_right _ List.mem_cons_self, rfl, rfl, rfl, _, rfl, Int.min_le_right _ _⟩

theorem Sound.createServiceToken {name : String} {role : ApiRole} {secret : Nat}
    {now expiresAt : Int} (sound : Sound state)
    (done : Sessions.createServiceToken state name role secret now expiresAt = some next) :
    Sound next := by
  unfold Sessions.createServiceToken at done
  dsimp only at done
  split at done
  · cases done
  · obtain ⟨account, _, issued⟩ := Option.bind_eq_some_iff.mp done
    have created := sound.withAccounts (createToken_formed sound.formed name role)
      (createToken_persist name role)
    exact created.issue issued nofun nofun

theorem Sound.signInSession {config : Config} {entry : Entry} {now : Int} (sound : Sound state)
    (done : Sessions.signInSession config state entry now = some next) : Sound next := by
  have signed := sound.withAccounts
    (signIn_formed sound.formed entry.name entry.seen entry.proof entry.lockoutAfter now)
    (signIn_persist entry.name entry.seen entry.proof entry.lockoutAfter now)
  unfold Sessions.signInSession at done
  dsimp only at done
  split at done
  · cases done
    exact signed
  · obtain ⟨account, _, issued⟩ := Option.bind_eq_some_iff.mp done
    exact signed.issueSession issued

theorem findToken_mem {secret : Nat} {now : Int} {token : Token} {account : Account}
    (found : findToken state secret now = some (token, account)) :
    token ∈ state.tokens ∧ token.secret = secret ∧ account ∈ state.accounts ∧
      account.accountId = token.accountId ∧ token.revokedAt = none := by
  obtain ⟨⟨row, owner⟩, isRow, usable⟩ := Option.bind_eq_some_iff.mp found
  obtain ⟨first, isFirst, rest⟩ := Option.bind_eq_some_iff.mp isRow
  obtain ⟨second, isSecond, active⟩ := Option.bind_eq_some_iff.mp rest
  simp only [Option.ite_none_right_eq_some, Option.some.injEq, Prod.mk.injEq] at active
  obtain ⟨_, rfl, rfl⟩ := active
  simp only [Option.ite_none_left_eq_some, Option.some.injEq, Prod.mk.injEq] at usable
  obtain ⟨open', rfl, rfl⟩ := usable
  simp only [Bool.or_eq_true, not_or, Option.isSome_iff_ne_none, not_not] at open'
  exact ⟨List.mem_of_find?_eq_some isFirst, by simpa using List.find?_some isFirst,
    List.mem_of_find?_eq_some isSecond, by simpa using List.find?_some isSecond, open'.1.1⟩

theorem Sound.readRefresh {config : Config} {secret : Nat} {now : Int} {renewal : Renewal}
    (sound : Sound state) (read : Sessions.readRefresh config state secret now = some renewal) :
    Sound { state with renewals := state.renewals ++ [renewal] } := by
  have behind : ∃ account ∈ state.accounts, account.name = renewal.name ∧
      Behind state.tokens renewal.tokenId account.accountId renewal.expiresAt := by
    obtain ⟨⟨token, account⟩, found, checks⟩ := Option.bind_eq_some_iff.mp read
    obtain ⟨inTokens, _, inAccounts, isOwner, _⟩ := findToken_mem found
    obtain ⟨expiresAt, isEnd, checks⟩ := Option.bind_eq_some_iff.mp checks
    simp only [Option.ite_none_left_eq_some, Option.some.injEq, not_not] at checks
    obtain ⟨isRefresh, _, _, rfl⟩ := checks
    refine ⟨account, inAccounts, rfl, token, inTokens, rfl, isRefresh, isOwner.symm, expiresAt,
      isEnd, ?_⟩
    dsimp only
    split
    · exact Int.le_refl _
    · exact Int.min_le_left _ _
  constructor
  · exact sound.formed
  · exact sound.ids
  · exact sound.secrets
  · exact sound.expires
  · exact sound.renewed
  · intro other member
    rcases List.mem_append.mp member with early | late
    · exact sound.pending other early
    · rw [List.mem_singleton.mp late]
      exact behind
  · exact sound.known
  · exact sound.final

theorem Sound.insertAccess {index secret : Nat} {now : Int} {renewal : Renewal}
    (sound : Sound state) (isNext : state.renewals[index]? = some renewal)
    (open' : renewal.tokenId ∉ state.ended)
    (done : Sessions.insertAccess { state with renewals := state.renewals.eraseIdx index } renewal
      secret now = some next) : Sound next := by
  have removed : Sound { state with renewals := state.renewals.eraseIdx index } :=
    { formed := sound.formed, ids := sound.ids, secrets := sound.secrets,
      expires := sound.expires, renewed := sound.renewed,
      pending := fun other member => sound.pending other (List.mem_of_mem_eraseIdx member),
      known := sound.known, final := sound.final }
  obtain ⟨account, found, issued⟩ := Option.bind_eq_some_iff.mp done
  refine removed.issue issued nofun ?_
  intro refreshTokenId from'
  cases from'
  refine ⟨open', _, rfl, ?_⟩
  obtain ⟨owner, inAccounts, sameName, parent, member, isId, isRefresh, isAccount, last, isEnd, bound⟩ :=
    sound.pending renewal (List.mem_of_getElem? isNext)
  obtain ⟨inFound, foundName⟩ := findAccount_mem found
  have same := sound.formed.same_name inFound inAccounts (foundName.trans sameName.symm)
  subst owner
  exact ⟨parent, member, isId, isRefresh, isAccount, last, isEnd,
    (Int.min_le_right _ _).trans bound⟩

def Prompt (state : State) : Event → Prop
  | .insertAccess index _ _ =>
      ∀ renewal ∈ state.renewals[index]?, renewal.tokenId ∉ state.ended
  | _ => True

instance (state : State) (event : Event) : Decidable (Prompt state event) := by
  cases event <;> unfold Prompt <;> infer_instance

theorem step_sound (config : Config) (event : Event) (prompt : Prompt state event)
    (sound : Sound state) (taken : step config state event = some next) : Sound next := by
  cases event with
  | account operation =>
      cases operation with
      | addAccount request hashed =>
          cases taken
          exact sound.withAccounts (addAccount_formed sound.formed request hashed)
            (addAccount_persist request hashed)
      | setRole name role =>
          cases taken
          exact sound.withAccounts (setRole_formed sound.formed name role)
            (setRole_persist name role)
      | unlock name =>
          cases taken
          exact sound.withAccounts
            (updateAccount_formed sound.formed (fun _ => rfl) fun _ => rfl)
            (updateAccount_persist fun _ => ⟨rfl, rfl⟩)
      | disable name => cases taken
      | resetPassword name password hashed => cases taken
      | createToken name role => cases taken
      | signIn name seen proof lockoutAfter now => cases taken
  | createToken name role secret now expiresAt => exact sound.createServiceToken taken
  | signIn entry now => exact sound.signInSession taken
  | readRefresh secret now =>
      obtain ⟨renewal, read, rfl⟩ := Option.map_eq_some_iff.mp taken
      exact sound.readRefresh read
  | insertAccess index secret now =>
      obtain ⟨renewal, isNext, inserted⟩ := Option.bind_eq_some_iff.mp taken
      exact sound.insertAccess isNext (prompt renewal isNext) inserted
  | signOut secret now =>
      cases taken
      exact sound.signOut secret now
  | resetPassword name password hashed now =>
      exact sound.updateRevoking (resetPassword_formed sound.formed name password hashed)
        (resetPassword_persist name password hashed) taken
  | disable name now =>
      exact sound.updateRevoking (disable_formed sound.formed name) (disable_persist name) taken
  | revokeToken tokenId now =>
      obtain ⟨_, same⟩ := Option.ite_none_right_eq_some.mp taken
      cases same
      apply sound.touched
      intro token
      split
      · exact ⟨rfl, rfl, rfl, rfl, rfl, rfl, fun _ => rfl⟩
      · exact unmoved_refl token
  | touch tokenId now =>
      cases taken
      apply sound.touched
      intro token
      split
      · exact ⟨rfl, rfl, rfl, rfl, rfl, rfl, id⟩
      · exact unmoved_refl token

theorem sound_begin : Sound {} where
  formed := ⟨List.nodup_nil, rfl⟩
  ids := rfl
  secrets := List.nodup_nil
  expires := by simp
  renewed := by simp
  pending := by simp
  known := by simp
  final := by simp

theorem authenticate_mem {config : Config} {secret : Nat} {now : Int}
    {view : Token × Account} (accepted : authenticate config state secret now = some view) :
    view.1 ∈ state.tokens ∧ view.1.secret = secret ∧ view.1.revokedAt = none ∧
      view.1.tokenKind ≠ .refresh := by
  obtain ⟨⟨token, account⟩, found, checks⟩ := Option.bind_eq_some_iff.mp accepted
  simp only [Option.ite_none_left_eq_some, Option.some.injEq] at checks
  obtain ⟨notRefresh, _, rfl⟩ := checks
  obtain ⟨member, isSecret, _, _, open'⟩ := findToken_mem found
  exact ⟨member, isSecret, open', notRefresh⟩

theorem Sound.same_secret (sound : Sound state) {first second : Token}
    (member : first ∈ state.tokens) (member' : second ∈ state.tokens)
    (same : first.secret = second.secret) : first = second :=
  List.inj_on_of_nodup_map sound.secrets member member' same

/-- Sessions end for good where no renewal inserts after the ending of the session it read. -/
theorem ended_for_good (config : Config) (events : List Event)
    (prompt : Runs.Along (step config) Prompt {} events) (state : State)
    (ran : Runs.exec (step config) {} events = some state) :
    (∀ token ∈ state.tokens, ∀ refreshTokenId ∈ state.ended,
        token.refreshTokenId = some refreshTokenId →
        ∀ now, authenticate config state token.secret now = none) ∧
      (∀ token ∈ state.tokens, ∀ refreshTokenId, token.refreshTokenId = some refreshTokenId →
        ∃ expiresAt, token.expiresAt = some expiresAt ∧
          Behind state.tokens refreshTokenId token.accountId expiresAt) ∧
      ∀ token ∈ state.tokens, token.tokenKind = .refresh →
        ∀ now, authenticate config state token.secret now = none := by
  have sound : Sound state := Runs.exec_invariant_along Sound
    (fun _ event _ condition holds taken => step_sound config event condition holds taken)
    sound_begin prompt ran
  refine ⟨?_, sound.renewed, ?_⟩
  · intro token member refreshTokenId isEnded from' now
    rw [Option.eq_none_iff_forall_ne_some]
    intro view accepted
    obtain ⟨inTokens, isSecret, open', _⟩ := authenticate_mem accepted
    have revoked := sound.final token member refreshTokenId isEnded from'
    rw [← sound.same_secret inTokens member isSecret, open'] at revoked
    cases revoked
  · intro token member isRefresh now
    rw [Option.eq_none_iff_forall_ne_some]
    intro view accepted
    obtain ⟨inTokens, isSecret, _, notRefresh⟩ := authenticate_mem accepted
    exact notRefresh (sound.same_secret inTokens member isSecret ▸ isRefresh)

def usualConfig : Config :=
  ⟨43200000000, 1209600000000, 1800000000⟩

def ownerAccount : Account :=
  { accountId := 0, name := "owner", kind := .user, role := .admin, passwordHash := some "h" }

/-- A user who signs in, and whose client has then checked a renewal. -/
def renewingEvents : List Event :=
  [.account (.addAccount { name := "owner", role := .admin, password := some "p" } "h"),
    .signIn ⟨"owner", some ownerAccount, .password true, 5, [], true, 1, 2⟩ 0, .readRefresh 1 10]

def renewedState : State :=
  (Runs.exec (step usualConfig) {} (renewingEvents ++ [.insertAccess 0 3 20, .signOut 1 30])).get
    (by decide +kernel)

/-- The access token that the renewal inserted before the sign-out revoked it. -/
def renewedToken : Token :=
  { tokenId := 2, secret := 3, accountId := 0, tokenKind := .access, createdAt := 20,
    expiresAt := some 3600000020, refreshTokenId := some 0, revokedAt := some 30 }

theorem ended_for_good_renewed :
    renewedToken ∈ renewedState.tokens ∧ 0 ∈ renewedState.ended ∧
      authenticate usualConfig renewedState 3 40 = none := by
  have member : renewedToken ∈ renewedState.tokens := by decide +kernel
  have isEnded : 0 ∈ renewedState.ended := by decide +kernel
  exact ⟨member, isEnded, (ended_for_good usualConfig
    (renewingEvents ++ [.insertAccess 0 3 20, .signOut 1 30]) (by decide +kernel) renewedState
    (Option.some_get _).symm).1 renewedToken member 0 isEnded rfl 40⟩

/-- A renewal that had passed its check inserts after the sign-out, and its token is accepted. -/
theorem renewed_after_sign_out :
    ∃ state, Runs.exec (step usualConfig) {}
        (renewingEvents ++ [.signOut 1 20, .insertAccess 0 3 30]) = some state ∧
      ∃ token ∈ state.tokens, ∃ refreshTokenId ∈ state.ended,
        token.refreshTokenId = some refreshTokenId ∧
        (authenticate usualConfig state token.secret 40).isSome = true :=
  ⟨_, (Option.some_get (by decide +kernel)).symm, by decide +kernel⟩

end Sessions

end EtlCraft
