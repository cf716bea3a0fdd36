import EtlCraft.AccountCore
import EtlCraft.Keyed

/-! An administrator always remains: what the guards on the last unlocked one keep over every
run. -/

namespace EtlCraft

namespace Accounts

structure WellFormed (accounts : List Account) : Prop where
  names : (accounts.map Account.name).Nodup
  ids : accounts.map Account.accountId = List.range accounts.length

variable {accounts : List Account}

theorem WellFormed.same_name (formed : WellFormed accounts) {first second : Account}
    (member : first ∈ accounts) (member' : second ∈ accounts) (same : first.name = second.name) :
    first = second :=
  List.inj_on_of_nodup_map formed.names member member' same

theorem WellFormed.same_id (formed : WellFormed accounts) {first second : Account}
    (member : first ∈ accounts) (member' : second ∈ accounts)
    (same : first.accountId = second.accountId) : first = second := by
  have distinct : (accounts.map Account.accountId).Nodup := by
    rw [formed.ids]
    exact List.nodup_range
  exact List.inj_on_of_nodup_map distinct member member' same

theorem WellFormed.update (formed : WellFormed accounts) {change : Account → Account}
    (sameName : ∀ account, (change account).name = account.name)
    (sameId : ∀ account, (change account).accountId = account.accountId) :
    WellFormed (accounts.map change) where
  names := by
    rw [List.map_map]
    have same : Account.name ∘ change = Account.name := funext sameName
    rw [same]
    exact formed.names
  ids := by
    rw [List.map_map, List.length_map]
    have same : Account.accountId ∘ change = Account.accountId := funext sameId
    rw [same]
    exact formed.ids

theorem WellFormed.add (formed : WellFormed accounts) {account : Account}
    (fresh : ∀ other ∈ accounts, other.name ≠ account.name)
    (next : account.accountId = accounts.length) : WellFormed (accounts ++ [account]) where
  names := by
    rw [List.map_append, List.map_singleton, List.nodup_append]
    refine ⟨formed.names, List.nodup_singleton _, ?_⟩
    intro name member other isNew same
    obtain ⟨old, inAccounts, rfl⟩ := List.mem_map.mp member
    exact fresh old inAccounts (same.trans (List.mem_singleton.mp isNew))
  ids := by
    rw [List.map_append, List.map_singleton, formed.ids, next, List.length_append,
      List.length_singleton, List.range_succ]

theorem findAccount_mem {name : String} {account : Account}
    (found : findAccount accounts name = some account) :
    account ∈ accounts ∧ account.name = name :=
  ⟨List.mem_of_find?_eq_some found, by simpa using List.find?_some found⟩

theorem findAccount_none {name : String} (missing : findAccount accounts name = none) :
    ∀ account ∈ accounts, account.name ≠ name := by
  intro account member
  simpa using List.find?_eq_none.mp missing account member

theorem findAccount_eq (formed : WellFormed accounts) {account : Account}
    (member : account ∈ accounts) : findAccount accounts account.name = some account := by
  cases found : findAccount accounts account.name with
  | none => exact (findAccount_none found account member rfl).elim
  | some other =>
      obtain ⟨inAccounts, same⟩ := findAccount_mem found
      rw [formed.same_name inAccounts member same]

theorem hasAdmin_iff : hasAdmin accounts = true ↔
    ∃ account ∈ accounts, account.unlockedAdmin = true := by
  simp only [hasAdmin, unlockedAdmins, ne_eq, List.countP_eq_zero, not_forall, exists_prop, not_not,
    decide_eq_true_eq]

theorem exists_other (formed : WellFormed accounts) (several : 1 < unlockedAdmins accounts)
    (account : Account) : ∃ other ∈ accounts, other.unlockedAdmin = true ∧ other ≠ account := by
  by_contra absent
  push Not at absent
  have only : ∀ other ∈ accounts.filter Account.unlockedAdmin, other = account := by
    intro other member
    obtain ⟨inAccounts, counted⟩ := List.mem_filter.mp member
    exact absent other inAccounts counted
  have once : (accounts.filter Account.unlockedAdmin).Nodup :=
    (List.Nodup.of_map _ formed.names).filter _
  rw [unlockedAdmins, List.countP_eq_length_filter] at several
  obtain ⟨first, second, rest, shape⟩ : ∃ first second rest,
      accounts.filter Account.unlockedAdmin = first :: second :: rest := by
    match filtered : accounts.filter Account.unlockedAdmin with
    | [] => simp [filtered] at several
    | [_] => simp [filtered] at several
    | first :: second :: rest => exact ⟨first, second, rest, rfl⟩
  rw [shape] at only once
  have same := (only first (by simp)).trans (only second (by simp)).symm
  exact (List.nodup_cons.mp once).1 (same ▸ List.mem_cons_self)

theorem other_admin (formed : WellFormed accounts) {name : String}
    (guarded : lastAdmin accounts name = false) (some' : hasAdmin accounts = true) :
    ∃ account ∈ accounts, account.unlockedAdmin = true ∧ account.name ≠ name := by
  obtain ⟨account, member, counted⟩ := hasAdmin_iff.mp some'
  by_cases same : account.name = name
  · subst same
    rw [lastAdmin, findAccount_eq formed member, Option.any_some, counted, Bool.true_and,
      decide_eq_false_iff_not, not_le] at guarded
    obtain ⟨other, inAccounts, isCounted, differs⟩ := exists_other formed guarded account
    exact ⟨other, inAccounts, isCounted, fun same => differs (formed.same_name inAccounts member same)⟩
  · exact ⟨account, member, counted, same⟩

/-- An administrator from before that is still one, of the same kind. -/
def Keeps (before after : List Account) : Prop :=
  hasAdmin before = true → ∃ old ∈ before, old.unlockedAdmin = true ∧
    ∃ account ∈ after, account.unlockedAdmin = true ∧ account.kind = old.kind

theorem keeps_of_subset {after : List Account} (within : ∀ account ∈ accounts, account ∈ after) :
    Keeps accounts after := by
  intro some'
  obtain ⟨account, member, counted⟩ := hasAdmin_iff.mp some'
  exact ⟨account, member, counted, account, within account member, counted, rfl⟩

theorem keeps_of_map {change : Account → Account}
    (stays : ∀ account ∈ accounts, account.unlockedAdmin = true →
      (change account).unlockedAdmin = true ∧ (change account).kind = account.kind) :
    Keeps accounts (accounts.map change) := by
  intro some'
  obtain ⟨account, member, counted⟩ := hasAdmin_iff.mp some'
  obtain ⟨still, sameKind⟩ := stays account member counted
  exact ⟨account, member, counted, _, List.mem_map_of_mem member, still, sameKind⟩

theorem keeps_of_other {change : Account → Account}
    (other : ∃ account ∈ accounts, account.unlockedAdmin = true ∧ change account = account) :
    Keeps accounts (accounts.map change) := by
  intro _
  obtain ⟨account, member, counted, same⟩ := other
  exact ⟨account, member, counted, account, same ▸ List.mem_map_of_mem member, counted, rfl⟩

theorem updateAccount_keeps {name : String} {chosen : Account → Bool}
    {change : Account → Account} (stays : ∀ account, account.unlockedAdmin = true →
      (change account).unlockedAdmin = true ∧ (change account).kind = account.kind) :
    Keeps accounts (updateAccount accounts name chosen change).accounts := by
  unfold updateAccount
  split
  · apply keeps_of_map
    intro account _ counted
    split
    · exact stays account counted
    · exact ⟨counted, rfl⟩
  · exact keeps_of_subset fun _ => id

theorem guarded_keeps (formed : WellFormed accounts) {name : String} {change : Account → Account}
    (guarded : lastAdmin accounts name = false) :
    Keeps accounts (updateAccount accounts name (fun _ => true) change).accounts := by
  intro some'
  obtain ⟨account, member, counted, differs⟩ := other_admin formed guarded some'
  unfold updateAccount
  split
  · exact keeps_of_other ⟨account, member, counted, by simp [differs]⟩ some'
  · exact keeps_of_subset (fun _ => id) some'

theorem setRole_keeps (formed : WellFormed accounts) (name : String) (role : ApiRole) :
    Keeps accounts (setRole accounts name role).accounts := by
  unfold setRole
  split
  · exact keeps_of_subset fun _ => id
  · split
    · exact keeps_of_subset fun _ => id
    · rename_i guard
      rw [not_and_or, not_not] at guard
      rcases guard with isAdmin | guarded
      · apply updateAccount_keeps
        intro account counted
        simp only [Account.unlockedAdmin, Bool.and_eq_true, decide_eq_true_eq] at counted ⊢
        exact ⟨⟨⟨isAdmin, counted.1.2⟩, counted.2⟩, trivial⟩
      · exact guarded_keeps formed (Bool.eq_false_of_not_eq_true guarded)

theorem disable_keeps (formed : WellFormed accounts) (name : String) :
    Keeps accounts (disable accounts name).accounts := by
  unfold disable
  split
  · exact keeps_of_subset fun _ => id
  · rename_i guarded
    exact guarded_keeps formed (Bool.eq_false_of_not_eq_true guarded)

theorem unlock_keeps (name : String) : Keeps accounts (unlock accounts name).accounts := by
  apply updateAccount_keeps
  intro account counted
  simp only [Account.unlockedAdmin, Bool.and_eq_true] at counted ⊢
  exact ⟨⟨counted.1, rfl⟩, trivial⟩

theorem resetPassword_keeps (name password hashed : String) :
    Keeps accounts (resetPassword accounts name password hashed).accounts := by
  unfold resetPassword
  split
  · exact keeps_of_subset fun _ => id
  · exact updateAccount_keeps fun _ counted => ⟨counted, rfl⟩

theorem addAccount_keeps (request : AccountAdd) (hashed : String) :
    Keeps accounts (addAccount accounts request hashed).accounts := by
  apply keeps_of_subset
  intro account member
  unfold addAccount
  split
  · exact member
  · split
    · exact member
    · split
      · rename_i added inserted
        simp only [insertAccount, Option.ite_none_left_eq_some, Option.some.injEq] at inserted
        rw [← inserted.2]
        exact List.mem_append_left _ member
      · exact member

theorem createToken_keeps (name : String) (role : ApiRole) :
    Keeps accounts (createToken accounts name role).accounts := by
  apply keeps_of_subset
  intro account member
  unfold createToken
  split
  · split
    · exact member
    · unfold withService
      split
      · exact member
      · exact List.mem_append_left _ member
  · exact member

theorem failedPassword_keeps (formed : WellFormed accounts) {row : Account} (member : row ∈ accounts)
    (lockoutAfter : Nat) (now : Int) :
    Keeps accounts (failedPassword accounts row lockoutAfter now) := by
  unfold failedPassword
  split
  · exact keeps_of_subset fun _ => id
  · rename_i countable
    push Not at countable
    intro some'
    by_cases several : 1 < unlockedAdmins accounts
    · -- with two administrators, the one not signing in stays as it is
      obtain ⟨other, inAccounts, counted, differs⟩ := exists_other formed several row
      refine keeps_of_other ⟨other, inAccounts, counted, if_neg ?_⟩ some'
      exact fun same => differs (formed.same_id inAccounts member same)
    · refine keeps_of_map ?_ some'
      intro account inAccounts counted
      by_cases same : account.accountId = row.accountId
      · have equal := formed.same_id inAccounts member same
        subst equal
        have isAdmin : account.role = .admin := by
          simp only [Account.unlockedAdmin, Bool.and_eq_true, decide_eq_true_eq] at counted
          exact counted.1.1
        simp only [if_true, isAdmin, not_lt.mp several, and_self, not_true_eq_false, and_false,
          if_false]
        simp only [Account.unlockedAdmin, Bool.and_eq_true] at counted ⊢
        exact ⟨⟨by simpa [isAdmin] using counted.1.2, rfl⟩, trivial⟩
      · rw [if_neg same]
        exact ⟨counted, rfl⟩

theorem signIn_keeps (formed : WellFormed accounts) (name : String) (seen : Option Account)
    (proof : Proof) (lockoutAfter : Nat) (now : Int) :
    Keeps accounts (signIn accounts name seen proof lockoutAfter now).accounts := by
  unfold signIn
  split
  · exact keeps_of_subset fun _ => id
  · rename_i row found
    split
    · split
      · exact failedPassword_keeps formed (findAccount_mem found).1 lockoutAfter now
      · exact keeps_of_subset fun _ => id
    · split
      · exact keeps_of_subset fun _ => id
      · apply keeps_of_map
        intro account _ counted
        split
        · exact ⟨counted, rfl⟩
        · exact ⟨counted, rfl⟩

theorem perform_keeps (formed : WellFormed accounts) (operation : Operation) :
    Keeps accounts (perform accounts operation).accounts := by
  cases operation with
  | addAccount request hashed => exact addAccount_keeps request hashed
  | setRole name role => exact setRole_keeps formed name role
  | disable name => exact disable_keeps formed name
  | unlock name => exact unlock_keeps name
  | resetPassword name password hashed => exact resetPassword_keeps name password hashed
  | createToken name role => exact createToken_keeps name role
  | signIn name seen proof lockoutAfter now =>
      exact signIn_keeps formed name seen proof lockoutAfter now

theorem updateAccount_formed (formed : WellFormed accounts) {name : String}
    {chosen : Account → Bool} {change : Account → Account}
    (sameName : ∀ account, (change account).name = account.name)
    (sameId : ∀ account, (change account).accountId = account.accountId) :
    WellFormed (updateAccount accounts name chosen change).accounts := by
  unfold updateAccount
  split
  · apply formed.update
    · intro account
      split
      · exact sameName account
      · rfl
    · intro account
      split
      · exact sameId account
      · rfl
  · exact formed

theorem updateById_formed (formed : WellFormed accounts) {accountId : Nat}
    {change : Account → Account} (sameName : ∀ account, (change account).name = account.name)
    (sameId : ∀ account, (change account).accountId = account.accountId) :
    WellFormed (updateById accounts accountId change) := by
  apply formed.update
  · intro account
    split
    · exact sameName account
    · rfl
  · intro account
    split
    · exact sameId account
    · rfl

theorem addAccount_formed (formed : WellFormed accounts) (request : AccountAdd) (hashed : String) :
    WellFormed (addAccount accounts request hashed).accounts := by
  unfold addAccount
  split
  · exact formed
  · split
    · exact formed
    · split
      · rename_i added inserted
        simp only [insertAccount, Option.ite_none_left_eq_some, Option.some.injEq] at inserted
        obtain ⟨free, rfl⟩ := inserted
        apply formed.add
        · intro other member same
          exact free ⟨other, member, Or.inl same⟩
        · rfl
      · exact formed

theorem createToken_formed (formed : WellFormed accounts) (name : String) (role : ApiRole) :
    WellFormed (createToken accounts name role).accounts := by
  unfold createToken
  split
  · split
    · exact formed
    · unfold withService
      split
      · exact formed
      · rename_i missing
        rw [Bool.not_eq_true, Option.isSome_eq_false_iff, Option.isNone_iff_eq_none] at missing
        exact formed.add (findAccount_none missing) rfl
  · exact formed

theorem signIn_formed (formed : WellFormed accounts) (name : String) (seen : Option Account)
    (proof : Proof) (lockoutAfter : Nat) (now : Int) :
    WellFormed (signIn accounts name seen proof lockoutAfter now).accounts := by
  unfold signIn
  split
  · exact formed
  · split
    · split
      · unfold failedPassword
        split
        · exact formed
        · exact updateById_formed formed (fun _ => rfl) fun _ => rfl
      · exact formed
    · split
      · exact formed
      · exact updateById_formed formed (fun _ => rfl) fun _ => rfl

theorem setRole_formed (formed : WellFormed accounts) (name : String) (role : ApiRole) :
    WellFormed (setRole accounts name role).accounts := by
  unfold setRole
  split
  · exact formed
  · split
    · exact formed
    · exact updateAccount_formed formed (fun _ => rfl) fun _ => rfl

theorem disable_formed (formed : WellFormed accounts) (name : String) :
    WellFormed (disable accounts name).accounts := by
  unfold disable
  split
  · exact formed
  · exact updateAccount_formed formed (fun _ => rfl) fun _ => rfl

theorem resetPassword_formed (formed : WellFormed accounts) (name password hashed : String) :
    WellFormed (resetPassword accounts name password hashed).accounts := by
  unfold resetPassword
  split
  · exact formed
  · exact updateAccount_formed formed (fun _ => rfl) fun _ => rfl

theorem perform_formed (formed : WellFormed accounts) (operation : Operation) :
    WellFormed (perform accounts operation).accounts := by
  cases operation with
  | addAccount request hashed => exact addAccount_formed formed request hashed
  | setRole name role => exact setRole_formed formed name role
  | disable name => exact disable_formed formed name
  | unlock name => exact updateAccount_formed formed (fun _ => rfl) fun _ => rfl
  | resetPassword name password hashed => exact resetPassword_formed formed name password hashed
  | createToken name role => exact createToken_formed formed name role
  | signIn name seen proof lockoutAfter now =>
      exact signIn_formed formed name seen proof lockoutAfter now

theorem run_formed (formed : WellFormed accounts) (operations : List Operation) :
    WellFormed (run accounts operations) := by
  induction operations generalizing accounts with
  | nil => exact formed
  | cons operation later ih => exact ih (perform_formed formed operation)

theorem reachable_formed (operations : List Operation) : WellFormed (run [] operations) :=
  @run_formed [] ⟨List.nodup_nil, rfl⟩ operations

theorem run_append (first later : List Operation) :
    run accounts (first ++ later) = run (run accounts first) later :=
  List.foldl_append

theorem run_hasAdmin (formed : WellFormed accounts) (some' : hasAdmin accounts = true)
    (operations : List Operation) : hasAdmin (run accounts operations) = true := by
  induction operations generalizing accounts with
  | nil => exact some'
  | cons operation later ih =>
      apply ih (perform_formed formed operation)
      obtain ⟨_, _, _, account, member, counted, _⟩ := perform_keeps formed operation some'
      exact hasAdmin_iff.mpr ⟨account, member, counted⟩

theorem addAccount_adminExists (request : AccountAdd) (hashed : String)
    (checked : request.check = none) (recovery : request.recovery = true) :
    (addAccount accounts request hashed).error = some .adminExists ↔
      hasAdmin accounts = true := by
  unfold addAccount
  rw [checked]
  constructor
  · intro refused
    by_contra absent
    simp only [recovery, true_and, absent, if_false] at refused
    split at refused
    · cases refused
    · cases refused
  · intro some'
    simp only [recovery, some', and_self, if_true]

/-- An administrator remains, recovery is refused exactly while there is one, and while no service
is an administrator an interactive one remains. -/
theorem admin_remains :
    (∀ first later, hasAdmin (run [] first) = true → hasAdmin (run [] (first ++ later)) = true) ∧
      (∀ operations request hashed, request.check = none → request.recovery = true →
        ((addAccount (run [] operations) request hashed).error = some .adminExists ↔
          hasAdmin (run [] operations) = true)) ∧
      ∀ operations operation,
        (∃ account ∈ run [] operations, account.kind = .user ∧ account.unlockedAdmin = true) →
        (∀ account ∈ run [] operations, account.kind = .service →
          account.unlockedAdmin = false) →
        ∃ account ∈ run [] (operations ++ [operation]),
          account.kind = .user ∧ account.unlockedAdmin = true := by
  refine ⟨?_, ?_, ?_⟩
  · intro first later some'
    rw [run_append]
    exact run_hasAdmin (reachable_formed first) some' later
  · intro operations request hashed checked recovery
    exact addAccount_adminExists request hashed checked recovery
  · intro operations operation interactive noService
    obtain ⟨account, member, _, counted⟩ := interactive
    have some' := hasAdmin_iff.mpr ⟨account, member, counted⟩
    obtain ⟨old, inAccounts, oldCounted, kept, inNext, keptCounted, sameKind⟩ :=
      perform_keeps (reachable_formed operations) operation some'
    rw [run_append]
    refine ⟨kept, inNext, ?_, keptCounted⟩
    rw [sameKind]
    cases kind : old.kind with
    | user => rfl
    | service =>
        have refused := noService old inAccounts kind
        rw [oldCounted] at refused
        cases refused

def serviceOperations : List Operation :=
  [.addAccount { name := "owner", role := .admin, password := some "p", recovery := true } "h",
    .createToken "automation" .admin]

theorem admin_remains_service :
    hasAdmin (run [] (serviceOperations ++ [.disable "owner", .disable "automation"])) = true :=
  admin_remains.1 serviceOperations [.disable "owner", .disable "automation"] (by decide)

/-- With a service administrator, the last interactive one can be disabled, and recovery is then
refused. -/
theorem interactive_admin_lost :
    (∃ account ∈ run [] serviceOperations, account.kind = .user ∧
        account.unlockedAdmin = true) ∧
      (¬ ∃ account ∈ run [] (serviceOperations ++ [.disable "owner"]), account.kind = .user ∧
        account.unlockedAdmin = true) ∧
      (addAccount (run [] (serviceOperations ++ [.disable "owner"]))
        { name := "second", role := .admin, password := some "p", recovery := true } "h").error =
        some .adminExists := by
  decide +kernel

end Accounts

end EtlCraft
