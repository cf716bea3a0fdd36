import Mathlib
import EtlCraft.LockCore
import EtlCraft.Runs

/-! Durable resource locks are mutually exclusive, for every order of takeovers, renewals,
releases and attempt changes. -/

namespace EtlCraft

theorem colon_not_digit (number : Nat) : ':' ∉ (Nat.repr number).toList := by
  intro member
  have digit : ':'.isDigit = true := by
    refine Nat.isDigit_of_mem_toDigits (b := 10) (n := number) (by decide) (by decide) ?_
    simpa [Nat.repr] using member
  exact absurd digit (by decide)

theorem prefix_unique {separator : Char} {left right after later : List Char}
    (leftFree : separator ∉ left) (rightFree : separator ∉ right)
    (same : left ++ separator :: after = right ++ separator :: later) : left = right := by
  rcases List.append_eq_append_iff.mp same with ⟨extra, isRight, rest⟩ | ⟨extra, isLeft, rest⟩
  · cases extra with
    | nil => simpa using isRight.symm
    | cons first others =>
        have isFirst : separator = first := (List.cons.inj rest).1
        exact absurd (by rw [isRight, isFirst]; simp) rightFree
  · cases extra with
    | nil => simpa using isLeft
    | cons first others =>
        have isFirst : separator = first := (List.cons.inj rest).1
        exact absurd (by rw [isLeft, isFirst]; simp) leftFree

theorem HolderId.text_injective : Function.Injective HolderId.text := by
  have attempt_ne_action : ∀ attemptId digest identity,
      (attempt attemptId digest).text ≠ (action identity).text := by
    intro attemptId digest identity same
    have chars := congrArg String.toList same
    simp [HolderId.text, String.toList_append] at chars
  intro first second same
  cases first with
  | attempt firstId firstDigest =>
      cases second with
      | attempt secondId secondDigest =>
          have rest := (String.append_right_inj _).mp same
          have chars := congrArg String.toList rest
          simp only [String.toList_append] at chars
          have sameDigits : (Nat.repr firstId).toList = (Nat.repr secondId).toList :=
            prefix_unique (colon_not_digit firstId) (colon_not_digit secondId) chars
          have sameId := String.toList_inj.mp sameDigits
          rw [sameId] at rest
          have sameDigest := (String.append_right_inj _).mp ((String.append_right_inj _).mp rest)
          rw [Nat.repr_injective sameId, sameDigest]
      | action identity => exact (attempt_ne_action _ _ _ same).elim
  | action identity =>
      cases second with
      | attempt secondId secondDigest => exact (attempt_ne_action _ _ _ same.symm).elim
      | action other => rw [(String.append_right_inj _).mp same]

namespace Ledger

theorem liveAttempt_spec {ledger : Ledger} {now : Int} {attemptId : Nat} {owner : String}
    {attempt : Attempt} (live : ledger.liveAttempt now attemptId owner = some attempt) :
    attempt ∈ ledger.attempts ∧ attempt.attemptId = attemptId ∧
      finishGuard now owner attempt = true := by
  have holds := List.find?_some live
  simp only [Bool.and_eq_true, decide_eq_true_eq] at holds
  exact ⟨List.mem_of_find?_eq_some live, holds⟩

end Ledger

def Ledger.Backs (ledger : Ledger) (now : Int) (lock : Lock) (attemptId : Nat) : Prop :=
  ∃ attempt ∈ ledger.attempts, attempt.attemptId = attemptId ∧
    attempt.ownerId = some lock.ownerId ∧ attempt.status.live = true ∧
    ∃ expires, attempt.leaseExpiresAt = some expires ∧ now < expires ∧
      lock.leaseExpiresAt ≤ expires

namespace LockTables

theorem lease_attempt {tables : LockTables} {now expires : Int} {holder : Holder} {attemptId : Nat}
    (isLease : tables.lease now holder = some expires) (bound : holder.attemptId = some attemptId) :
    now < expires ∧ ∃ attempt ∈ tables.ledger.attempts, attempt.attemptId = attemptId ∧
      attempt.ownerId = some holder.owner ∧ attempt.status.live = true ∧
      ∃ limit, attempt.leaseExpiresAt = some limit ∧ now < limit ∧ expires ≤ limit := by
  rw [lease, bound] at isLease
  obtain ⟨attempt, live, limited⟩ := Option.bind_eq_some_iff.mp isLease
  obtain ⟨limit, isLimit, rfl⟩ := Option.map_eq_some_iff.mp limited
  obtain ⟨member, sameId, guarded⟩ := Ledger.liveAttempt_spec live
  simp only [Ledger.finishGuard, Ledger.leased, isLimit, Option.any_some, Bool.and_eq_true,
    decide_eq_true_eq] at guarded
  obtain ⟨⟨isLive, owned⟩, later⟩ := guarded
  refine ⟨?_, attempt, member, sameId, owned, isLive, limit, isLimit, later, min_le_left _ _⟩
  have ahead : now < now + leaseTime := by
    unfold leaseTime
    omega
  exact lt_min later ahead

theorem lease_ahead {tables : LockTables} {now expires : Int} {holder : Holder}
    (isLease : tables.lease now holder = some expires) : now < expires := by
  cases bound : holder.attemptId with
  | some attemptId => exact (lease_attempt isLease bound).1
  | none =>
      rw [lease, bound] at isLease
      cases isLease
      unfold leaseTime
      omega

section Acquire

variable {tables : LockTables} {now expires : Int} {holder : Holder}
  {confirmed : Int → Option HolderId}

theorem upsert_cases {locks taken : List Lock} {resource : Int × String}
    (done : tables.upsert now expires holder confirmed locks resource = some taken) :
    (Keyed.lookup Lock.lockKey locks resource.1 = none ∧
      taken = locks ++ [granted now expires holder resource]) ∨
    ∃ old, Keyed.lookup Lock.lockKey locks resource.1 = some old ∧
      confirmed resource.1 = some old.holderId ∧ old.stale tables.ledger now = true ∧
      taken = Keyed.replace Lock.lockKey locks (granted now expires holder resource) := by
  unfold upsert at done
  split at done
  · rename_i absent
    cases done
    exact .inl ⟨absent, rfl⟩
  · rename_i old found
    split at done
    · rename_i passes
      simp only [Bool.and_eq_true, decide_eq_true_eq] at passes
      cases done
      exact .inr ⟨old, found, passes.1, passes.2, rfl⟩
    · cases done

theorem upsert_distinct {locks taken : List Lock} {resource : Int × String}
    (distinct : (locks.map Lock.lockKey).Nodup)
    (done : tables.upsert now expires holder confirmed locks resource = some taken) :
    (taken.map Lock.lockKey).Nodup := by
  rcases upsert_cases done with ⟨absent, rfl⟩ | ⟨old, _, _, _, rfl⟩
  · exact Keyed.distinct_append distinct absent
  · rwa [Keyed.keys_replace]

theorem mem_upsert {locks taken : List Lock} {resource : Int × String} {row : Lock}
    (done : tables.upsert now expires holder confirmed locks resource = some taken)
    (member : row ∈ taken) : row = granted now expires holder resource ∨ row ∈ locks := by
  rcases upsert_cases done with ⟨_, rfl⟩ | ⟨old, _, _, _, rfl⟩
  · rcases List.mem_append.mp member with kept | added
    · exact .inr kept
    · exact .inl (List.mem_singleton.mp added)
  · exact Keyed.mem_replace member

theorem granted_mem_upsert {locks taken : List Lock} {resource : Int × String}
    (done : tables.upsert now expires holder confirmed locks resource = some taken) :
    granted now expires holder resource ∈ taken := by
  rcases upsert_cases done with ⟨_, rfl⟩ | ⟨old, found, _, _, rfl⟩
  · simp
  · obtain ⟨member, same⟩ := Keyed.lookup_mem found
    exact Keyed.mem_replace_self member same

theorem upsert_kept {locks taken : List Lock} {resource : Int × String} {old : Lock}
    (distinct : (locks.map Lock.lockKey).Nodup)
    (done : tables.upsert now expires holder confirmed locks resource = some taken)
    (member : old ∈ locks) : old ∈ taken ∨
      (confirmed old.lockKey = some old.holderId ∧ old.stale tables.ledger now = true) := by
  rcases upsert_cases done with ⟨_, rfl⟩ | ⟨found, isFound, named, stale, rfl⟩
  · exact .inl (List.mem_append_left _ member)
  · by_cases same : old.lockKey = resource.1
    · obtain ⟨foundIn, foundKey⟩ := Keyed.lookup_mem isFound
      have isOld : found = old := Keyed.same_row distinct foundIn member (foundKey.trans same.symm)
      subst isOld
      exact .inr ⟨same ▸ named, stale⟩
    · exact .inl (Keyed.mem_replace_other member same)

theorem acquireRows_length (resources : List (Int × String)) (locks : List Lock) :
    (tables.acquireRows now expires holder confirmed resources locks).2.length ≤
      resources.length := by
  induction resources generalizing locks with
  | nil => exact Nat.le_refl _
  | cons resource rest ih =>
      rw [acquireRows]
      split
      · exact Nat.le_succ_of_le (ih locks)
      · exact Nat.succ_le_succ (ih _)

theorem acquireRows_distinct {resources : List (Int × String)} {locks : List Lock}
    (distinct : (locks.map Lock.lockKey).Nodup) :
    ((tables.acquireRows now expires holder confirmed resources locks).1.map
      Lock.lockKey).Nodup := by
  induction resources generalizing locks with
  | nil => exact distinct
  | cons resource rest ih =>
      rw [acquireRows]
      split
      · exact ih distinct
      · rename_i taken done
        exact ih (upsert_distinct distinct done)

theorem mem_acquireRows {resources : List (Int × String)} {locks : List Lock} {row : Lock}
    (member : row ∈ (tables.acquireRows now expires holder confirmed resources locks).1) :
    (∃ resource ∈ resources, row = granted now expires holder resource) ∨ row ∈ locks := by
  induction resources generalizing locks with
  | nil => exact .inr member
  | cons resource rest ih =>
      rw [acquireRows] at member
      split at member
      · rcases ih member with ⟨later, inRest, isRow⟩ | kept
        · exact .inl ⟨later, List.mem_cons_of_mem _ inRest, isRow⟩
        · exact .inr kept
      · rename_i taken done
        rcases ih member with ⟨later, inRest, isRow⟩ | kept
        · exact .inl ⟨later, List.mem_cons_of_mem _ inRest, isRow⟩
        · rcases mem_upsert done kept with isRow | inLocks
          · exact .inl ⟨resource, List.mem_cons_self, isRow⟩
          · exact .inr inLocks

theorem acquireRows_kept {resources : List (Int × String)} {locks : List Lock} {old : Lock}
    (distinct : (locks.map Lock.lockKey).Nodup) (member : old ∈ locks) :
    old ∈ (tables.acquireRows now expires holder confirmed resources locks).1 ∨
      (confirmed old.lockKey = some old.holderId ∧ old.stale tables.ledger now = true) := by
  induction resources generalizing locks with
  | nil => exact .inl member
  | cons resource rest ih =>
      rw [acquireRows]
      split
      · exact ih distinct member
      · rename_i taken done
        rcases upsert_kept distinct done member with kept | taken
        · exact ih (upsert_distinct distinct done) kept
        · exact .inr taken

def Held (now : Int) (holder : Holder) (locks : List Lock) (key : Int) : Prop :=
  ∃ row ∈ locks, row.lockKey = key ∧ row.holderId = holder.holderId ∧
    row.ownerId = holder.owner ∧ now < row.leaseExpiresAt

theorem granted_held {locks : List Lock} {resource : Int × String} (ahead : now < expires)
    (member : granted now expires holder resource ∈ locks) : Held now holder locks resource.1 :=
  ⟨_, member, rfl, rfl, rfl, ahead⟩

theorem upsert_held {locks taken : List Lock} {resource : Int × String} {key : Int}
    (ahead : now < expires) (held : Held now holder locks key)
    (done : tables.upsert now expires holder confirmed locks resource = some taken) :
    Held now holder taken key := by
  by_cases same : resource.1 = key
  · rw [← same]
    exact granted_held ahead (granted_mem_upsert done)
  · obtain ⟨row, member, isKey, mine⟩ := held
    refine ⟨row, ?_, isKey, mine⟩
    rcases upsert_cases done with ⟨_, rfl⟩ | ⟨old, _, _, _, rfl⟩
    · exact List.mem_append_left _ member
    · exact Keyed.mem_replace_other member fun equal => same (equal.symm.trans isKey)

theorem acquireRows_held {resources : List (Int × String)} {locks : List Lock} {key : Int}
    (ahead : now < expires) (held : Held now holder locks key) :
    Held now holder (tables.acquireRows now expires holder confirmed resources locks).1 key := by
  induction resources generalizing locks with
  | nil => exact held
  | cons resource rest ih =>
      rw [acquireRows]
      split
      · exact ih held
      · rename_i taken done
        exact ih (upsert_held ahead held done)

theorem acquireRows_whole {resources : List (Int × String)} {locks : List Lock}
    (ahead : now < expires)
    (whole : (tables.acquireRows now expires holder confirmed resources locks).2.length =
      resources.length) :
    ∀ resource ∈ resources, Held now holder
      (tables.acquireRows now expires holder confirmed resources locks).1 resource.1 := by
  induction resources generalizing locks with
  | nil => intro resource member; cases member
  | cons resource rest ih =>
      have short := @acquireRows_length tables now expires holder confirmed rest locks
      rw [acquireRows] at whole ⊢
      split at whole
      · rw [List.length_cons] at whole
        omega
      · rename_i taken done
        intro wanted member
        rcases List.mem_cons.mp member with isFirst | inRest
        · rw [isFirst]
          exact acquireRows_held ahead (granted_held ahead (granted_mem_upsert done))
        · exact ih (Nat.succ.inj whole) wanted inRest

end Acquire

section Operations

variable {tables : LockTables} {now : Int} {holder : Holder}

theorem reserve_cases (tables : LockTables) (now : Int) (resources : List (Int × String))
    (holder : Holder) (confirmed : Int → Option HolderId) :
    (tables.reserve now resources holder confirmed).1 = tables ∨
      ∃ expires, tables.lease now holder = some expires ∧
        (tables.acquireRows now expires holder confirmed resources tables.locks).2.length =
          resources.length ∧
        (tables.reserve now resources holder confirmed).1 = { tables with
          locks := (tables.acquireRows now expires holder confirmed resources tables.locks).1 } := by
  unfold reserve acquire
  cases isLease : tables.lease now holder with
  | none => exact .inl (by dsimp only; split <;> rfl)
  | some expires =>
      dsimp only
      split
      · rename_i whole
        exact .inr ⟨expires, rfl, whole, rfl⟩
      · exact .inl rfl

theorem renew_cases (tables : LockTables) (now : Int) (keys : List Int) (holder : Holder) :
    tables.renew now keys holder = tables ∨
      ∃ expires, tables.lease now holder = some expires ∧
        tables.renew now keys holder =
          { tables with locks := tables.locks.map (renewed now expires keys holder) } := by
  unfold renew
  cases isLease : tables.lease now holder with
  | none => exact .inl rfl
  | some expires =>
      dsimp only
      split
      · exact .inr ⟨expires, rfl, rfl⟩
      · exact .inl rfl

theorem renew_keeps {keys : List Int} {row : Lock} (member : row ∈ tables.locks)
    (refused : renewable now keys holder row = false) :
    row ∈ (tables.renew now keys holder).locks := by
  rcases renew_cases tables now keys holder with same | ⟨expires, _, same⟩
  · rwa [same]
  · rw [same]
    refine List.mem_map.mpr ⟨row, member, ?_⟩
    rw [renewed, refused]
    rfl

theorem renewable_iff {keys : List Int} {row : Lock} : renewable now keys holder row = true ↔
    row.lockKey ∈ keys ∧ row.holderId = holder.holderId ∧ row.ownerId = holder.owner ∧
      now < row.leaseExpiresAt := by
  simp [renewable, and_assoc]

end Operations

end LockTables

structure LockTables.Sound (tables : LockTables) : Prop where
  distinct : (tables.locks.map Lock.lockKey).Nodup
  bound : ∀ row ∈ tables.locks, row.attemptId = row.holderId.attemptId

namespace LockTables

theorem Sound.reserve {tables : LockTables} (sound : tables.Sound) (now : Int)
    (resources : List (Int × String)) (holder : Holder) (confirmed : Int → Option HolderId) :
    (tables.reserve now resources holder confirmed).1.Sound := by
  rcases reserve_cases tables now resources holder confirmed with same | ⟨expires, _, _, same⟩
  · rwa [same]
  · rw [same]
    refine ⟨acquireRows_distinct sound.distinct, fun row member => ?_⟩
    rcases mem_acquireRows member with ⟨resource, _, rfl⟩ | kept
    · exact holder.bound
    · exact sound.bound row kept

theorem renewed_same (now expires : Int) (keys : List Int) (holder : Holder) (row : Lock) :
    (renewed now expires keys holder row).lockKey = row.lockKey ∧
      (renewed now expires keys holder row).holderId = row.holderId ∧
      (renewed now expires keys holder row).ownerId = row.ownerId ∧
      (renewed now expires keys holder row).attemptId = row.attemptId := by
  unfold renewed
  split <;> exact ⟨rfl, rfl, rfl, rfl⟩

theorem Sound.renew {tables : LockTables} (sound : tables.Sound) (now : Int) (keys : List Int)
    (holder : Holder) : (tables.renew now keys holder).Sound := by
  rcases renew_cases tables now keys holder with same | ⟨expires, _, same⟩
  · rwa [same]
  · rw [same]
    have sameFields := renewed_same now expires keys holder
    refine ⟨?_, fun row member => ?_⟩
    · have keysKept : (Lock.lockKey ∘ renewed now expires keys holder) = Lock.lockKey :=
        funext fun row => (sameFields row).1
      rw [List.map_map, keysKept]
      exact sound.distinct
    · obtain ⟨old, inLocks, rfl⟩ := List.mem_map.mp member
      rw [(sameFields old).2.1, (sameFields old).2.2.2]
      exact sound.bound old inLocks

theorem Sound.release {tables : LockTables} (sound : tables.Sound) (keys : List Int)
    (holder : Holder) : (tables.release keys holder).Sound where
  distinct := sound.distinct.sublist (List.filter_sublist.map _)
  bound row member := sound.bound row (List.mem_of_mem_filter member)

theorem Sound.step {tables next : LockTables} {event : LockEvent} (sound : tables.Sound)
    (taken : tables.step event = some next) : next.Sound := by
  cases event with
  | reserve now resources holder confirmed =>
      cases taken
      exact sound.reserve now resources holder confirmed
  | renew now keys holder =>
      cases taken
      exact sound.renew now keys holder
  | release keys holder =>
      cases taken
      exact sound.release keys holder
  | attempt event =>
      obtain ⟨ledger, _, rfl⟩ := Option.map_eq_some_iff.mp taken
      exact ⟨sound.distinct, sound.bound⟩

end LockTables

structure LockTables.Exclusive (tables : LockTables) : Prop where
  oneHolder : (tables.locks.map Lock.lockKey).Nodup
  handed : ∀ event next old new, tables.step event = some next → old ∈ tables.locks →
    new ∈ next.locks → new.lockKey = old.lockKey →
    (new.holderId ≠ old.holderId ∨ new.ownerId ≠ old.ownerId) →
    ∃ now resources holder confirmed, event = .reserve now resources holder confirmed ∧
      old.stale tables.ledger now = true ∧ confirmed old.lockKey = some old.holderId ∧
      new.holderId = holder.holderId ∧ new.ownerId = holder.owner
  renewedByOther : ∀ now keys holder row, row ∈ tables.locks →
    (row.holderId ≠ holder.holderId ∨ row.ownerId ≠ holder.owner) →
    row ∈ (tables.renew now keys holder).locks
  releasedByOther : ∀ keys holder row, row ∈ tables.locks →
    (row.holderId ≠ holder.holderId ∨ row.ownerId ≠ holder.owner) →
    row ∈ (tables.release keys holder).locks
  expired : ∀ now keys holder row, row ∈ tables.locks → row.leaseExpiresAt ≤ now →
    row ∈ (tables.renew now keys holder).locks
  backed : ∀ event next row attemptId, tables.step event = some next → row ∈ next.locks →
    row ∉ tables.locks → row.attemptId = some attemptId →
    ∃ now, ((∃ resources holder confirmed, event = .reserve now resources holder confirmed) ∨
        ∃ keys holder, event = .renew now keys holder) ∧
      next.ledger = tables.ledger ∧ next.ledger.Backs now row attemptId
  whole : ∀ now resources holder confirmed,
    (∀ resource ∈ resources, LockTables.Held now holder
      (tables.reserve now resources holder confirmed).1.locks resource.1) ∨
    (tables.reserve now resources holder confirmed).1 = tables

namespace LockTables

theorem not_renewable {now : Int} {keys : List Int} {holder : Holder} {row : Lock}
    (other : row.holderId ≠ holder.holderId ∨ row.ownerId ≠ holder.owner ∨
      row.leaseExpiresAt ≤ now) : renewable now keys holder row = false := by
  refine Bool.eq_false_iff.mpr fun renews => ?_
  obtain ⟨_, sameHolder, sameOwner, ahead⟩ := renewable_iff.mp renews
  rcases other with different | different | ended
  · exact different sameHolder
  · exact different sameOwner
  · omega

theorem released_mine {keys : List Int} {holder : Holder} {row : Lock}
    (other : row.holderId ≠ holder.holderId ∨ row.ownerId ≠ holder.owner) :
    released keys holder row = false := by
  refine Bool.eq_false_iff.mpr fun frees => ?_
  simp only [released, Bool.and_eq_true, decide_eq_true_eq] at frees
  rcases other with different | different
  · exact different frees.1.2
  · exact different frees.2

theorem Sound.handed {tables next : LockTables} {event : LockEvent} {old new : Lock}
    (sound : tables.Sound) (taken : tables.step event = some next) (before : old ∈ tables.locks)
    (after : new ∈ next.locks) (sameKey : new.lockKey = old.lockKey)
    (changed : new.holderId ≠ old.holderId ∨ new.ownerId ≠ old.ownerId) :
    ∃ now resources holder confirmed, event = .reserve now resources holder confirmed ∧
      old.stale tables.ledger now = true ∧ confirmed old.lockKey = some old.holderId ∧
      new.holderId = holder.holderId ∧ new.ownerId = holder.owner := by
  have unchanged : ∀ row ∈ tables.locks, row.lockKey = old.lockKey → row.holderId = new.holderId →
      row.ownerId = new.ownerId → False := by
    intro row member isKey sameHolder sameOwner
    have isOld := Keyed.same_row sound.distinct member before isKey
    subst isOld
    rcases changed with different | different
    · exact different sameHolder.symm
    · exact different sameOwner.symm
  have nextSound := sound.step taken
  cases event with
  | reserve now resources holder confirmed =>
      cases taken
      refine ⟨now, resources, holder, confirmed, rfl, ?_⟩
      rcases reserve_cases tables now resources holder confirmed with same | ⟨expires, _, _, same⟩
      · rw [same] at after
        exact (unchanged new after sameKey rfl rfl).elim
      · rw [same] at after nextSound
        rcases mem_acquireRows after with ⟨resource, _, isNew⟩ | kept
        · have held : new.holderId = holder.holderId ∧ new.ownerId = holder.owner := by
            rw [isNew]
            exact ⟨rfl, rfl⟩
          rcases acquireRows_kept sound.distinct before with stays | ⟨named, stale⟩
          · have isOld : new = old := Keyed.same_row nextSound.distinct after stays sameKey
            exact (unchanged old before rfl (by rw [isOld]) (by rw [isOld])).elim
          · exact ⟨stale, named, held⟩
        · exact (unchanged new kept sameKey rfl rfl).elim
  | renew now keys holder =>
      cases taken
      rcases renew_cases tables now keys holder with same | ⟨expires, _, same⟩
      · rw [same] at after
        exact (unchanged new after sameKey rfl rfl).elim
      · rw [same] at after
        obtain ⟨row, member, rfl⟩ := List.mem_map.mp after
        obtain ⟨isKey, isHolder, isOwner, _⟩ := renewed_same now expires keys holder row
        exact (unchanged row member (isKey.symm.trans sameKey) isHolder.symm isOwner.symm).elim
  | release keys holder =>
      cases taken
      exact (unchanged new (List.mem_of_mem_filter after) sameKey rfl rfl).elim
  | attempt event =>
      obtain ⟨ledger, _, rfl⟩ := Option.map_eq_some_iff.mp taken
      exact (unchanged new after sameKey rfl rfl).elim

theorem Sound.backed {tables next : LockTables} {event : LockEvent} {row : Lock} {attemptId : Nat}
    (sound : tables.Sound) (taken : tables.step event = some next) (after : row ∈ next.locks)
    (changed : row ∉ tables.locks) (bound : row.attemptId = some attemptId) :
    ∃ now, ((∃ resources holder confirmed, event = .reserve now resources holder confirmed) ∨
        ∃ keys holder, event = .renew now keys holder) ∧
      next.ledger = tables.ledger ∧ next.ledger.Backs now row attemptId := by
  cases event with
  | reserve now resources holder confirmed =>
      cases taken
      refine ⟨now, .inl ⟨resources, holder, confirmed, rfl⟩, ?_⟩
      rcases reserve_cases tables now resources holder confirmed with same | ⟨expires, lease, _, same⟩
      · rw [same] at after
        exact (changed after).elim
      · rw [same] at after ⊢
        refine ⟨rfl, ?_⟩
        rcases mem_acquireRows after with ⟨resource, _, rfl⟩ | kept
        · obtain ⟨_, attempt, member, sameId, owned, live, limit, isLimit, ahead, within⟩ :=
            lease_attempt lease bound
          exact ⟨attempt, member, sameId, owned, live, limit, isLimit, ahead, within⟩
        · exact (changed kept).elim
  | renew now keys holder =>
      cases taken
      refine ⟨now, .inr ⟨keys, holder, rfl⟩, ?_⟩
      rcases renew_cases tables now keys holder with same | ⟨expires, lease, same⟩
      · rw [same] at after
        exact (changed after).elim
      · rw [same] at after ⊢
        refine ⟨rfl, ?_⟩
        obtain ⟨old, member, rfl⟩ := List.mem_map.mp after
        cases renews : renewable now keys holder old with
        | false =>
            refine (changed ?_).elim
            rwa [renewed, renews]
        | true =>
            obtain ⟨_, sameHolder, sameOwner, _⟩ := renewable_iff.mp renews
            have isRow : renewed now expires keys holder old =
                { old with leaseExpiresAt := expires } := if_pos renews
            rw [isRow] at bound ⊢
            have holds : holder.attemptId = some attemptId := by
              rw [holder.bound, ← sameHolder, ← sound.bound old member]
              exact bound
            obtain ⟨_, attempt, inLedger, sameId, owned, live, limit, isLimit, ahead, within⟩ :=
              lease_attempt lease holds
            exact ⟨attempt, inLedger, sameId, by rw [owned, ← sameOwner], live, limit, isLimit,
              ahead, within⟩
  | release keys holder =>
      cases taken
      exact (changed (List.mem_of_mem_filter after)).elim
  | attempt event =>
      obtain ⟨ledger, _, rfl⟩ := Option.map_eq_some_iff.mp taken
      exact (changed after).elim

theorem reserve_whole (tables : LockTables) (now : Int) (resources : List (Int × String))
    (holder : Holder) (confirmed : Int → Option HolderId) :
    (∀ resource ∈ resources,
      Held now holder (tables.reserve now resources holder confirmed).1.locks resource.1) ∨
    (tables.reserve now resources holder confirmed).1 = tables := by
  rcases reserve_cases tables now resources holder confirmed with same | ⟨_, lease, whole, same⟩
  · exact .inr same
  · refine .inl fun resource member => ?_
    rw [same]
    exact acquireRows_whole (lease_ahead lease) whole resource member

theorem Sound.exclusive {tables : LockTables} (sound : tables.Sound) : tables.Exclusive where
  oneHolder := sound.distinct
  handed _ _ _ _ taken before after sameKey changed :=
    sound.handed taken before after sameKey changed
  renewedByOther now keys holder row member other := by
    refine renew_keeps member (not_renewable ?_)
    exact other.imp_right .inl
  releasedByOther keys holder row member other := by
    refine List.mem_filter.mpr ⟨member, ?_⟩
    rw [released_mine other]
    rfl
  expired now keys holder row member ended :=
    renew_keeps member (not_renewable (.inr (.inr ended)))
  backed _ _ _ _ taken after changed bound := sound.backed taken after changed bound
  whole := reserve_whole tables

theorem exec_sound {ledger : Ledger} {events : List LockEvent} {tables : LockTables}
    (run : Runs.exec LockTables.step { ledger } events = some tables) : tables.Sound := by
  refine Runs.exec_invariant Sound ?_ ?_ run
  · intro state event next sound taken
    exact sound.step taken
  · exact ⟨List.nodup_nil, fun _ member => nomatch member⟩

/-- Locks stay exclusive over every interleaving of reservations, renewals, releases and attempt
changes, from any ledger and no lock. -/
theorem locks_exclusive (ledger : Ledger) (events : List LockEvent) (tables : LockTables)
    (run : Runs.exec LockTables.step { ledger } events = some tables) : tables.Exclusive :=
  (exec_sound run).exclusive

/-- An attempt's lock, taken over by an action once the attempt was cancelled. -/
def takeoverEvents : List LockEvent :=
  [.attempt (.bind 0 0), .attempt (.queue 0 none none),
    .attempt (.claim 0 0 "controller" 100000000 true),
    .reserve 1 [(7, "orders")] ⟨.attempt 0 "5e88", "controller", some 0, rfl⟩ fun _ => none,
    .attempt (.cancel 2 0),
    .reserve 3 [(7, "orders")] ⟨.action "clone", "clone", none, rfl⟩
      fun _ => some (.attempt 0 "5e88"),
    .release [7] ⟨.attempt 0 "5e88", "controller", some 0, rfl⟩]

theorem locks_exclusive_takeover :
    ∃ tables, Runs.exec LockTables.step { ledger := { runStatus := fun _ => .inProgress } }
      takeoverEvents = some tables ∧ tables.locks.map Lock.holderId = [.action "clone"] ∧
        tables.Exclusive := by
  obtain ⟨tables, run, held⟩ := (Option.any_eq_true
    (fun tables : LockTables => decide (tables.locks.map Lock.holderId = [.action "clone"])) _).mp
    (by decide +kernel : (Runs.exec LockTables.step
      { ledger := { runStatus := fun _ => .inProgress } } takeoverEvents).any _ = true)
  exact ⟨tables, run, of_decide_eq_true held, locks_exclusive _ _ tables run⟩

end LockTables

end EtlCraft
