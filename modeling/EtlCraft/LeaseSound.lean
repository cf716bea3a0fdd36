import EtlCraft.AgentLeases
import EtlCraft.AttemptLifecycle
import EtlCraft.LeaseRows

/-! The invariant of the agents' leases: who may count on an attempt, and until when. The
transitions of the ledger and the changes of one agent or one task keep it. -/

namespace EtlCraft

namespace Leases

variable {ledger : Ledger} {owner : String} {attemptId : Nat} {holds : Attempt → Prop}

/-! ## The invariant -/

def Capped (world : World) (attempt : Attempt) : Prop :=
  ∀ owner, attempt.ownerId = some owner → (world.agents owner).isSome = true →
    ∀ lease, attempt.leaseExpiresAt = some lease → lease ≤ world.now + leaseTime

/-- Somebody counts on the attempt: its task runs, or its claim's reply is on its way. -/
def Expected (world : World) (attemptId : Nat) : Prop :=
  (∃ task ∈ world.tasks, task.attemptId = attemptId ∧ task.engaged = true) ∨
    ∃ owner agent claim budget, world.agents owner = some agent ∧ agent.claiming = some claim ∧
      claim.reply = some (attemptId, budget)

structure TaskSound (lag drift : Int) (world : World) (task : Task) : Prop where
  registered : (world.agents task.owner).isSome = true
  clock : task.orphan = false →
    ∃ agent, world.agents task.owner = some agent ∧ agent.clock = task.clock
  row : Row world.ledger task.owner task.attemptId fun _ => True
  held : task.engaged = true → Row world.ledger task.owner task.attemptId
    (Held (world.now + drift) (task.deadline - task.clock + fenceMargin))
  awake : task.awake lag world.now = true
  past : ∀ since checked admitted, task.stage = .running since checked admitted →
    since ≤ world.now
  live : ∀ since time admitted, task.stage = .running since (some time) admitted →
    Row world.ledger task.owner task.attemptId (Live (time + fenceMargin))
  admitted : ∀ since checked, task.stage = .running since checked true →
    Row world.ledger task.owner task.attemptId (Leased (since < ·))

structure ClaimSound (drift : Int) (world : World) (owner : String) (agent : Agent)
    (claim : Claim) : Prop where
  sent : claim.started ≤ world.now + agent.clock
  held : ∀ attemptId budget, claim.reply = some (attemptId, budget) →
    Row world.ledger owner attemptId
      (Held (world.now + drift) (claim.started - agent.clock + budget))
  fresh : ∀ attemptId budget, claim.reply = some (attemptId, budget) →
    ∀ task ∈ world.tasks, task.attemptId ≠ attemptId

structure RenewalSound (drift : Int) (world : World) (owner : String) (agent : Agent)
    (renewal : Renewal) : Prop where
  sent : renewal.started ≤ world.now + agent.clock
  known : ∀ attemptId ∈ renewal.attempts, ∃ task ∈ world.tasks, task.attemptId = attemptId
  subset : ∀ renewed, renewal.renewed = some renewed → ∀ attemptId ∈ renewed,
    attemptId ∈ renewal.attempts
  held : ∀ renewed, renewal.renewed = some renewed → ∀ task ∈ world.tasks,
    task.owner = owner → task.orphan = false → task.engaged = true → task.attemptId ∈ renewed →
    Row world.ledger owner task.attemptId
      (Held (world.now + drift) (renewal.started - agent.clock + leaseTime))

structure Sound (lag drift : Int) (world : World) : Prop where
  rows : world.ledger.Consistent
  capped : ∀ attempt ∈ world.ledger.attempts, Capped world attempt
  distinct : world.tasks.Pairwise (·.attemptId ≠ ·.attemptId)
  tasks : ∀ task ∈ world.tasks, TaskSound lag drift world task
  claims : ∀ owner agent claim, world.agents owner = some agent → agent.claiming = some claim →
    ClaimSound drift world owner agent claim
  renewals : ∀ owner agent renewal, world.agents owner = some agent →
    agent.renewing = some renewal → RenewalSound drift world owner agent renewal

variable {lag drift : Int} {world : World}

theorem Sound.expected (sound : Sound lag drift world) {attempt : Attempt}
    (member : attempt ∈ world.ledger.attempts) (expected : Expected world attempt.attemptId) :
    ∃ owner bound, (world.agents owner).isSome = true ∧ attempt.ownerId = some owner ∧
      Held (world.now + drift) bound attempt := by
  have found : ∃ owner bound, (world.agents owner).isSome = true ∧
      Row world.ledger owner attempt.attemptId (Held (world.now + drift) bound) := by
    rcases expected with ⟨task, known, same, engaged⟩ | ⟨owner, agent, claim, budget, is, has, reply⟩
    · rw [← same]
      exact ⟨_, _, (sound.tasks task known).registered, (sound.tasks task known).held engaged⟩
    · exact ⟨owner, _, by simp [is], (sound.claims owner agent claim is has).held _ _ reply⟩
  obtain ⟨owner, bound, registered, other, otherIn, same, owned, _, held⟩ := found
  obtain rfl := sound.rows.unique otherIn member same
  exact ⟨owner, bound, registered, owned, held⟩

theorem distinct_cases {tasks : List Task} (distinct : tasks.Pairwise (·.attemptId ≠ ·.attemptId))
    {first second : Task} (firstIn : first ∈ tasks) (secondIn : second ∈ tasks) :
    first = second ∨ first.attemptId ≠ second.attemptId := by
  rcases pairwise_cases distinct firstIn secondIn with equal | apart | apart
  · exact Or.inl equal
  · exact Or.inr apart
  · exact Or.inr apart.symm

/-! ## Transitions of the ledger -/

def Keeps (drift : Int) (world : World) (event : AttemptEvent) : Prop :=
  ∀ before ∈ world.ledger.attempts, ∀ after, Ledger.Touch event before after →
    (Expected world before.attemptId → Later (world.now + drift) before after) ∧
      Capped world after

theorem leased_false {now : Int} {attempt : Attempt} (expired : Ledger.leased now attempt = false)
    {lease : Int} (isLease : attempt.leaseExpiresAt = some lease) : lease ≤ now := by
  simpa [Ledger.leased, isLease] using expired

theorem recordFailure_later {limit bound : Int} {attempt : Attempt} (held : Held limit bound attempt)
    (kind : FailureClass) (source : String) (overwrite : Bool) :
    Later limit attempt (Ledger.recordFailure kind source overwrite attempt) := by
  obtain ⟨_, _, _, live | lost⟩ := held
  · have kept := Ledger.recordFailure_kept kind source overwrite attempt
    refine .live live (by rw [kept.2.2.2.1, live]) fun lease isLease => ?_
    exact ⟨lease, (Ledger.recordFailure_lease _ _ _ _).trans isLease, le_refl _⟩
  · refine .same ?_
    simp [Ledger.recordFailure, lost.1, AttemptStatus.active]

theorem Capped.keep {before after : Attempt} (capped : Capped world before)
    (owner : after.ownerId = before.ownerId)
    (lease : after.leaseExpiresAt = before.leaseExpiresAt) : Capped world after := by
  intro other isOwner registered time isTime
  exact capped other (owner ▸ isOwner) registered time (lease ▸ isTime)

theorem endingFailure_lease (status : AttemptStatus) (retryable : Bool) (attempt : Attempt) :
    (Ledger.endingFailure status retryable attempt).leaseExpiresAt = attempt.leaseExpiresAt := by
  unfold Ledger.endingFailure
  split <;> first | exact Ledger.recordFailure_lease _ _ _ _ | rfl

theorem Sound.permitted (sound : Sound lag drift world) {event : AttemptEvent}
    (permitted : world.permits drift event = true) : Keeps drift world event := by
  intro before member after touched
  have stays := sound.capped before member
  cases touched with
  | claim guarded =>
      constructor
      · intro expected
        obtain ⟨_, _, _, _, held⟩ := sound.expected member expected
        simp only [Ledger.claimGuard, Bool.and_eq_true, decide_eq_true_eq] at guarded
        exact absurd guarded.1.1 held.taken
      · intro other isOwner registered time isTime
        obtain rfl := Option.some.inj isOwner
        obtain rfl := Option.some.inj isTime
        simp only [World.permits, Bool.or_eq_true, decide_eq_true_eq] at permitted
        rcases permitted with absent | granted
        · rw [Option.isNone_iff_eq_none.mp absent] at registered
          cases registered
        · exact granted.le
  | start guarded =>
      simp only [Ledger.startGuard, Bool.and_eq_true, decide_eq_true_eq] at guarded
      refine ⟨fun _ => .live (by rw [guarded.1.1]; rfl) rfl ?_, stays.keep rfl rfl⟩
      exact fun lease isLease => ⟨lease, isLease, le_refl _⟩
  | @renew now lease owner _ guarded =>
      simp only [Ledger.finishGuard, Bool.and_eq_true, decide_eq_true_eq] at guarded
      simp only [World.permits, Bool.or_eq_true, Bool.and_eq_true, decide_eq_true_eq] at permitted
      constructor
      · intro expected
        obtain ⟨other, _, registered, owned, _⟩ := sound.expected member expected
        obtain rfl := Option.some.inj (owned.symm.trans guarded.1.2)
        rcases permitted with absent | ⟨_, granted⟩
        · rw [Option.isNone_iff_eq_none.mp absent] at registered
          cases registered
        · refine .live guarded.1.1 guarded.1.1 fun time isTime => ⟨lease, rfl, ?_⟩
          rw [granted]
          exact stays _ owned registered time isTime
      · intro other isOwner registered time isTime
        obtain rfl := Option.some.inj isTime
        obtain rfl := Option.some.inj (guarded.1.2.symm.trans isOwner)
        rcases permitted with absent | ⟨_, granted⟩
        · rw [Option.isNone_iff_eq_none.mp absent] at registered
          cases registered
        · exact granted.le
  | fail =>
      refine ⟨fun expected => ?_, stays.keep (Ledger.recordFailure_kept _ _ _ _).2.2.2.2
        (Ledger.recordFailure_lease _ _ _ _)⟩
      obtain ⟨_, _, _, _, held⟩ := sound.expected member expected
      exact recordFailure_later held _ _ _
  | finish final guarded =>
      simp only [Ledger.finishGuard, Bool.and_eq_true, decide_eq_true_eq] at guarded
      refine ⟨fun expected => ?_, stays.keep (Ledger.endingFailure_kept _ _ _).2.2.2.2
        (endingFailure_lease _ _ _)⟩
      obtain ⟨other, _, registered, owned, _⟩ := sound.expected member expected
      obtain rfl := Option.some.inj (owned.symm.trans guarded.1.2)
      simp only [World.permits] at permitted
      rw [Option.isNone_iff_eq_none.mp permitted] at registered
      cases registered
  | timeOut guarded =>
      simp only [Ledger.timeOutGuard, Bool.and_eq_true, decide_eq_true_eq] at guarded
      refine ⟨fun expected => ?_, stays.keep (Ledger.endingFailure_kept .timedOut true _).2.2.2.2
        (endingFailure_lease .timedOut true _)⟩
      obtain ⟨other, _, registered, owned, _⟩ := sound.expected member expected
      obtain rfl := Option.some.inj (owned.symm.trans guarded.1.2)
      simp only [World.permits] at permitted
      rw [Option.isNone_iff_eq_none.mp permitted] at registered
      cases registered
  | cancel guarded =>
      refine ⟨fun expected => ?_, stays.keep rfl rfl⟩
      obtain ⟨owner, _, registered, owned, held⟩ := sound.expected member expected
      have allowed := List.all_eq_true.mp permitted before member
      simp only [ne_eq, not_true_eq_false, decide_false, Bool.false_or, owned, Option.all_some,
        Bool.or_eq_true, decide_eq_true_eq] at allowed
      rcases allowed with queued | absent
      · exact absurd queued held.taken
      · rw [Option.isNone_iff_eq_none.mp absent] at registered
        cases registered
  | lose guarded =>
      simp only [Ledger.loseGuard, Bool.and_eq_true, Bool.not_eq_true', decide_eq_true_eq] at guarded
      simp only [World.permits, decide_eq_true_eq] at permitted
      refine ⟨fun _ => .lost guarded.1.1 rfl ?_ (endingFailure_lease .lost true _),
        stays.keep (Ledger.endingFailure_kept .lost true _).2.2.2.2 (endingFailure_lease .lost true _)⟩
      exact fun lease isLease => (leased_false guarded.1.2 isLease).trans permitted

theorem Sound.reports (sound : Sound lag drift world) {task : Task} (member : task ∈ world.tasks)
    (exited : task.stage = .exited) {now : Int} {status : AttemptStatus} {counts : Counts}
    {retryable : Bool} :
    Keeps drift world (.finish now task.attemptId status task.owner counts retryable) := by
  intro before beforeIn after touched
  generalize isEvent : AttemptEvent.finish now task.attemptId status task.owner counts retryable =
    event at touched
  cases touched with
  | finish final guarded =>
      obtain ⟨rfl, same, rfl, rfl, rfl, rfl⟩ := AttemptEvent.finish.inj isEvent
      refine ⟨fun expected => ?_, (sound.capped before beforeIn).keep
        (Ledger.endingFailure_kept _ _ _).2.2.2.2 (endingFailure_lease _ _ _)⟩
      rcases expected with ⟨other, otherIn, isOther, engaged⟩ | ⟨_, _, _, _, is, has, reply⟩
      · obtain rfl | apart := distinct_cases sound.distinct otherIn member
        · simp [Task.engaged, exited] at engaged
        · exact absurd (isOther.trans same.symm) apart
      · exact absurd same ((sound.claims _ _ _ is has).fresh _ _ reply task member)
  | _ => cases isEvent

theorem Task.engaged_running {task : Task} {since : Int} {checked : Option Int} {admitted : Bool}
    (running : task.stage = .running since checked admitted) : task.engaged = true := by
  simp [Task.engaged, running]

theorem TaskSound.early {task : Task} (sound : TaskSound lag drift world task)
    (within : lag + drift ≤ fenceMargin) {since time : Int} {admitted : Bool}
    (running : task.stage = .running since (some time) admitted) :
    world.now + drift ≤ time + fenceMargin := by
  have awake := sound.awake
  simp only [Task.awake, running, Option.getD_some, decide_eq_true_eq] at awake
  omega

theorem Row.expected {next : Ledger} {event : AttemptEvent}
    (rows : Ledger.Rows event world.ledger.attempts next.attempts) (keeps : Keeps drift world event)
    (expected : Expected world attemptId)
    (later : ∀ before after, Later (world.now + drift) before after → holds before → holds after)
    (row : Row world.ledger owner attemptId holds) : Row next owner attemptId holds := by
  refine row.step rows fun before member same after touched => ?_
  exact later before after ((keeps before member after touched).1 (same ▸ expected))

theorem Sound.commits (within : lag + drift ≤ fenceMargin) (sound : Sound lag drift world)
    {event : AttemptEvent} (keeps : Keeps drift world event) {ledger : Ledger}
    (taken : world.ledger.step event = some ledger) : Sound lag drift { world with ledger } := by
  have rows := Ledger.step_rows sound.rows.toNumbered taken
  refine ⟨(Ledger.step_effect sound.rows.toNumbered taken).consistent sound.rows, ?_,
    sound.distinct, ?_, ?_, ?_⟩
  · obtain ⟨moved, added, equal, each, unowned⟩ := rows
    intro attempt member
    rw [equal] at member
    rcases List.mem_append.mp member with old | new
    · obtain ⟨before, beforeIn, rfl⟩ := List.mem_map.mp old
      rcases each before beforeIn with kept | touched
      · rw [kept]
        exact sound.capped before beforeIn
      · exact (keeps before beforeIn _ touched).2
    · intro owner isOwner
      rw [unowned attempt new] at isOwner
      cases isOwner
  · intro task member
    have before := sound.tasks task member
    have expected : task.engaged = true → Expected world task.attemptId :=
      fun engaged => Or.inl ⟨task, member, rfl, engaged⟩
    refine ⟨before.registered, before.clock, ?_, ?_, before.awake, before.past, ?_, ?_⟩
    · exact before.row.step rows fun _ _ _ _ _ _ => trivial
    · intro engaged
      exact Row.expected rows keeps (expected engaged) (fun _ _ later => later.held) (before.held engaged)
    · intro since time admitted running
      exact Row.expected rows keeps (expected (Task.engaged_running running))
        (fun _ _ later live => later.alive live (before.early within running))
        (before.live since time admitted running)
    · intro since checked running
      exact Row.expected rows keeps (expected (Task.engaged_running running))
        (fun _ _ later => later.above)
        (before.admitted since checked running)
  · intro owner agent claim is has
    have before := sound.claims owner agent claim is has
    refine ⟨before.sent, fun attemptId budget reply => ?_, before.fresh⟩
    exact Row.expected rows keeps (Or.inr ⟨owner, agent, claim, budget, is, has, reply⟩)
      (fun _ _ later => later.held) (before.held attemptId budget reply)
  · intro owner agent renewal is has
    have before := sound.renewals owner agent renewal is has
    refine ⟨before.sent, before.known, before.subset, ?_⟩
    intro renewed isRenewed task member isOwner adopted engaged listed
    exact Row.expected rows keeps (Or.inl ⟨task, member, rfl, engaged⟩)
      (fun _ _ later => later.held)
      (before.held renewed isRenewed task member isOwner adopted engaged listed)

/-! ## The other steps -/

theorem Sound.passes (sound : Sound lag drift world) (time : Nat)
    (awake : world.tasks.all (Task.awake lag (world.now + time)) = true) :
    Sound lag drift { world with now := world.now + time } := by
  have grows : world.now + drift ≤ world.now + time + drift := by omega
  refine ⟨sound.rows, ?_, sound.distinct, ?_, ?_, ?_⟩
  · intro attempt member owner isOwner registered lease isLease
    have := sound.capped attempt member owner isOwner registered lease isLease
    simp only
    omega
  · intro task member
    have before := sound.tasks task member
    refine ⟨before.registered, before.clock, before.row, fun engaged => ?_,
      List.all_eq_true.mp awake task member, fun since checked admitted running => ?_,
      before.live, before.admitted⟩
    · exact (before.held engaged).imp fun _ held => held.mono grows
    · have := before.past since checked admitted running
      simp only
      omega
  · intro owner agent claim is has
    have before := sound.claims owner agent claim is has
    refine ⟨?_, fun attemptId budget reply => ?_, before.fresh⟩
    · have := before.sent
      simp only
      omega
    · exact (before.held attemptId budget reply).imp fun _ held => held.mono grows
  · intro owner agent renewal is has
    have before := sound.renewals owner agent renewal is has
    refine ⟨?_, before.known, before.subset, ?_⟩
    · have := before.sent
      simp only
      omega
    · intro renewed isRenewed task member isOwner adopted engaged listed
      exact (before.held renewed isRenewed task member isOwner adopted engaged listed).imp
        fun _ held => held.mono grows

theorem Sound.setAgent (sound : Sound lag drift world) {owner : String} {agent next : Agent}
    (is : world.agents owner = some agent)
    (clock : next.clock = agent.clock ∨ ∀ task ∈ world.tasks, task.owner = owner → task.orphan = true)
    (claims : ∀ claim, next.claiming = some claim → ClaimSound drift world owner next claim)
    (renewals : ∀ renewal, next.renewing = some renewal →
      RenewalSound drift world owner next renewal) :
    Sound lag drift (world.setAgent owner next) := by
  have registered : ∀ other, ((world.setAgent owner next).agents other).isSome = true →
      (world.agents other).isSome = true := by
    intro other
    by_cases same : other = owner
    · simp [World.setAgent, same, is]
    · simp [World.setAgent, Function.update, same]
  refine ⟨sound.rows, ?_, sound.distinct, ?_, ?_, ?_⟩
  · intro attempt member other isOwner present
    exact sound.capped attempt member other isOwner (registered other present)
  · intro task member
    have before := sound.tasks task member
    refine ⟨?_, ?_, before.row, before.held, before.awake, before.past, before.live,
      before.admitted⟩
    · by_cases same : task.owner = owner
      · simp [World.setAgent, same]
      · simpa [World.setAgent, Function.update, same] using before.registered
    · intro adopted
      by_cases same : task.owner = owner
      · refine ⟨next, by simp [World.setAgent, same], ?_⟩
        rcases clock with kept | orphaned
        · obtain ⟨found, isFound, clocked⟩ := before.clock adopted
          rw [same, is] at isFound
          obtain rfl := Option.some.inj isFound
          exact kept.trans clocked
        · rw [orphaned task member same] at adopted
          cases adopted
      · simpa [World.setAgent, Function.update, same] using before.clock adopted
  · intro other found claim isFound has
    by_cases same : other = owner
    · subst same
      obtain rfl : next = found := by simpa [World.setAgent] using isFound
      have claimed := claims claim has
      exact ⟨claimed.sent, claimed.held, claimed.fresh⟩
    · have claimed := sound.claims other found claim
        (by simpa [World.setAgent, Function.update, same] using isFound) has
      exact ⟨claimed.sent, claimed.held, claimed.fresh⟩
  · intro other found renewal isFound has
    by_cases same : other = owner
    · subst same
      obtain rfl : next = found := by simpa [World.setAgent] using isFound
      have renewed := renewals renewal has
      exact ⟨renewed.sent, renewed.known, renewed.subset, renewed.held⟩
    · have renewed := sound.renewals other found renewal
        (by simpa [World.setAgent, Function.update, same] using isFound) has
      exact ⟨renewed.sent, renewed.known, renewed.subset, renewed.held⟩

structure Task.Kept (before after : Task) : Prop where
  attemptId : after.attemptId = before.attemptId
  owner : after.owner = before.owner
  adopted : after.orphan = false → before.orphan = false
  engaged : after.engaged = true → before.engaged = true

theorem Sound.maps (sound : Sound lag drift world) (change : Task → Task)
    (kept : ∀ task ∈ world.tasks, Task.Kept task (change task))
    (tasks : ∀ task ∈ world.tasks, TaskSound lag drift world (change task)) :
    Sound lag drift { world with tasks := world.tasks.map change } := by
  refine ⟨sound.rows, sound.capped, ?_, ?_, ?_, ?_⟩
  · rw [List.pairwise_map]
    refine sound.distinct.imp_of_mem fun {first second} firstIn secondIn apart => ?_
    rw [(kept first firstIn).attemptId, (kept second secondIn).attemptId]
    exact apart
  · intro changed member
    obtain ⟨task, taskIn, rfl⟩ := List.mem_map.mp member
    have after := tasks task taskIn
    exact ⟨after.registered, after.clock, after.row, after.held, after.awake, after.past,
      after.live, after.admitted⟩
  · intro owner agent claim is has
    have before := sound.claims owner agent claim is has
    refine ⟨before.sent, before.held, fun attemptId budget reply changed member => ?_⟩
    obtain ⟨task, taskIn, rfl⟩ := List.mem_map.mp member
    rw [(kept task taskIn).attemptId]
    exact before.fresh attemptId budget reply task taskIn
  · intro owner agent renewal is has
    have before := sound.renewals owner agent renewal is has
    refine ⟨before.sent, fun attemptId listed => ?_, before.subset, ?_⟩
    · obtain ⟨task, taskIn, same⟩ := before.known attemptId listed
      exact ⟨_, List.mem_map_of_mem taskIn, (kept task taskIn).attemptId.trans same⟩
    · intro renewed isRenewed changed member isOwner adopted engaged listed
      obtain ⟨task, taskIn, rfl⟩ := List.mem_map.mp member
      have keeps := kept task taskIn
      rw [keeps.attemptId] at listed ⊢
      exact before.held renewed isRenewed task taskIn (keeps.owner ▸ isOwner)
        (keeps.adopted adopted) (keeps.engaged engaged) listed

theorem Task.Kept.refl (task : Task) : Task.Kept task task :=
  ⟨rfl, rfl, id, id⟩

theorem Sound.changes (sound : Sound lag drift world) {attemptId : Nat} {guard : Task → Bool}
    {change : Task → Task} {next : World}
    (taken : world.changeTask attemptId guard change = some next)
    (kept : ∀ task ∈ world.tasks, task.attemptId = attemptId → guard task = true →
      Task.Kept task (change task))
    (tasks : ∀ task ∈ world.tasks, task.attemptId = attemptId → guard task = true →
      TaskSound lag drift world (change task)) : Sound lag drift next := by
  unfold World.changeTask at taken
  split at taken
  · next found =>
      obtain rfl := Option.some.inj taken
      obtain ⟨task, member, same, guarded⟩ : ∃ task ∈ world.tasks, task.attemptId = attemptId ∧
          guard task = true := by simpa using found
      have only : ∀ other ∈ world.tasks, other.attemptId = attemptId → guard other = true := by
        intro other otherIn isOther
        rcases distinct_cases sound.distinct otherIn member with rfl | apart
        · exact guarded
        · exact absurd (isOther.trans same.symm) apart
      refine sound.maps _ (fun other otherIn => ?_) fun other otherIn => ?_
      · split
        · next here => exact kept other otherIn here (only other otherIn here)
        · exact .refl other
      · split
        · next here => exact tasks other otherIn here (only other otherIn here)
        · exact sound.tasks other otherIn
  · cases taken

theorem Row.owner_unique {other : String} {others : Attempt → Prop} (rows : ledger.Consistent)
    (row : Row ledger owner attemptId holds) (second : Row ledger other attemptId others) :
    other = owner := by
  obtain ⟨attempt, member, same, owned, _⟩ := row
  obtain ⟨attempt', member', same', owned', _⟩ := second
  obtain rfl := rows.unique member member' (same.trans same'.symm)
  exact Option.some.inj (owned'.symm.trans owned)

theorem Sound.adds (sound : Sound lag drift world) {task : Task}
    (fresh : ∀ other ∈ world.tasks, other.attemptId ≠ task.attemptId)
    (added : TaskSound lag drift world task)
    (unclaimed : ∀ agent claim budget, world.agents task.owner = some agent →
      agent.claiming = some claim → claim.reply ≠ some (task.attemptId, budget)) :
    Sound lag drift { world with tasks := world.tasks ++ [task] } := by
  refine ⟨sound.rows, sound.capped, ?_, ?_, ?_, ?_⟩
  · rw [List.pairwise_append]
    exact ⟨sound.distinct, List.pairwise_singleton _ _, by simpa using fresh⟩
  · intro other member
    have after : TaskSound lag drift world other := by
      rcases List.mem_append.mp member with old | new
      · exact sound.tasks other old
      · exact List.mem_singleton.mp new ▸ added
    exact ⟨after.registered, after.clock, after.row, after.held, after.awake, after.past,
      after.live, after.admitted⟩
  · intro owner agent claim is has
    have before := sound.claims owner agent claim is has
    refine ⟨before.sent, before.held, fun attemptId budget reply other member => ?_⟩
    rcases List.mem_append.mp member with old | new
    · exact before.fresh attemptId budget reply other old
    · rintro rfl
      obtain rfl := List.mem_singleton.mp new
      obtain rfl := added.row.owner_unique sound.rows (before.held _ budget reply)
      exact unclaimed agent claim budget is has reply
  · intro owner agent renewal is has
    have before := sound.renewals owner agent renewal is has
    refine ⟨before.sent, fun attemptId listed => ?_, before.subset, ?_⟩
    · obtain ⟨other, otherIn, same⟩ := before.known attemptId listed
      exact ⟨other, List.mem_append_left _ otherIn, same⟩
    · intro renewed isRenewed other member isOwner adopted engaged listed
      rcases List.mem_append.mp member with old | new
      · exact before.held renewed isRenewed other old isOwner adopted engaged listed
      · obtain rfl := List.mem_singleton.mp new
        obtain ⟨known, knownIn, same⟩ := before.known _ (before.subset renewed isRenewed _ listed)
        exact absurd same (fresh known knownIn)

end Leases

end EtlCraft
