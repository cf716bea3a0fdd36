import EtlCraft.LeaseSound

/-! The fence of the agents' tasks over every run: while the watch of a task's process lets it live,
its attempt is live under its owner, its lease has not expired, and no other process of the same
task run is let live. -/

namespace EtlCraft

namespace Leases

variable {ledger : Ledger} {owner : String} {attemptId : Nat} {holds : Attempt → Prop}
  {lag drift : Int} {world : World}

/-! ## Claims and renewals -/

theorem claim_row {next : Ledger} {now lease : Int} {eligible : Bool}
    (taken : ledger.step (.claim now attemptId owner lease eligible) = some next) :
    (∃ attempt ∈ ledger.attempts, attempt.attemptId = attemptId ∧
      Ledger.claimGuard now attempt = true) ∧
    Row next owner attemptId fun attempt =>
      attempt.status.live = true ∧ attempt.leaseExpiresAt = some lease := by
  obtain ⟨changed, changedTo, synced⟩ := Option.bind_eq_some_iff.mp taken
  obtain ⟨_, _, _, _, _, _, equal⟩ := Ledger.syncAttemptSummary_some synced
  obtain ⟨isChanged, attempt, member, same, guarded⟩ := Ledger.changeWhere_some changedTo
  refine ⟨⟨attempt, member, same, (Bool.and_eq_true_iff.mp guarded).2⟩, ?_⟩
  rw [equal, isChanged]
  exact ⟨_, Ledger.mem_setAttempt.mpr ⟨attempt, member, rfl⟩, by simp [same], by simp [same],
    by simp [same], by simp [same, AttemptStatus.live], by simp [same]⟩

theorem renew_row {next : Ledger} {now lease : Int}
    (taken : ledger.step (.renew now attemptId owner lease) = some next) :
    Row next owner attemptId fun attempt =>
      attempt.status.live = true ∧ attempt.leaseExpiresAt = some lease := by
  obtain ⟨isChanged, attempt, member, same, guarded⟩ := Ledger.changeWhere_some taken
  simp only [Ledger.finishGuard, Bool.and_eq_true, decide_eq_true_eq] at guarded
  rw [isChanged]
  refine ⟨_, Ledger.mem_setAttempt.mpr ⟨attempt, member, rfl⟩, by simp [same],
    by simp [same, guarded.1.2], ?_, by simp [same, guarded.1.1], by simp [same]⟩
  have live := guarded.1.1
  rw [if_pos same]
  intro queued
  rw [queued] at live
  cases live

theorem granted_held {limit lease bound : Int} (within : bound ≤ lease) (attempt : Attempt)
    (granted : attempt.status.live = true ∧ attempt.leaseExpiresAt = some lease) :
    Held limit bound attempt :=
  ⟨lease, granted.2, within, Or.inl granted.1⟩

theorem Sound.renewsAll (within : lag + drift ≤ fenceMargin) (sound : Sound lag drift world)
    (owner : String) (attempts : List Nat) :
    Sound lag drift { world with
      ledger := (World.renewAll world.now owner world.ledger attempts).1 } ∧
    (∀ attemptId ∈ (World.renewAll world.now owner world.ledger attempts).2,
      attemptId ∈ attempts ∧ (Expected world attemptId →
        Row (World.renewAll world.now owner world.ledger attempts).1 owner attemptId
          (Held (world.now + drift) (world.now + leaseTime)))) ∧
    ∀ {other attemptId bound}, Expected world attemptId →
      Row world.ledger other attemptId (Held (world.now + drift) bound) →
      Row (World.renewAll world.now owner world.ledger attempts).1 other attemptId
        (Held (world.now + drift) bound) := by
  induction attempts generalizing world with
  | nil => exact ⟨sound, by simp [World.renewAll], fun _ row => row⟩
  | cons first rest ih =>
      simp only [World.renewAll]
      split
      · obtain ⟨after, renewed, kept⟩ := ih sound
        refine ⟨after, fun attemptId listed => ?_, kept⟩
        exact ⟨List.mem_cons_of_mem _ (renewed attemptId listed).1, (renewed attemptId listed).2⟩
      · next next taken =>
          have keeps : Keeps drift world (.renew world.now first owner (world.now + leaseTime)) :=
            sound.permitted (by simp [World.permits])
          have moves := Ledger.step_rows sound.rows.toNumbered taken
          obtain ⟨after, renewed, kept⟩ := ih (sound.commits within keeps taken)
          refine ⟨after, fun attemptId listed => ?_, fun expected row => ?_⟩
          · rcases List.mem_cons.mp listed with rfl | listed
            · refine ⟨List.mem_cons_self, fun expected => kept expected ?_⟩
              exact (renew_row taken).imp fun attempt => granted_held (le_refl _) attempt
            · exact ⟨List.mem_cons_of_mem _ (renewed attemptId listed).1,
                (renewed attemptId listed).2⟩
          · exact kept expected (Row.expected moves keeps expected (fun _ _ later => later.held) row)

theorem mem_of_find {tasks : List Task} {task : Task}
    (found : tasks.find? (·.attemptId = attemptId) = some task) :
    task ∈ tasks ∧ task.attemptId = attemptId :=
  ⟨List.mem_of_find?_eq_some found, by simpa using List.find?_some found⟩

theorem Sound.claimCommitted (within : lag + drift ≤ fenceMargin) (sound : Sound lag drift world)
    {budget : Int} {eligible : Bool} {next : World}
    (taken : world.step lag drift (.claimCommitted owner attemptId budget eligible) = some next) :
    Sound lag drift next := by
  simp only [World.step] at taken
  split at taken
  · next clock started renewing is =>
      split at taken
      · next small =>
          obtain ⟨committed, commits, rfl⟩ := Option.map_eq_some_iff.mp taken
          obtain ⟨ledger, stepped, rfl⟩ := Option.map_eq_some_iff.mp commits
          have keeps : Keeps drift world
              (.claim world.now attemptId owner (world.now + leaseTime) eligible) :=
            sound.permitted (by simp [World.permits])
          have after := sound.commits within keeps stepped
          obtain ⟨⟨attempt, member, same, guarded⟩, row⟩ := claim_row stepped
          have sent := (sound.claims owner _ _ is rfl).sent
          refine after.setAgent is (Or.inl rfl) ?_ (fun renewal has => ?_)
          · rintro claim ⟨⟩
            refine ⟨sent, ?_, ?_⟩
            · rintro _ _ ⟨⟩
              refine row.imp fun attempt => granted_held ?_ attempt
              simp only at sent ⊢
              omega
            · rintro _ _ ⟨⟩ task taskIn isTask
              have other : Ledger.claimGuard world.now attempt = false :=
                (sound.tasks task taskIn).row.unclaimed sound.rows.toNumbered member
                  (same.trans isTask.symm)
              rw [guarded] at other
              cases other
          · have before := after.renewals owner _ renewal is has
            exact ⟨before.sent, before.known, before.subset, before.held⟩
      · cases taken
  · cases taken

theorem Sound.claimRead (sound : Sound lag drift world) {next : World}
    (taken : world.step lag drift (.claimRead owner) = some next) : Sound lag drift next := by
  simp only [World.step] at taken
  split at taken
  · next clock started attemptId budget renewing is =>
      obtain rfl := Option.some.inj taken
      have claimed := sound.claims owner _ _ is rfl
      have held := claimed.held _ _ rfl
      have quiet : Sound lag drift (world.setAgent owner { clock, claiming := none, renewing }) := by
        refine sound.setAgent is (Or.inl rfl) (by simp) fun renewal has => ?_
        have before := sound.renewals owner _ renewal is has
        exact ⟨before.sent, before.known, before.subset, before.held⟩
      refine quiet.adds (claimed.fresh _ _ rfl) ?_ ?_
      · refine ⟨by simp [World.setAgent], fun _ => ⟨{ clock, renewing }, by simp [World.setAgent], rfl⟩,
          held.imp fun _ _ => trivial, fun _ => ?_, rfl, by simp, by simp, by simp⟩
        have equal : started + budget - fenceMargin - clock + fenceMargin =
            started - clock + budget := by omega
        exact held.imp fun attempt is => equal ▸ is
      · intro agent claim other isAgent has
        obtain rfl : _ = agent := by simpa [World.setAgent] using isAgent
        cases has
  · cases taken

theorem Sound.renewRead (sound : Sound lag drift world) {next : World}
    (taken : world.step lag drift (.renewRead owner) = some next) : Sound lag drift next := by
  simp only [World.step] at taken
  split at taken
  · next clock claiming started attempts ids is =>
      obtain rfl := Option.some.inj taken
      have renewal := sound.renewals owner _ _ is rfl
      have renewed := sound.maps (fun task =>
        if task.owner = owner && !task.orphan && task.attemptId ∈ ids then
          { task with deadline := started + leaseTime - fenceMargin }
        else task) (fun task _ => by split <;> exact ⟨rfl, rfl, id, id⟩) ?_
      · refine renewed.setAgent is (Or.inl rfl) (fun claim has => ?_) (by simp)
        have before := renewed.claims owner _ claim is has
        exact ⟨before.sent, before.held, before.fresh⟩
      · intro task member
        have before := sound.tasks task member
        split
        · next listed =>
            simp only [Bool.and_eq_true, decide_eq_true_eq, Bool.not_eq_true'] at listed
            refine ⟨before.registered, before.clock, before.row, fun engaged => ?_, before.awake,
              before.past, before.live, before.admitted⟩
            obtain ⟨agent, isAgent, clocked⟩ := before.clock listed.1.2
            rw [listed.1.1, is] at isAgent
            obtain rfl := Option.some.inj isAgent
            have held := renewal.held ids rfl task member listed.1.1 listed.1.2 engaged listed.2
            rw [← listed.1.1] at held
            have equal : started + leaseTime - fenceMargin - task.clock + fenceMargin =
                started - clock + leaseTime := by
              have : clock = task.clock := clocked
              omega
            exact held.imp fun attempt is => equal ▸ is
        · exact before
  · cases taken

theorem Sound.admits (within : lag + drift ≤ fenceMargin) (sound : Sound lag drift world)
    {now : Int} {next : World}
    (taken : world.step lag drift (.admitted attemptId now) = some next) :
    Sound lag drift next := by
  simp only [World.step] at taken
  split at taken
  · next task found =>
      obtain ⟨member, same⟩ := mem_of_find found
      split at taken
      · next since checked admitted running =>
          obtain ⟨admitted, admits, changes⟩ := Option.bind_eq_some_iff.mp taken
          have engaged := Task.engaged_running running
          have started : Sound lag drift admitted ∧ admitted.tasks = world.tasks ∧
              Row admitted.ledger task.owner task.attemptId (Leased (since < ·)) := by
            unfold World.startTask at admits
            split at admits
            · cases admits
            · next attempt isLive =>
                have guarded := List.find?_some isLive
                have attemptIn := List.mem_of_find?_eq_some isLive
                simp only [Ledger.finishGuard, Bool.and_eq_true, decide_eq_true_eq,
                  Ledger.leased, Option.any_eq_true] at guarded
                obtain ⟨isAttempt, ⟨live, owned⟩, lease, isLease, above⟩ := guarded
                have row : Row world.ledger task.owner task.attemptId (Leased (since < ·)) := by
                  refine ⟨attempt, attemptIn, isAttempt, owned, ?_, lease, isLease, ?_⟩
                  · intro queued
                    rw [queued] at live
                    cases live
                  · have := (sound.tasks task member).past since checked _ running
                    omega
                split at admits
                · obtain rfl := Option.some.inj admits
                  exact ⟨sound, rfl, row⟩
                · obtain ⟨ledger, stepped, rfl⟩ := Option.map_eq_some_iff.mp admits
                  have keeps : Keeps drift world (.start now task.attemptId task.owner) :=
                    sound.permitted rfl
                  refine ⟨sound.commits within keeps stepped, rfl, ?_⟩
                  exact Row.expected (Ledger.step_rows sound.rows.toNumbered stepped) keeps
                    (Or.inl ⟨task, member, rfl, engaged⟩) (fun _ _ later => later.above) row
          obtain ⟨after, sameTasks, row⟩ := started
          have only : ∀ other ∈ admitted.tasks, other.attemptId = attemptId → other = task := by
            intro other otherIn isOther
            rw [sameTasks] at otherIn
            rcases distinct_cases sound.distinct otherIn member with equal | apart
            · exact equal
            · exact absurd (isOther.trans same.symm) apart
          refine after.changes changes (fun other otherIn isOther _ => ?_) ?_
          · obtain rfl := only other otherIn isOther
            exact ⟨rfl, rfl, id, fun _ => engaged⟩
          · intro other otherIn isOther _
            obtain rfl := only other otherIn isOther
            have before := after.tasks other otherIn
            refine ⟨before.registered, before.clock, before.row, fun _ => before.held engaged,
              ?_, ?_, ?_, ?_⟩
            · simpa [Task.awake, running] using before.awake
            · rintro _ _ _ ⟨⟩
              exact before.past since checked _ running
            · rintro _ time _ ⟨⟩
              exact before.live since time _ running
            · rintro _ _ ⟨⟩
              exact row
      · cases taken
  · cases taken

theorem Sound.launches (lagging : 0 ≤ lag) (sound : Sound lag drift world) {next : World}
    (taken : world.step lag drift (.launched attemptId) = some next) : Sound lag drift next := by
  refine sound.changes taken (fun task _ _ starting => ⟨rfl, rfl, id, fun _ => ?_⟩)
    fun task member _ starting => ?_
  · simp only [decide_eq_true_eq] at starting
    simp [Task.engaged, starting]
  · simp only [decide_eq_true_eq] at starting
    have before := sound.tasks task member
    refine ⟨before.registered, before.clock, before.row, fun _ => before.held ?_, ?_, ?_, ?_, ?_⟩
    · simp [Task.engaged, starting]
    · simpa [Task.awake] using lagging
    · rintro _ _ _ ⟨⟩
      exact le_refl _
    · rintro _ _ _ ⟨⟩
    · rintro _ _ ⟨⟩

theorem TaskSound.ends {task : Task} (sound : TaskSound lag drift world task) :
    TaskSound lag drift world { task with stage := .exited } :=
  ⟨sound.registered, sound.clock, sound.row, by simp [Task.engaged], rfl, by simp, by simp, by simp⟩

theorem Sound.watches (lagging : 0 ≤ lag) (within : lag + drift ≤ fenceMargin)
    (sound : Sound lag drift world) {next : World}
    (taken : world.step lag drift (.watched attemptId) = some next) : Sound lag drift next := by
  refine sound.changes taken (fun task _ _ _ => ?_) fun task member _ _ => ?_
  · unfold Task.watch
    split
    · next running =>
        split
        · exact ⟨rfl, rfl, id, fun _ => Task.engaged_running running⟩
        · exact ⟨rfl, rfl, id, fun _ => Task.engaged_running running⟩
    · exact .refl task
  · have before := sound.tasks task member
    unfold Task.watch
    split
    · next since checked admitted running =>
        have held := before.held (Task.engaged_running running)
        split
        · exact before.ends
        · next allowed =>
            simp only [Bool.or_eq_true, decide_eq_true_eq, not_or, not_le] at allowed
            refine ⟨before.registered, before.clock, before.row, fun _ => held, ?_, ?_, ?_, ?_⟩
            · simpa [Task.awake] using lagging
            · rintro _ _ _ ⟨⟩
              exact before.past since checked admitted running
            · rintro _ _ _ ⟨⟩
              exact held.imp fun attempt held => held.live (by omega) (by omega)
            · rintro _ _ ⟨⟩
              exact before.admitted since checked running
    · exact before

theorem Sound.restarts (sound : Sound lag drift world) {clock : Int} {next : World}
    (taken : world.step lag drift (.restarted owner clock) = some next) :
    Sound lag drift next := by
  simp only [World.step] at taken
  split at taken
  · next agent is =>
      obtain rfl := Option.some.inj taken
      have orphaned := sound.maps (fun task =>
        if task.owner = owner then
          { task with
            orphan := true
            stage := if task.stage = .starting then .exited else task.stage }
        else task) (fun task _ => ?_) ?_
      · refine orphaned.setAgent is (Or.inr fun task member isOwner => ?_) (by simp) (by simp)
        obtain ⟨before, _, rfl⟩ := List.mem_map.mp member
        split
        · rfl
        · next other =>
            rw [if_neg other] at isOwner
            exact absurd isOwner other
      · split
        · refine ⟨rfl, rfl, by simp, fun engaged => ?_⟩
          split at engaged
          · cases engaged
          · exact engaged
        · exact .refl task
      · intro task member
        have before := sound.tasks task member
        split
        · split
          · exact ⟨before.registered, by simp, before.row, by simp [Task.engaged], rfl, by simp,
              by simp, by simp⟩
          · exact ⟨before.registered, by simp, before.row, before.held, before.awake, before.past,
              before.live, before.admitted⟩
        · exact before
  · cases taken

theorem Sound.step (lagging : 0 ≤ lag) (within : lag + drift ≤ fenceMargin) {action : Action}
    {next : World} (sound : Sound lag drift world)
    (taken : world.step lag drift action = some next) : Sound lag drift next := by
  cases action with
  | pass time =>
      simp only [World.step] at taken
      split at taken
      · next awake =>
          obtain rfl := Option.some.inj taken
          exact sound.passes time awake
      · cases taken
  | engine event =>
      simp only [World.step] at taken
      split at taken
      · next permitted =>
          obtain ⟨ledger, stepped, rfl⟩ := Option.map_eq_some_iff.mp taken
          exact sound.commits within (sound.permitted permitted) stepped
      · cases taken
  | claimSent owner =>
      simp only [World.step] at taken
      split at taken
      · next clock renewing is =>
          obtain rfl := Option.some.inj taken
          refine sound.setAgent is (Or.inl rfl) ?_ fun renewal has => ?_
          · rintro claim ⟨⟩
            exact ⟨le_refl _, by simp, by simp⟩
          · have before := sound.renewals owner _ renewal is has
            exact ⟨before.sent, before.known, before.subset, before.held⟩
      · cases taken
  | claimCommitted owner attemptId budget eligible => exact sound.claimCommitted within taken
  | claimLost owner =>
      obtain ⟨agent, is, rfl⟩ := Option.map_eq_some_iff.mp taken
      refine sound.setAgent is (Or.inl rfl) (by simp) fun renewal has => ?_
      have before := sound.renewals owner _ renewal is has
      exact ⟨before.sent, before.known, before.subset, before.held⟩
  | claimRead owner => exact sound.claimRead taken
  | launched attemptId => exact sound.launches lagging taken
  | admitted attemptId now => exact sound.admits within taken
  | renewSent owner attempts =>
      simp only [World.step] at taken
      split at taken
      · next clock claiming is =>
          split at taken
          · next known =>
              obtain rfl := Option.some.inj taken
              refine sound.setAgent is (Or.inl rfl) (fun claim has => ?_) ?_
              · have before := sound.claims owner _ claim is has
                exact ⟨before.sent, before.held, before.fresh⟩
              · rintro renewal ⟨⟩
                refine ⟨le_refl _, fun attemptId listed => ?_, by simp, by simp⟩
                obtain ⟨task, member, same⟩ :=
                  List.any_eq_true.mp (List.all_eq_true.mp known attemptId listed)
                simp only [Bool.and_eq_true, decide_eq_true_eq] at same
                exact ⟨task, member, same.1.1⟩
          · cases taken
      · cases taken
  | renewCommitted owner =>
      simp only [World.step] at taken
      split at taken
      · next clock claiming started attempts is =>
          obtain rfl := Option.some.inj taken
          obtain ⟨after, renewed, _⟩ := sound.renewsAll within owner attempts
          have renewal := sound.renewals owner _ _ is rfl
          refine after.setAgent is (Or.inl rfl) (fun claim has => ?_) ?_
          · have before := after.claims owner _ claim is has
            exact ⟨before.sent, before.held, before.fresh⟩
          · rintro _ ⟨⟩
            refine ⟨renewal.sent, renewal.known, ?_, ?_⟩
            · rintro _ ⟨⟩ attemptId listed
              exact (renewed attemptId listed).1
            · rintro _ ⟨⟩ task member _ _ engaged listed
              have held := (renewed _ listed).2 (Or.inl ⟨task, member, rfl, engaged⟩)
              obtain sent : started ≤ world.now + clock := renewal.sent
              refine held.imp fun attempt held => ?_
              obtain ⟨lease, isLease, above, state⟩ := held
              refine ⟨lease, isLease, ?_, state⟩
              simp only
              omega
      · cases taken
  | renewLost owner =>
      obtain ⟨agent, is, rfl⟩ := Option.map_eq_some_iff.mp taken
      refine sound.setAgent is (Or.inl rfl) (fun claim has => ?_) (by simp)
      have before := sound.claims owner _ claim is has
      exact ⟨before.sent, before.held, before.fresh⟩
  | renewRead owner => exact sound.renewRead taken
  | watched attemptId => exact sound.watches lagging within taken
  | exited attemptId =>
      refine sound.changes taken (fun task _ _ engaged => ⟨rfl, rfl, id, fun _ => engaged⟩)
        fun task member _ _ => (sound.tasks task member).ends
  | reported attemptId now status counts retryable =>
      simp only [World.step] at taken
      split at taken
      · next task found =>
          obtain ⟨member, rfl⟩ := mem_of_find found
          split at taken
          · next exited =>
              obtain ⟨ledger, stepped, rfl⟩ := Option.map_eq_some_iff.mp taken
              exact sound.commits within (sound.reports member exited) stepped
          · cases taken
      · cases taken
  | restarted owner clock => exact sound.restarts taken

/-! ## Every run -/

theorem Sound.start (now : Int) (clocks : String → Option Int) (taskRuns : Nat → Option TaskRun)
    (runStatus : Nat → RunStatus) : Sound lag drift (World.start now clocks taskRuns runStatus) := by
  refine ⟨Ledger.consistent_empty taskRuns runStatus, ?_, .nil, ?_, ?_, ?_⟩
  · simp [World.start]
  · simp [World.start]
  · intro owner agent claim is has
    obtain ⟨clock, _, rfl⟩ := Option.map_eq_some_iff.mp is
    cases has
  · intro owner agent renewal is has
    obtain ⟨clock, _, rfl⟩ := Option.map_eq_some_iff.mp is
    cases has

structure Fenced (lag drift : Int) (world : World) : Prop where
  owned : ∀ task ∈ world.tasks, task.watched = true → ∃ attempt ∈ world.ledger.attempts,
    attempt.attemptId = task.attemptId ∧ attempt.ownerId = some task.owner ∧
    attempt.status.live = true ∧
    (∃ lease, attempt.leaseExpiresAt = some lease ∧ world.now + drift < lease) ∧
    ∀ other ∈ world.ledger.attempts, other.taskRunId = attempt.taskRunId →
      other.status.active = true → other = attempt
  alone : ∀ first ∈ world.tasks, ∀ second ∈ world.tasks, first.watched = true →
    second.watched = true → ∀ attempt ∈ world.ledger.attempts, ∀ other ∈ world.ledger.attempts,
    attempt.attemptId = first.attemptId → other.attemptId = second.attemptId →
    attempt.taskRunId = other.taskRunId → first = second
  reconciled : ∀ task ∈ world.tasks, task.watched = true → ∀ now ≤ world.now + drift, ∀ owner,
    world.ledger.step (.lose now task.attemptId owner) = none
  handled : ∀ task ∈ world.tasks, task.handles = true → ∃ attempt ∈ world.ledger.attempts,
    attempt.attemptId = task.attemptId ∧ attempt.ownerId = some task.owner ∧
    ∃ lease, attempt.leaseExpiresAt = some lease ∧ world.now < lease + lag

theorem Task.watched_running {task : Task} (watched : task.watched = true) :
    ∃ since time admitted, task.stage = .running since (some time) admitted := by
  unfold Task.watched at watched
  split at watched
  · next since checked admitted running =>
      obtain ⟨time, rfl⟩ := Option.isSome_iff_exists.mp watched
      exact ⟨since, time, admitted, running⟩
  · cases watched

theorem Sound.alive (within : lag + drift ≤ fenceMargin) (sound : Sound lag drift world)
    {task : Task} (member : task ∈ world.tasks) (watched : task.watched = true) :
    Row world.ledger task.owner task.attemptId (Live (world.now + drift)) := by
  obtain ⟨since, time, admitted, running⟩ := Task.watched_running watched
  have before := sound.tasks task member
  have early := before.early within running
  refine (before.live since time admitted running).imp fun attempt live => ?_
  obtain ⟨is, lease, isLease, above⟩ := live
  exact ⟨is, lease, isLease, by omega⟩

theorem Sound.handled (sound : Sound lag drift world)
    {task : Task} (member : task ∈ world.tasks) (handles : task.handles = true) :
    Row world.ledger task.owner task.attemptId (Leased (world.now < · + lag)) := by
  have before := sound.tasks task member
  unfold Task.handles at handles
  split at handles
  · next since checked admitted running =>
      subst handles
      have awake := before.awake
      cases checked with
      | none =>
          simp only [Task.awake, running, Option.getD_none, decide_eq_true_eq] at awake
          refine (before.admitted since none running).imp fun attempt leased => ?_
          obtain ⟨lease, isLease, above⟩ := leased
          exact ⟨lease, isLease, by omega⟩
      | some time =>
          simp only [Task.awake, running, Option.getD_some, decide_eq_true_eq] at awake
          refine (before.live since time true running).imp fun attempt live => ?_
          obtain ⟨_, lease, isLease, above⟩ := live
          refine ⟨lease, isLease, ?_⟩
          unfold fenceMargin at above
          omega
  · cases handles

theorem Sound.fenced (within : lag + drift ≤ fenceMargin) (sound : Sound lag drift world) :
    Fenced lag drift world := by
  have alone : ∀ {task : Task}, task ∈ world.tasks → task.watched = true →
      ∃ attempt ∈ world.ledger.attempts, attempt.attemptId = task.attemptId ∧
        attempt.ownerId = some task.owner ∧ Live (world.now + drift) attempt ∧
        ∀ other ∈ world.ledger.attempts, other.taskRunId = attempt.taskRunId →
          other.status.active = true → other = attempt := by
    intro task member watched
    obtain ⟨attempt, attemptIn, same, owned, _, live⟩ := sound.alive within member watched
    refine ⟨attempt, attemptIn, same, owned, live, fun other otherIn sameRun active => ?_⟩
    rcases sound.rows.active_newest attemptIn otherIn sameRun (Ledger.live_active live.1) with
      equal | ⟨_, ended⟩
    · exact equal
    · rw [active] at ended
      cases ended
  refine ⟨?_, ?_, ?_, ?_⟩
  · intro task member watched
    obtain ⟨attempt, attemptIn, same, owned, ⟨live, lease⟩, only⟩ := alone member watched
    exact ⟨attempt, attemptIn, same, owned, live, lease, only⟩
  · intro first firstIn second secondIn firstLives secondLives attempt attemptIn other otherIn
      isFirst isSecond sameRun
    obtain ⟨mine, mineIn, isMine, _, _, only⟩ := alone firstIn firstLives
    obtain ⟨theirs, theirsIn, isTheirs, _, ⟨live, _⟩, _⟩ := alone secondIn secondLives
    obtain rfl := sound.rows.unique attemptIn mineIn (isFirst.trans isMine.symm)
    obtain rfl := sound.rows.unique otherIn theirsIn (isSecond.trans isTheirs.symm)
    have equal := only other otherIn sameRun.symm (Ledger.live_active live)
    rcases distinct_cases sound.distinct firstIn secondIn with same | apart
    · exact same
    · exact absurd (isFirst.symm.trans (equal ▸ isSecond)) apart
  · intro task member watched now allowed owner
    obtain ⟨attempt, attemptIn, same, _, ⟨_, lease, isLease, above⟩, _⟩ := alone member watched
    cases taken : world.ledger.step (.lose now task.attemptId owner) with
    | none => rfl
    | some next =>
        obtain ⟨other, otherIn, isOther, expired⟩ := Ledger.lose_guard (by rw [taken]; rfl)
        obtain rfl := sound.rows.unique otherIn attemptIn (isOther.trans same.symm)
        have := leased_false expired isLease
        omega
  · intro task member handles
    obtain ⟨attempt, attemptIn, same, owned, _, lease⟩ := sound.handled member handles
    exact ⟨attempt, attemptIn, same, owned, lease⟩

/-- The fence holds in every state of every run, when the watches and the clocks together are off by
no more than the margin. -/
theorem tasks_fenced (lag drift now : Int) (lagging : 0 ≤ lag) (within : lag + drift ≤ fenceMargin)
    (clocks : String → Option Int) (taskRuns : Nat → Option TaskRun) (runStatus : Nat → RunStatus)
    (actions : List Action) (world : World)
    (run : Runs.exec (fun world => world.step lag drift)
      (World.start now clocks taskRuns runStatus) actions = some world) :
    Fenced lag drift world := by
  have sound := Runs.exec_invariant (Sound lag drift)
    (fun _ _ _ sound taken => sound.step lagging within taken)
    (Sound.start now clocks taskRuns runStatus) run
  exact sound.fenced within

def clocks (owner : String) : Option Int :=
  if owner = "1" then some 500 else if owner = "2" then some (-900) else none

def claimed : List Action :=
  [.engine (.bind 1 7), .engine (.runStatus 7 .inProgress), .engine (.queue 1 none none),
    .claimSent "1", .claimCommitted "1" 0 leaseTime true]

/-- The first agent dies after a renewal; its task is killed, lost and taken over. -/
def takeover : List Action :=
  claimed ++ [.claimRead "1", .launched 0, .admitted 0 0, .watched 0, .renewSent "1" [0],
    .pass 100000, .renewCommitted "1", .watched 0, .renewRead "1", .pass 100000, .watched 0,
    .restarted "1" 9000, .pass 100000, .watched 0, .pass 60000000, .engine (.lose 60300000 0 "1"),
    .engine (.queue 1 none (some 0)), .claimSent "2", .claimCommitted "2" 1 leaseTime true,
    .claimRead "2", .launched 1, .admitted 1 60300000, .pass 50000, .watched 1]

theorem takeover_fenced : ∃ world,
    Runs.exec (fun world => world.step 100000 14000000)
      (World.start 0 clocks (fun _ => none) fun _ => .queued) takeover = some world ∧
    Fenced 100000 14000000 world := by
  have accepted : (Runs.exec (fun world => world.step 100000 14000000)
      (World.start 0 clocks (fun _ => none) fun _ => .queued) takeover).isSome = true := by
    decide +kernel
  obtain ⟨world, run⟩ := Option.isSome_iff_exists.mp accepted
  exact ⟨world, run, tasks_fenced 100000 14000000 0 (by decide) (by decide) _ _ _ _ world run⟩

/-- A process that starts just before its lease ends is admitted, and its attempt is lost before its
watch first looks: the fence says nothing of such a process but that the lag bounds its time. -/
example : (Runs.exec (fun world => world.step 100000 14000000)
    (World.start 0 clocks (fun _ => none) fun _ => .queued)
    (claimed ++ [.claimRead "1", .pass 59950000, .launched 0, .admitted 0 59950000, .pass 60000,
      .engine (.lose 60010000 0 "1")])).any (fun world =>
        world.tasks.any Task.handles && world.ledger.attempts.any (·.status = .lost)) = true := by
  decide +kernel

end Leases

end EtlCraft
