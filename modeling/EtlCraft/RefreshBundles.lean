import EtlCraft.RefreshAdmission

/-! The published bundles under retention: none is released while a recorded refresh or a run names
it, and the latest publication of a project is never released. -/

namespace EtlCraft

namespace Refreshes

structure Newer (newer bundle : Bundle) : Prop where
  project : newer.projectId = bundle.projectId
  approved : newer.approved = true
  order : bundle.order < newer.order

structure Bundled (bundles published : List Bundle) (refreshes : List Refresh)
    (runs : List PinnedRun) (cleaning : Option (List String)) : Prop where
  distinct : ∀ first ∈ bundles, ∀ second ∈ bundles,
    first.bundleId = second.bundleId → first = second
  known : ∀ bundle ∈ bundles, bundle ∈ published
  refreshes : ∀ row ∈ refreshes, bundleKnown bundles row.bundleId = true
  runs : ∀ run ∈ runs, bundleKnown bundles run.bundleId = true
  released : ∀ bundle ∈ published, bundle.approved = true → bundle ∉ bundles →
    ∃ newer ∈ bundles, Newer newer bundle
  cleaning : ∀ ids, cleaning = some ids → ∀ bundle ∈ bundles, bundle.bundleId ∈ ids →
    bundle.approved = true → ∃ newer ∈ bundles, Newer newer bundle ∧ newer.bundleId ∉ ids

variable {bundles published : List Bundle} {refreshes : List Refresh} {runs : List PinnedRun}
  {cleaning : Option (List String)}

theorem bundleKnown_some {bundleId : String} (known : bundleKnown bundles (some bundleId) = true) :
    ∃ bundle ∈ bundles, bundle.bundleId = bundleId := by
  simpa [bundleKnown] using known

theorem bundleKnown_mono {more : List Bundle} {bundleId : Option String}
    (known : bundleKnown bundles bundleId = true) (kept : ∀ bundle ∈ bundles,
      bundleId = some bundle.bundleId → bundle ∈ more) : bundleKnown more bundleId = true := by
  cases bundleId with
  | none => rfl
  | some bundleId =>
      obtain ⟨bundle, member, same⟩ := bundleKnown_some known
      simpa [bundleKnown] using ⟨bundle, kept bundle member (same ▸ rfl), same⟩

theorem bundleLatest_mem {projectId : Nat} {latest : Bundle}
    (found : bundleLatest bundles projectId = some latest) :
    latest ∈ bundles ∧ latest.projectId = projectId ∧ latest.approved = true := by
  have member := List.mem_filter.mp (List.argmax_mem found)
  simpa using member

theorem bundleLatest_top {projectId : Nat} {latest bundle : Bundle}
    (found : bundleLatest bundles projectId = some latest) (member : bundle ∈ bundles)
    (project : bundle.projectId = projectId) (approved : bundle.approved = true) :
    bundle.order ≤ latest.order :=
  List.le_of_mem_argmax (List.mem_filter.mpr ⟨member, by simp [project, approved]⟩) found

theorem Bundle.order_id {first second : Bundle} (same : first.order = second.order) :
    first.bundleId = second.bundleId :=
  (Prod.ext_iff.mp (toLex.injective same)).2

theorem Bundled.start : Bundled [] [] [] [] none := by
  constructor <;> simp

theorem Bundled.latest (bundled : Bundled bundles published refreshes runs cleaning)
    (projectId : Nat) : bundleLatest bundles projectId = bundleLatest published projectId := by
  have held : ∀ bundle ∈ published, bundle.projectId = projectId → bundle.approved = true →
      bundle ∈ bundles ∨ ∃ newer ∈ bundles, Newer newer bundle := fun bundle member _ approved =>
    Classical.byCases .inl fun gone => .inr (bundled.released bundle member approved gone)
  cases found : bundleLatest bundles projectId with
  | none =>
      have empty : ∀ bundle ∈ bundles, bundle.projectId = projectId → bundle.approved ≠ true := by
        simpa [bundleLatest] using found
      symm
      simp only [bundleLatest, List.argmax_eq_none, List.filter_eq_nil_iff, decide_eq_true_eq]
      rintro bundle member ⟨project, approved⟩
      rcases held bundle member project approved with still | ⟨newer, still, newest⟩
      · exact empty bundle still project approved
      · exact empty newer still (newest.project.trans project) newest.approved
  | some latest =>
      obtain ⟨member, project, approved⟩ := bundleLatest_mem found
      have top : ∀ bundle ∈ published, bundle.projectId = projectId → bundle.approved = true →
          bundle ∈ bundles ∧ bundle.order ≤ latest.order ∨ bundle.order < latest.order := by
        intro bundle isPublished ofProject isApproved
        rcases held bundle isPublished ofProject isApproved with still | ⟨newer, still, newest⟩
        · exact .inl ⟨still, bundleLatest_top found still ofProject isApproved⟩
        · refine .inr (lt_of_lt_of_le newest.order ?_)
          exact bundleLatest_top found still (newest.project.trans ofProject) newest.approved
      refine (argmax_top ?_ ?_ ?_).symm
      · exact List.mem_filter.mpr ⟨bundled.known latest member, by simp [project, approved]⟩
      · intro bundle isOther
        obtain ⟨isPublished, fits⟩ := List.mem_filter.mp isOther
        obtain ⟨ofProject, isApproved⟩ := of_decide_eq_true fits
        rcases top bundle isPublished ofProject isApproved with ⟨_, below⟩ | below
        · exact below
        · exact le_of_lt below
      · intro bundle isOther same
        obtain ⟨isPublished, fits⟩ := List.mem_filter.mp isOther
        obtain ⟨ofProject, isApproved⟩ := of_decide_eq_true fits
        rcases top bundle isPublished ofProject isApproved with ⟨still, _⟩ | below
        · exact bundled.distinct bundle still latest member (Bundle.order_id same)
        · exact absurd same (ne_of_lt below)

/-! ## What the steps do -/

theorem Bundled.publish (bundled : Bundled bundles published refreshes runs none)
    {bundle : Bundle} (fresh : ∀ other ∈ bundles, other.bundleId ≠ bundle.bundleId) :
    Bundled (bundles ++ [bundle]) (published ++ [bundle]) refreshes runs none := by
  have here : ∀ other ∈ bundles, other ∈ bundles ++ [bundle] := fun other =>
    List.mem_append_left _
  refine ⟨?_, ?_, ?_, ?_, ?_, by simp⟩
  · intro first isFirst second isSecond same
    rcases List.mem_append.mp isFirst with early | late
    · rcases List.mem_append.mp isSecond with earlyToo | lateToo
      · exact bundled.distinct first early second earlyToo same
      · exact absurd (List.mem_singleton.mp lateToo ▸ same) (fresh first early)
    · rcases List.mem_append.mp isSecond with earlyToo | lateToo
      · exact absurd (List.mem_singleton.mp late ▸ same.symm) (fresh second earlyToo)
      · rw [List.mem_singleton.mp late, List.mem_singleton.mp lateToo]
  · intro other member
    rcases List.mem_append.mp member with early | late
    · exact List.mem_append_left _ (bundled.known other early)
    · exact List.mem_append_right _ late
  · exact fun row member => bundleKnown_mono (bundled.refreshes row member) fun o isO _ => here o isO
  · exact fun run member => bundleKnown_mono (bundled.runs run member) fun o isO _ => here o isO
  · intro other isPublished approved gone
    rcases List.mem_append.mp isPublished with early | late
    · obtain ⟨newer, member, newest⟩ :=
        bundled.released other early approved fun still => gone (here other still)
      exact ⟨newer, here newer member, newest⟩
    · exact absurd (List.mem_append_right _ late) gone

theorem Bundled.candidates (bundled : Bundled bundles published refreshes runs cleaning)
    (projectId : Nat) (cutoff : Int) : Bundled bundles published refreshes runs
      (some (candidates bundles refreshes runs projectId cutoff)) := by
  have listed : ∀ bundle ∈ bundles,
      bundle.bundleId ∈ Refreshes.candidates bundles refreshes runs projectId cutoff →
      ∃ latest, bundleLatest bundles bundle.projectId = some latest ∧
        latest.bundleId ≠ bundle.bundleId := by
    intro bundle member isListed
    obtain ⟨other, isOther, same⟩ := List.mem_map.mp isListed
    obtain ⟨otherIn, fits⟩ :=
      List.mem_filter.mp ((List.mem_insertionSort _).mp (List.mem_of_mem_take isOther))
    obtain rfl := bundled.distinct other otherIn bundle member same
    have latest := (of_decide_eq_true fits).2.2.2
    simpa [Option.any_eq_true] using latest
  refine { bundled with cleaning := ?_ }
  rintro ids ⟨⟩ bundle member isListed approved
  obtain ⟨latest, found, other⟩ := listed bundle member isListed
  obtain ⟨latestIn, project, latestApproved⟩ := bundleLatest_mem found
  refine ⟨latest, latestIn, ⟨project, latestApproved, ?_⟩, fun latestListed => ?_⟩
  · refine lt_of_le_of_ne (bundleLatest_top found member rfl approved) fun same => ?_
    exact other (Bundle.order_id same).symm
  · obtain ⟨again, foundAgain, differs⟩ := listed latest latestIn latestListed
    rw [project, found] at foundAgain
    exact differs (Option.some.inj foundAgain ▸ rfl)

theorem Bundled.delete {bundleId : String} {rest : List String}
    (bundled : Bundled bundles published refreshes runs (some (bundleId :: rest)))
    (unreferenced : referenced refreshes runs bundleId = false) :
    Bundled (bundles.filter (·.bundleId ≠ bundleId)) published refreshes runs (some rest) := by
  have stays : ∀ bundle ∈ bundles, bundle.bundleId ≠ bundleId →
      bundle ∈ bundles.filter (·.bundleId ≠ bundleId) := fun bundle member other =>
    List.mem_filter.mpr ⟨member, decide_eq_true other⟩
  simp only [referenced, Bool.or_eq_false_iff, List.any_eq_false, decide_eq_true_eq] at unreferenced
  have gone : ∀ bundle ∈ bundles, bundle.bundleId = bundleId → bundle.approved = true →
      ∃ newer ∈ bundles.filter (·.bundleId ≠ bundleId), Newer newer bundle := by
    intro bundle member same approved
    obtain ⟨newer, newerIn, newest, unlisted⟩ :=
      bundled.cleaning _ rfl bundle member (same ▸ List.mem_cons_self) approved
    refine ⟨newer, stays newer newerIn fun isHead => ?_, newest⟩
    exact unlisted (isHead ▸ List.mem_cons_self)
  refine ⟨?_, ?_, ?_, ?_, ?_, ?_⟩
  · exact fun first isFirst second isSecond => bundled.distinct first
      (List.mem_of_mem_filter isFirst) second (List.mem_of_mem_filter isSecond)
  · exact fun bundle member => bundled.known bundle (List.mem_of_mem_filter member)
  · refine fun row member => bundleKnown_mono (bundled.refreshes row member) fun bundle isIn named => ?_
    exact stays bundle isIn fun same => unreferenced.2 row member (same ▸ named)
  · refine fun run member => bundleKnown_mono (bundled.runs run member) fun bundle isIn named => ?_
    exact stays bundle isIn fun same => unreferenced.1 run member (same ▸ named)
  · intro bundle isPublished approved absent
    by_cases still : bundle ∈ bundles
    · by_cases same : bundle.bundleId = bundleId
      · exact gone bundle still same approved
      · exact absurd (stays bundle still same) absent
    · obtain ⟨newer, newerIn, newest⟩ := bundled.released bundle isPublished approved still
      by_cases same : newer.bundleId = bundleId
      · obtain ⟨top, topIn, above⟩ := gone newer newerIn same newest.approved
        exact ⟨top, topIn, above.project.trans newest.project, above.approved,
          lt_trans newest.order above.order⟩
      · exact ⟨newer, stays newer newerIn same, newest⟩
  · rintro ids ⟨⟩ bundle member listed approved
    obtain ⟨newer, newerIn, newest, unlisted⟩ := bundled.cleaning _ rfl bundle
      (List.mem_of_mem_filter member) (List.mem_cons_of_mem _ listed) approved
    refine ⟨newer, stays newer newerIn fun isHead => ?_, newest, fun inRest => ?_⟩
    · exact unlisted (isHead ▸ List.mem_cons_self)
    · exact unlisted (List.mem_cons_of_mem _ inRest)

theorem Bundled.pass {bundleId : String} {rest : List String}
    (bundled : Bundled bundles published refreshes runs (some (bundleId :: rest))) :
    Bundled bundles published refreshes runs (some rest) := by
  refine { bundled with cleaning := ?_ }
  rintro ids ⟨⟩ bundle member listed approved
  obtain ⟨newer, newerIn, newest, unlisted⟩ :=
    bundled.cleaning _ rfl bundle member (List.mem_cons_of_mem _ listed) approved
  exact ⟨newer, newerIn, newest, fun inRest => unlisted (List.mem_cons_of_mem _ inRest)⟩

def Kept (world : World) : Prop :=
  Bundled world.bundles world.published world.refreshes world.runs world.cleaning

variable {sha256Hex : String → String} {world next : World}

theorem Kept.insertRun (kept : Kept world) (run : PinnedRun) : Kept (world.insertRun run) := by
  simp only [World.insertRun]
  split
  · next permitted =>
      refine { kept with runs := fun other member => ?_ }
      rcases List.mem_append.mp member with early | late
      · exact kept.runs other early
      · exact List.mem_singleton.mp late ▸ (Bool.and_eq_true_iff.mp permitted).2
  · exact kept

theorem Kept.insertRefresh (kept : Kept world) (current : Recording) :
    Kept (world.insertRefresh sha256Hex current) := by
  simp only [World.insertRefresh]
  split
  · next permitted =>
      refine { kept with refreshes := fun row member => ?_ }
      rcases List.mem_append.mp member with early | late
      · exact kept.refreshes row early
      · simp only [constraints, Bool.and_eq_true] at permitted
        exact List.mem_singleton.mp late ▸ permitted.1.2
  · exact kept

theorem Kept.step (kept : Kept world) {action : Action}
    (taken : world.step sha256Hex action = some next) : Kept next := by
  cases action with
  | publish admin bundle =>
      simp only [World.step, Option.ite_none_right_eq_some, List.all_eq_true, decide_eq_true_eq]
        at taken
      obtain ⟨⟨idle, fresh, _⟩, taken⟩ := taken
      obtain rfl := Option.some.inj taken
      rw [Kept, idle] at kept
      rw [Kept, idle]
      exact kept.publish fresh
  | readImage write =>
      simp only [World.step, Option.ite_none_right_eq_some] at taken
      obtain rfl := Option.some.inj taken.2
      exact kept
  | insert =>
      obtain ⟨current, _, rfl⟩ := Option.map_eq_some_iff.mp taken
      exact kept.insertRefresh current
  | abandon =>
      obtain rfl := Option.some.inj taken
      exact kept
  | retain projectId cutoff =>
      obtain rfl := Option.some.inj taken
      exact { kept with refreshes := fun row member => kept.refreshes row (mem_of_retain member) }
  | readCandidates projectId cutoff =>
      simp only [World.step, Option.ite_none_right_eq_some] at taken
      obtain rfl := Option.some.inj taken.2
      exact kept.candidates projectId cutoff
  | deleteBundle =>
      simp only [World.step] at taken
      split at taken
      · next bundleId rest cleaning =>
          rw [Kept, cleaning] at kept
          split at taken
          · obtain rfl := Option.some.inj taken
            exact kept.pass
          · next unreferenced =>
              obtain rfl := Option.some.inj taken
              exact kept.delete (Bool.not_eq_true _ ▸ unreferenced)
      · cases taken
  | endCleaning =>
      obtain rfl := Option.some.inj taken
      exact { kept with cleaning := by simp }
  | readGood pipelineId identity =>
      obtain rfl := Option.some.inj taken
      exact kept
  | readLatest place =>
      simp only [World.step] at taken
      split at taken
      · obtain rfl := Option.some.inj taken
        exact kept
      · cases taken
  | createRun place runId =>
      simp only [World.step] at taken
      split at taken
      · obtain rfl := Option.some.inj taken
        have before : Kept { world with admissions := world.admissions.eraseIdx place } := kept
        exact before.insertRun _
      · cases taken
  | createSkipped runId pipelineId projectId bundlesEnabled snapshot =>
      obtain rfl := Option.some.inj taken
      exact kept.insertRun _
  | retireRun runId =>
      obtain rfl := Option.some.inj taken
      exact { kept with runs := fun run member => kept.runs run (List.mem_of_mem_filter member) }

theorem Kept.start : Kept {} :=
  Bundled.start

theorem Bundled.find (bundled : Bundled bundles published refreshes runs cleaning)
    {bundleId : String} (known : bundleKnown bundles (some bundleId) = true) :
    ∃ bundle ∈ bundles, bundle.bundleId = bundleId ∧ bundle ∈ published := by
  obtain ⟨bundle, member, same⟩ := bundleKnown_some known
  exact ⟨bundle, member, same, bundled.known bundle member⟩

/-- Whatever is published, recorded, admitted, retired and released, and wherever a clean-up stops:
the bundle of every run and of every definition that a pipeline would be admitted with is there,
and the latest bundle of a project is the latest that ever was published for it. -/
theorem admitted_bundles_kept (sha256Hex : String → String) (actions : List Action) (world : World)
    (run : Runs.exec (World.step sha256Hex) {} actions = some world) :
    (∀ run ∈ world.runs, ∀ bundleId, run.bundleId = some bundleId →
      ∃ bundle ∈ world.bundles, bundle.bundleId = bundleId ∧ bundle ∈ world.published) ∧
    (∀ identity pipelineId definition,
      admitted identity (refreshGood world.refreshes pipelineId)
        (refreshLatest world.refreshes pipelineId) = .ok definition →
      ∃ bundle ∈ world.bundles,
        bundle.bundleId = definition.bundleId ∧ bundle ∈ world.published) ∧
    ∀ projectId, bundleLatest world.bundles projectId = bundleLatest world.published projectId := by
  have sound := Runs.exec_invariant (Sound sha256Hex) (fun _ _ _ sound taken => sound.step taken)
    Sound.start run
  have kept := Runs.exec_invariant Kept (fun _ _ _ kept taken => kept.step taken) Kept.start run
  refine ⟨fun pinned member bundleId isBundle => ?_, fun identity pipelineId definition isOk => ?_,
    kept.latest⟩
  · exact kept.find (isBundle ▸ kept.runs pinned member)
  · cases isGood : refreshGood world.refreshes pipelineId with
    | none =>
        rw [isGood] at isOk
        cases isOk
    | some good =>
        obtain ⟨row, found, rfl⟩ := Option.map_eq_some_iff.mp isGood
        obtain ⟨snapshot, bundleId, _, isBundle, _⟩ := sound.images.reads pipelineId identity _ isGood
        have member := List.mem_of_mem_filter (List.argmax_mem found)
        have isNamed : row.bundleId = some bundleId := isBundle
        simp only [isGood, admitted] at isOk
        split at isOk
        · cases isOk
        · cases isOk
          rw [isNamed, Option.getD_some]
          exact kept.find (isNamed ▸ kept.refreshes row member)

/-- A clean-up that has chosen two bundles stops after the first; a refresh and a run take up the
second, and later only the run keeps it. -/
def interruptedCleanup : List Action :=
  [.publish true ⟨"b1", 1, "", "", true, 0⟩, .publish false ⟨"b2", 1, "", "", true, 5⟩,
    .publish true ⟨"b3", 1, "", "c", true, 9⟩, .readCandidates 1 100, .deleteBundle, .endCleaning,
    .readImage (passed 10 "v1" "b2"), .insert, .readCandidates 1 100, .endCleaning,
    .readGood 7 ⟨"P", true⟩, .readLatest 0, .createRun 0 1, .readImage (passed 20 "v2" "b3"),
    .insert, .retain 1 100, .readCandidates 1 100]

theorem interruptedCleanup_kept : ∃ world,
    Runs.exec (World.step id) {} interruptedCleanup = some world ∧
    (∀ run ∈ world.runs, ∀ bundleId, run.bundleId = some bundleId →
      ∃ bundle ∈ world.bundles, bundle.bundleId = bundleId ∧ bundle ∈ world.published) ∧
    (∀ identity pipelineId definition,
      admitted identity (refreshGood world.refreshes pipelineId)
        (refreshLatest world.refreshes pipelineId) = .ok definition →
      ∃ bundle ∈ world.bundles,
        bundle.bundleId = definition.bundleId ∧ bundle ∈ world.published) ∧
    ∀ projectId, bundleLatest world.bundles projectId =
      bundleLatest world.published projectId := by
  have accepted : (Runs.exec (World.step id) {} interruptedCleanup).isSome = true := by
    decide +kernel
  obtain ⟨world, run⟩ := Option.isSome_iff_exists.mp accepted
  exact ⟨world, run, admitted_bundles_kept id interruptedCleanup world run⟩

example : (Runs.exec (World.step id) {} interruptedCleanup).map (fun world =>
      (world.bundles.map (·.bundleId), world.refreshes.map (·.refreshId), world.cleaning)) =
    some (["b2", "b3"], [2], some []) := by
  decide +kernel

/-! ## The approved connection contract -/

def Action.byAdmin : Action → Bool
  | .publish admin _ => admin
  | _ => false

theorem approvedConnection_append {bundle : Bundle} (same :
      approvedConnection bundles bundle.projectId = some bundle.connections) (projectId : Nat) :
    approvedConnection (bundles ++ [bundle]) projectId = approvedConnection bundles projectId := by
  simp only [approvedConnection, bundleLatest, List.filter_append]
  by_cases fits : bundle.projectId = projectId ∧ bundle.approved = true
  · obtain ⟨latest, found, isSame⟩ := Option.map_eq_some_iff.mp same
    rw [bundleLatest, fits.1] at found
    have alone : [bundle].filter (fun row => row.projectId = projectId ∧ row.approved) =
        [bundle] := by
      simp [fits]
    rw [alone, List.argmax_concat, found]
    simp only
    split
    · rw [Option.map_some, Option.map_some, isSame]
    · rfl
  · rw [List.filter_cons_of_neg (by simpa using fits), List.filter_nil, List.append_nil]

theorem insertRun_published (run : PinnedRun) :
    (world.insertRun run).published = world.published := by
  rw [World.insertRun]
  split <;> rfl

theorem step_published {action : Action} (taken : world.step sha256Hex action = some next)
    (other : ∀ admin bundle, action ≠ .publish admin bundle) :
    next.published = world.published := by
  cases action with
  | publish admin bundle => exact absurd rfl (other admin bundle)
  | readImage write =>
      simp only [World.step, Option.ite_none_right_eq_some] at taken
      obtain rfl := Option.some.inj taken.2
      rfl
  | insert =>
      obtain ⟨current, _, rfl⟩ := Option.map_eq_some_iff.mp taken
      simp only [World.insertRefresh]
      split <;> rfl
  | readCandidates projectId cutoff =>
      simp only [World.step, Option.ite_none_right_eq_some] at taken
      obtain rfl := Option.some.inj taken.2
      rfl
  | deleteBundle =>
      simp only [World.step] at taken
      split at taken
      · split at taken
        all_goals
          obtain rfl := Option.some.inj taken
          rfl
      · cases taken
  | readLatest place =>
      simp only [World.step] at taken
      split at taken
      · obtain rfl := Option.some.inj taken
        rfl
      · cases taken
  | createRun place runId =>
      simp only [World.step] at taken
      split at taken
      · obtain rfl := Option.some.inj taken
        exact insertRun_published _
      · cases taken
  | createSkipped runId pipelineId projectId bundlesEnabled snapshot =>
      obtain rfl := Option.some.inj taken
      exact insertRun_published _
  | abandon | retain | endCleaning | readGood | retireRun =>
      obtain rfl := Option.some.inj taken
      rfl

theorem Kept.connections (kept : Kept world) {action : Action}
    (taken : world.step sha256Hex action = some next) (developer : action.byAdmin = false)
    (projectId : Nat) :
    approvedConnection next.bundles projectId = approvedConnection world.bundles projectId := by
  by_cases publishes : ∃ admin bundle, action = .publish admin bundle
  · obtain ⟨admin, bundle, rfl⟩ := publishes
    simp only [World.step, Option.ite_none_right_eq_some] at taken
    obtain ⟨⟨_, _, approved⟩, taken⟩ := taken
    obtain rfl := Option.some.inj taken
    have denied : admin ≠ true := by
      rw [Action.byAdmin] at developer
      simp [developer]
    exact approvedConnection_append (approved.resolve_left denied) projectId
  · have same := step_published taken fun admin bundle is => publishes ⟨admin, bundle, is⟩
    rw [approvedConnection, approvedConnection, (kept.step taken).latest, same, kept.latest]

/-- However publications, refreshes, retention and clean-ups follow each other, the connection
contract that is approved for a project changes only when an admin publishes. -/
theorem connections_changed_by_admins (sha256Hex : String → String) (before actions : List Action)
    (world next : World) (reached : Runs.exec (World.step sha256Hex) {} before = some world)
    (run : Runs.exec (World.step sha256Hex) world actions = some next)
    (developers : ∀ action ∈ actions, action.byAdmin = false) (projectId : Nat) :
    approvedConnection next.bundles projectId = approvedConnection world.bundles projectId := by
  have kept := Runs.exec_invariant Kept (fun _ _ _ kept taken => kept.step taken) Kept.start reached
  clear reached
  induction actions generalizing world with
  | nil =>
      obtain rfl := Option.some.inj run
      rfl
  | cons action rest ih =>
      obtain ⟨middle, taken, after⟩ := Runs.exec_cons.mp run
      rw [← kept.connections taken (developers action List.mem_cons_self) projectId]
      exact ih middle after (fun other member => developers other (List.mem_cons_of_mem _ member))
        (kept.step taken)

/-- An admin's publication, then a developer's under the same contract with a slower clock, and
a clean-up. -/
theorem developer_publication_keeps : ∃ world next,
    Runs.exec (World.step id) {} [.publish true ⟨"b1", 1, "", "x", true, 0⟩,
      .publish true ⟨"b2", 1, "", "y", true, 9⟩] = some world ∧
    Runs.exec (World.step id) world [.publish false ⟨"b3", 1, "", "y", true, 5⟩,
      .readCandidates 1 100, .deleteBundle, .deleteBundle] = some next ∧
    approvedConnection next.bundles 1 = approvedConnection world.bundles 1 := by
  have accepted : (Runs.exec (World.step id) {} [.publish true ⟨"b1", 1, "", "x", true, 0⟩,
      .publish true ⟨"b2", 1, "", "y", true, 9⟩]).any (fun world =>
        (Runs.exec (World.step id) world [.publish false ⟨"b3", 1, "", "y", true, 5⟩,
          .readCandidates 1 100, .deleteBundle, .deleteBundle]).isSome) = true := by
    decide +kernel
  obtain ⟨world, reached, goesOn⟩ := (Option.any_eq_true _ _).mp accepted
  obtain ⟨next, run⟩ := Option.isSome_iff_exists.mp goesOn
  exact ⟨world, next, reached, run,
    connections_changed_by_admins id _ _ world next reached run (by decide) 1⟩

end Refreshes

end EtlCraft
