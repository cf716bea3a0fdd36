import EtlCraft.ConfigMoments
import EtlCraft.Results

/-! Retention of the configuration's history: batches of closed versions removed while the tables go
on changing, and when the rows as of a moment are still right. -/

namespace EtlCraft

namespace ConfigHistory

/-- One batch of a purge; the reserved versions and those of other projects are not eligible. -/
structure Purge (Key Values Stamp : Type) where
  cutoff : Int
  batch : Nat
  eligible : ConfigVersion Key Values Stamp → Bool := fun _ => true

inductive HistoryEvent (Table Key Values Stamp : Type)
  | change (name : Table) (change : ConfigChange Key Values Stamp)
  | purge (name : Table) (purge : Purge Key Values Stamp)

inductive HistoryError (Key : Type)
  | noHistory (since : Option Int)
  | unknown (rows : List Key)
  deriving DecidableEq

variable {Table Key Values Stamp : Type} [DecidableEq Table] [DecidableEq Key]

def HistoryEvent.isChange : HistoryEvent Table Key Values Stamp → Bool
  | .change _ _ => true
  | .purge _ _ => false

def Purge.removable (purge : Purge Key Values Stamp) (version : ConfigVersion Key Values Stamp) :
    Bool :=
  !version.current && version.validTo < purge.cutoff && purge.eligible version

def purged (versions : List (ConfigVersion Key Values Stamp)) (purge : Purge Key Values Stamp) :
    List (ConfigVersion Key Values Stamp) :=
  (List.eraseP purge.removable)^[purge.batch] versions

abbrev Config (Table Key Values Stamp : Type) := Table → ConfigHistory Key Values Stamp

def historyStep [DecidableEq Values] (config : Config Table Key Values Stamp) :
    HistoryEvent Table Key Values Stamp → Option (Config Table Key Values Stamp)
  | .change name edit => ((config name).change edit).map (Function.update config name)
  | .purge name purge =>
      some (Function.update config name
        { config name with versions := purged (config name).versions purge })

def requireHistoryAt (tables : List Table) (config : Config Table Key Values Stamp) (asOf : Int) :
    Except (HistoryError Key) Unit :=
  match (tables.filterMap fun name =>
      (config name).versions.head?.map ConfigVersion.validFrom).min? with
  | none => .error (.noHistory none)
  | some start => if asOf < start then .error (.noHistory (some start)) else .ok ()

def configAsOf (tables : List Table) (table : ConfigTable Values) (name : Table)
    (config : Config Table Key Values Stamp) (asOf : Int) :
    Except (HistoryError Key) (List (ConfigRow Key Values Stamp)) := do
  requireHistoryAt tables config asOf
  (rowsAt table (config name).rows (config name).versions asOf).mapError .unknown

def TooEarly (tables : List Table) (config : Config Table Key Values Stamp) (asOf : Int) : Prop :=
  ∀ name ∈ tables, ∀ first ∈ (config name).versions.head?, asOf < first.validFrom

def Unknown (table : ConfigTable Values) (versions : List (ConfigVersion Key Values Stamp))
    (asOf : Int) : Prop :=
  ∃ key first, Keyed.lookup ConfigVersion.key versions key = some first ∧
    unknownBefore table asOf first = true

def shownFirst (table : ConfigTable Values) (versions : List (ConfigVersion Key Values Stamp))
    (asOf : Int) (key : Key) : Option (ConfigRow Key Values Stamp) :=
  (Keyed.lookup ConfigVersion.key versions key).bind (shownBefore table asOf)

/-- The versions that a moment rests on are kept: the version of a row that is valid then, or one by
a contract migration that shows the same row; and a row without a valid version was not unknown
before and its first kept version shows what its first version showed. -/
def Intact (table : ConfigTable Values) (kept full : List (ConfigVersion Key Values Stamp))
    (asOf : Int) : Prop :=
  ∀ key, match Keyed.lookup ConfigVersion.key (validVersions full asOf) key with
    | some version => version ∈ kept ∨ shownFirst table kept asOf key = some version.row
    | none =>
        (∀ first, Keyed.lookup ConfigVersion.key full key = some first →
          unknownBefore table asOf first = false) ∧
        shownFirst table kept asOf key = shownFirst table full asOf key

/-- What purges leave of a history: every row, and every current version. -/
structure Retained (kept full : ConfigHistory Key Values Stamp) : Prop where
  rows : kept.rows = full.rows
  used : kept.used = full.used
  clock : kept.clock = full.clock
  versions : kept.versions.Sublist full.versions
  current : ∀ version ∈ full.versions, version.current = true → version ∈ kept.versions

omit [DecidableEq Key] in
theorem Retained.refl (history : ConfigHistory Key Values Stamp) : Retained history history :=
  ⟨rfl, rfl, rfl, List.Sublist.refl _, fun _ member _ => member⟩

omit [DecidableEq Key] in
theorem purged_sublist (versions : List (ConfigVersion Key Values Stamp))
    (purge : Purge Key Values Stamp) : (purged versions purge).Sublist versions := by
  rw [purged]
  induction purge.batch with
  | zero => exact List.Sublist.refl _
  | succ batch ih =>
      rw [Function.iterate_succ_apply']
      exact List.eraseP_sublist.trans ih

omit [DecidableEq Key] in
theorem mem_purged {versions : List (ConfigVersion Key Values Stamp)}
    {purge : Purge Key Values Stamp} {version : ConfigVersion Key Values Stamp}
    (member : version ∈ versions) (current : version.current = true) :
    version ∈ purged versions purge := by
  have stays : ¬purge.removable version = true := by
    simp [Purge.removable, current]
  rw [purged]
  induction purge.batch with
  | zero => exact member
  | succ batch ih =>
      rw [Function.iterate_succ_apply']
      exact (List.mem_eraseP_of_neg stays).mpr ih

omit [DecidableEq Key] in
theorem Retained.purge {kept full : ConfigHistory Key Values Stamp} (retained : Retained kept full)
    (purge : Purge Key Values Stamp) :
    Retained { kept with versions := purged kept.versions purge } full :=
  ⟨retained.rows, retained.used, retained.clock,
    (purged_sublist kept.versions purge).trans retained.versions,
    fun version member current => mem_purged (retained.current version member current) current⟩

theorem capture_retained {kept full : List (ConfigVersion Key Values Stamp)}
    (versions : kept.Sublist full)
    (current : ∀ version ∈ full, version.current = true → version ∈ kept)
    (operation : ChangeOperation) (now : Int) (migration : Option String)
    (row : ConfigRow Key Values Stamp) :
    (capture kept operation now migration row).Sublist (capture full operation now migration row) ∧
      ∀ version ∈ capture full operation now migration row, version.current = true →
        version ∈ capture kept operation now migration row := by
  refine ⟨(versions.map _).append (List.Sublist.refl _), ?_⟩
  intro version member isCurrent
  rcases mem_capture.mp member with ⟨old, inFull, rfl⟩ | rfl
  · rw [closing] at isCurrent
    split at isCurrent
    · cases isCurrent
    · exact mem_capture.mpr (.inl ⟨old, current old inFull isCurrent, rfl⟩)
  · exact mem_capture.mpr (.inr rfl)

theorem Retained.change [DecidableEq Values] {kept full next : ConfigHistory Key Values Stamp}
    {edit : ConfigChange Key Values Stamp} (retained : Retained kept full)
    (taken : kept.change edit = some next) :
    ∃ other, full.change edit = some other ∧ Retained next other := by
  obtain ⟨rows, keptVersions, used, clock⟩ := kept
  obtain ⟨_, fullVersions, _, _⟩ := full
  obtain ⟨same, sameUsed, sameClock, versions, current⟩ := retained
  dsimp only at same sameUsed sameClock versions current
  subst same sameUsed sameClock
  have captured := fun operation row =>
    capture_retained versions current operation edit.now edit.migration row
  rw [ConfigHistory.change] at taken ⊢
  split at taken
  · cases taken
  · rename_i later
    rw [if_neg later]
    cases kind : edit.edit with
    | insert key values =>
        simp only [kind] at taken ⊢
        split at taken
        · cases taken
        · rename_i fresh
          cases taken
          rw [if_neg fresh]
          exact ⟨_, rfl, rfl, rfl, rfl, (captured _ _).1, (captured _ _).2⟩
    | update key values =>
        simp only [kind, Option.map_eq_some_iff] at taken ⊢
        obtain ⟨old, found, rfl⟩ := taken
        refine ⟨_, ⟨old, found, rfl⟩, ?_⟩
        split
        · exact ⟨rfl, rfl, rfl, versions, current⟩
        · exact ⟨rfl, rfl, rfl, (captured _ _).1, (captured _ _).2⟩
    | delete key =>
        simp only [kind, Option.map_eq_some_iff] at taken ⊢
        obtain ⟨old, found, rfl⟩ := taken
        exact ⟨_, ⟨old, found, rfl⟩, rfl, rfl, rfl, (captured _ _).1, (captured _ _).2⟩

theorem retained_run [DecidableEq Values] {start whole final : Config Table Key Values Stamp}
    {events : List (HistoryEvent Table Key Values Stamp)}
    (retained : ∀ name, Retained (start name) (whole name))
    (run : Runs.exec historyStep start events = some final) :
    ∃ full, Runs.exec historyStep whole (events.filter HistoryEvent.isChange) = some full ∧
      ∀ name, Retained (final name) (full name) := by
  induction events generalizing start whole with
  | nil =>
      cases run
      exact ⟨whole, rfl, retained⟩
  | cons event events ih =>
      obtain ⟨next, taken, rest⟩ := Runs.exec_cons.mp run
      cases event with
      | change name edit =>
          rw [historyStep, Option.map_eq_some_iff] at taken
          obtain ⟨changed, took, rfl⟩ := taken
          obtain ⟨other, tookFull, kept⟩ := (retained name).change took
          have step : historyStep whole (.change name edit) =
              some (Function.update whole name other) := by
            rw [historyStep, tookFull, Option.map_some]
          have after : ∀ wanted, Retained (Function.update start name changed wanted)
              (Function.update whole name other wanted) := by
            intro wanted
            by_cases same : wanted = name
            · subst same
              rwa [Function.update_self, Function.update_self]
            · rw [Function.update_of_ne same, Function.update_of_ne same]
              exact retained wanted
          obtain ⟨full, following, keeps⟩ := ih after rest
          exact ⟨full, Runs.exec_cons.mpr ⟨_, step, following⟩, keeps⟩
      | purge name purge =>
          rw [historyStep, Option.some.injEq] at taken
          subst next
          refine ih (fun wanted => ?_) rest
          by_cases same : wanted = name
          · subst same
            rw [Function.update_self]
            exact (retained wanted).purge purge
          · rw [Function.update_of_ne same]
            exact retained wanted

def Chained (versions : List (ConfigVersion Key Values Stamp)) : Prop :=
  versions.Pairwise fun first second =>
    first.key = second.key → first.current = false ∧ first.validTo ≤ second.validFrom

theorem Chained.capture {versions : List (ConfigVersion Key Values Stamp)} {clock now : Int}
    (chained : Chained versions)
    (closed : ∀ version ∈ versions, version.current = false → version.validTo ≤ clock)
    (later : clock ≤ now) (operation : ChangeOperation) (migration : Option String)
    (row : ConfigRow Key Values Stamp) :
    Chained (capture versions operation now migration row) := by
  rw [Chained, capture_eq, List.pairwise_append, List.pairwise_map]
  refine ⟨?_, List.pairwise_singleton _ _, ?_⟩
  · refine chained.imp ?_
    intro first second before same
    rw [closing_key, closing_key] at same
    obtain ⟨ended, until'⟩ := before same
    have unchanged : closing row.key now first = first := by
      rw [closing, ended, Bool.false_and, if_neg Bool.false_ne_true]
    rw [unchanged, closing_validFrom]
    exact ⟨ended, until'⟩
  · intro first member second new
    obtain ⟨old, inVersions, rfl⟩ := List.mem_map.mp member
    rw [List.mem_singleton.mp new, closing_key]
    intro same
    have ofRow : old.key = row.key := same
    rw [closing]
    split
    · exact ⟨rfl, Int.le_refl _⟩
    · rename_i open'
      rw [Bool.and_eq_true, decide_eq_true_eq, and_iff_left ofRow, Bool.not_eq_true] at open'
      exact ⟨open', Int.le_trans (closed old inVersions open') later⟩

omit [DecidableEq Key] in
theorem Chained.valid_unique {versions : List (ConfigVersion Key Values Stamp)}
    (chained : Chained versions) {asOf : Int} {first second : ConfigVersion Key Values Stamp}
    (left : first ∈ versions) (right : second ∈ versions) (same : first.key = second.key)
    (firstValid : first.validAt asOf = true) (secondValid : second.validAt asOf = true) :
    first = second := by
  have apart : versions.Pairwise fun first second =>
      ¬(first.key = second.key ∧ first.validAt asOf = true ∧ second.validAt asOf = true) := by
    refine chained.imp ?_
    rintro first second before ⟨sameKey, validFirst, validSecond⟩
    have ends := (before sameKey).2
    simp only [ConfigVersion.validAt, Bool.and_eq_true, decide_eq_true_eq] at validFirst validSecond
    omega
  have symmetric : Std.Symm fun first second : ConfigVersion Key Values Stamp =>
      ¬(first.key = second.key ∧ first.validAt asOf = true ∧ second.validAt asOf = true) := by
    refine ⟨?_⟩
    rintro first second clash ⟨sameKey, validSecond, validFirst⟩
    exact clash ⟨sameKey.symm, validFirst, validSecond⟩
  by_contra different
  exact apart.forall left right different ⟨same, firstValid, secondValid⟩

section Answers

variable {table : ConfigTable Values} {kept full : ConfigHistory Key Values Stamp} {asOf : Int}
  {key : Key}

def Kept (history : ConfigHistory Key Values Stamp) : Prop :=
  ∀ version ∈ history.versions, ∀ row,
    Keyed.lookup ConfigRow.key history.rows version.key = some row →
    ∃ other ∈ history.versions, other.key = version.key ∧ other.current = true

theorem kept_answer (retained : Retained kept full) (currents : Kept full)
    (known : ¬Unknown table kept.versions asOf)
    (versioned : Keyed.lookup ConfigVersion.key full.versions key ≠ none)
    (noValid : Keyed.lookup ConfigVersion.key (validVersions kept.versions asOf) key = none) :
    rowAt table kept.rows kept.versions asOf key =
      .ok (shownFirst table kept.versions asOf key) := by
  rw [rowAt, shownFirst]
  cases found : Keyed.lookup ConfigVersion.key kept.versions key with
  | some first =>
      have decided : unknownBefore table asOf first ≠ true :=
        fun unknown => known ⟨key, first, found, unknown⟩
      simp [noValid, decided]
  | none =>
      -- a live row keeps its current version
      have gone : Keyed.lookup ConfigRow.key kept.rows key = none := by
        rw [Option.eq_none_iff_forall_ne_some, retained.rows]
        intro row live
        obtain ⟨version, foundFull⟩ := Option.ne_none_iff_exists'.mp versioned
        obtain ⟨member, rfl⟩ := Keyed.lookup_mem foundFull
        obtain ⟨current, inFull, same, isCurrent⟩ := currents version member row live
        exact Keyed.lookup_none.mp found current (retained.current current inFull isCurrent) same
      simp [gone]

theorem full_answer {first : ConfigVersion Key Values Stamp}
    (found : Keyed.lookup ConfigVersion.key full.versions key = some first)
    (noValid : Keyed.lookup ConfigVersion.key (validVersions full.versions asOf) key = none) :
    rowAt table full.rows full.versions asOf key =
      if unknownBefore table asOf first then .error ()
      else .ok (shownFirst table full.versions asOf key) := by
  rw [rowAt, shownFirst, found]
  simp [noValid]

theorem valid_kept (retained : Retained kept full) (chained : Chained full.versions)
    {version : ConfigVersion Key Values Stamp}
    (valid : Keyed.lookup ConfigVersion.key (validVersions full.versions asOf) key = some version)
    (stays : version ∈ kept.versions) :
    Keyed.lookup ConfigVersion.key (validVersions kept.versions asOf) key = some version := by
  obtain ⟨member, rfl⟩ := Keyed.lookup_mem valid
  obtain ⟨inFull, validAt⟩ := mem_valid member
  cases found : Keyed.lookup ConfigVersion.key (validVersions kept.versions asOf) version.key with
  | none =>
      rw [valid_none.mp found version stays rfl] at validAt
      cases validAt
  | some other =>
      obtain ⟨otherIn, same⟩ := Keyed.lookup_mem found
      obtain ⟨inKept, otherValid⟩ := mem_valid otherIn
      rw [chained.valid_unique (retained.versions.subset inKept) inFull same otherValid validAt]

theorem valid_purged (retained : Retained kept full) (chained : Chained full.versions)
    {version : ConfigVersion Key Values Stamp}
    (valid : Keyed.lookup ConfigVersion.key (validVersions full.versions asOf) key = some version)
    (gone : version ∉ kept.versions) :
    Keyed.lookup ConfigVersion.key (validVersions kept.versions asOf) key = none := by
  obtain ⟨member, rfl⟩ := Keyed.lookup_mem valid
  obtain ⟨inFull, validAt⟩ := mem_valid member
  rw [valid_none]
  intro other inKept same
  by_contra otherValid
  rw [Bool.not_eq_false] at otherValid
  rw [← chained.valid_unique (retained.versions.subset inKept) inFull same otherValid validAt] at gone
  exact gone inKept

theorem valid_none_kept (retained : Retained kept full)
    (noValid : Keyed.lookup ConfigVersion.key (validVersions full.versions asOf) key = none) :
    Keyed.lookup ConfigVersion.key (validVersions kept.versions asOf) key = none :=
  valid_none.mpr fun version member => valid_none.mp noValid version (retained.versions.subset member)

/-- The rows are answered alike exactly when the versions they rest on are kept. -/
theorem answer_iff (retained : Retained kept full) (chained : Chained full.versions)
    (currents : Kept full) (known : ¬Unknown table kept.versions asOf) :
    (∀ key, rowAt table kept.rows kept.versions asOf key =
      rowAt table full.rows full.versions asOf key) ↔
    Intact table kept.versions full.versions asOf := by
  refine forall_congr' fun key => ?_
  cases valid : Keyed.lookup ConfigVersion.key (validVersions full.versions asOf) key with
  | some version =>
      have versioned : Keyed.lookup ConfigVersion.key full.versions key ≠ none := by
        intro absent
        obtain ⟨member, same⟩ := Keyed.lookup_mem valid
        exact Keyed.lookup_none.mp absent version (mem_valid member).1 same
      have answered : rowAt table full.rows full.versions asOf key = .ok (some version.row) := by
        obtain ⟨first, found⟩ := Option.ne_none_iff_exists'.mp versioned
        simp [rowAt, found, valid]
      rw [answered]
      by_cases stays : version ∈ kept.versions
      · refine iff_of_true ?_ (.inl stays)
        have keptValid := valid_kept retained chained valid stays
        cases found : Keyed.lookup ConfigVersion.key kept.versions key with
        | none =>
            exact absurd (Keyed.lookup_mem valid).2 (Keyed.lookup_none.mp found version stays)
        | some first => simp [rowAt, found, keptValid]
      · rw [kept_answer retained currents known versioned
          (valid_purged retained chained valid stays), Except.ok.injEq]
        exact (or_iff_right stays).symm
  | none =>
      have keptNone := valid_none_kept retained valid
      cases found : Keyed.lookup ConfigVersion.key full.versions key with
      | none =>
          have keptFound : Keyed.lookup ConfigVersion.key kept.versions key = none :=
            Keyed.lookup_none.mpr fun version member =>
              Keyed.lookup_none.mp found version (retained.versions.subset member)
          refine iff_of_true ?_ ⟨by simp, ?_⟩
          · simp [rowAt, found, keptFound, retained.rows]
          · simp [shownFirst, found, keptFound]
      | some first =>
          rw [kept_answer retained currents known (by simp [found]) keptNone,
            full_answer found valid]
          by_cases unknown : unknownBefore table asOf first = true
          · rw [if_pos unknown]
            refine iff_of_false (by simp) ?_
            rintro ⟨knows, _⟩
            rw [knows first rfl] at unknown
            cases unknown
          · rw [if_neg unknown, Except.ok.injEq]
            refine (and_iff_right ?_).symm
            rintro other same
            cases same
            exact Bool.eq_false_iff.mpr unknown

end Answers

section Purges

variable {tables : List Table} {table : ConfigTable Values} {asOf : Int}

omit [DecidableEq Table] [DecidableEq Key] in
theorem requireHistoryAt_ok {config : Config Table Key Values Stamp} :
    requireHistoryAt tables config asOf = .ok () ↔ ¬TooEarly tables config asOf := by
  have early : TooEarly tables config asOf ↔ ∀ start ∈ tables.filterMap fun name =>
      (config name).versions.head?.map ConfigVersion.validFrom, asOf < start := by
    simp only [TooEarly, List.mem_filterMap, Option.map_eq_some_iff, Option.mem_def]
    constructor
    · rintro later start ⟨name, member, first, isFirst, rfl⟩
      exact later name member first isFirst
    · intro later name member first isFirst
      exact later first.validFrom ⟨name, member, first, isFirst, rfl⟩
  rw [early, requireHistoryAt]
  split
  · rename_i empty
    rw [List.min?_eq_none_iff] at empty
    simp [empty]
  · rename_i start least
    have sooner : asOf < start ↔ ∀ other ∈ tables.filterMap fun name =>
        (config name).versions.head?.map ConfigVersion.validFrom, asOf < other :=
      List.le_min?_iff least
    rw [← sooner]
    split
    · simp_all
    · simp_all

omit [DecidableEq Table] in
theorem configAsOf_ok {config : Config Table Key Values Stamp} {name : Table}
    {result : List (ConfigRow Key Values Stamp)} :
    configAsOf tables table name config asOf = .ok result ↔
      ¬TooEarly tables config asOf ∧
        rowsAt table (config name).rows (config name).versions asOf = .ok result := by
  rw [configAsOf, Results.bind_ok, ← requireHistoryAt_ok]
  constructor
  · rintro ⟨⟨⟩, enough, done⟩
    exact ⟨enough, Results.mapError_ok done⟩
  · rintro ⟨enough, done⟩
    refine ⟨(), enough, ?_⟩
    rw [done]
    rfl

structure Whole (start : List (ConfigRow Key Values Stamp))
    (history : ConfigHistory Key Values Stamp) : Prop where
  begun : Begun start history
  settled : Settled (fun _ => ()) history
  chained : Chained history.versions

theorem Whole.change [DecidableEq Values] {start : List (ConfigRow Key Values Stamp)}
    {history next : ConfigHistory Key Values Stamp} {edit : ConfigChange Key Values Stamp}
    (whole : Whole start history) (taken : history.change edit = some next) : Whole start next := by
  refine ⟨whole.begun.change taken,
    whole.settled.change whole.begun (fun _ _ _ _ _ _ => rfl) taken, ?_⟩
  obtain ⟨later, _, _, effect⟩ := change_effect whole.begun.distinct whole.begun.inUse taken
  cases effect with
  | recorded operation row versions rows fresh held used =>
      rw [versions]
      exact whole.chained.capture whole.settled.closed later operation edit.migration row
  | restamped old row update stamp found same versions rows used =>
      rw [versions]
      exact whole.chained

theorem whole_run [DecidableEq Values] {start : Table → List (ConfigRow Key Values Stamp)}
    (distinct : ∀ name, ((start name).map ConfigRow.key).Nodup) {clock : Table → Int}
    {events : List (HistoryEvent Table Key Values Stamp)}
    (changes : ∀ event ∈ events, event.isChange = true) {full : Config Table Key Values Stamp}
    (run : Runs.exec historyStep (fun name => recording (start name) (clock name)) events =
      some full) (name : Table) : Whole (start name) (full name) := by
  refine Runs.exec_invariant_along (fun config : Config Table Key Values Stamp =>
      ∀ name, Whole (start name) (config name)) ?_
    (fun name => ⟨Begun.recording (distinct name) (clock name), ⟨nofun, nofun, nofun⟩,
      List.Pairwise.nil⟩)
    (Runs.along_and (Runs.along_true _ events) changes) run name
  intro config event next condition whole taken wanted
  cases event with
  | purge name purge => cases condition.2
  | change name edit =>
      rw [historyStep, Option.map_eq_some_iff] at taken
      obtain ⟨changed, took, rfl⟩ := taken
      by_cases same : wanted = name
      · subst same
        rw [Function.update_self]
        exact (whole wanted).change took
      · rw [Function.update_of_ne same]
        exact whole wanted

omit [DecidableEq Table] in
theorem tooEarly_kept {start : Table → List (ConfigRow Key Values Stamp)}
    {kept full : Config Table Key Values Stamp} (retained : ∀ name, Retained (kept name) (full name))
    (whole : ∀ name, Whole (start name) (full name)) (early : TooEarly tables full asOf) :
    TooEarly tables kept asOf := by
  intro name member first isFirst
  have inFull := (retained name).versions.subset (List.mem_of_mem_head? isFirst)
  have ordered := (whole name).begun.ordered
  cases versions : (full name).versions with
  | nil =>
      rw [versions] at inFull
      cases inFull
  | cons head rest =>
      have later := early name member head (by rw [versions]; rfl)
      rw [versions] at inFull ordered
      rcases List.mem_cons.mp inFull with rfl | after
      · exact later
      · exact Int.lt_of_lt_of_le later ((List.pairwise_cons.mp ordered).1 first after)

theorem unknown_error {start : List (ConfigRow Key Values Stamp)}
    {kept full : ConfigHistory Key Values Stamp} (retained : Retained kept full)
    (whole : Whole start full) (unknown : Unknown table kept.versions asOf) :
    ∃ ids, rowsAt table kept.rows kept.versions asOf = .error ids := by
  obtain ⟨key, first, found, isUnknown⟩ := unknown
  rw [rowsAt_error]
  refine ⟨key, ?_⟩
  have after : asOf < first.validFrom := by
    rw [unknownBefore, Bool.and_eq_true, decide_eq_true_eq] at isUnknown
    exact isUnknown.2
  have noValid : Keyed.lookup ConfigVersion.key (validVersions kept.versions asOf) key = none := by
    rw [valid_none]
    intro version member same
    have notBefore := first_earliest (whole.begun.ordered.sublist retained.versions) found member same
    simp [ConfigVersion.validAt]
    omega
  simp [rowAt, found, noValid, isUnknown]

theorem rowAt_unknown {current : List (ConfigRow Key Values Stamp)}
    {versions : List (ConfigVersion Key Values Stamp)} {key : Key}
    (failed : rowAt table current versions asOf key = .error ()) :
    Unknown table versions asOf := by
  rw [rowAt] at failed
  split at failed
  · cases failed
  · rename_i first found
    split at failed
    · cases failed
    · split at failed
      · exact ⟨key, first, found, ‹_›⟩
      · cases failed

theorem rowsAt_perm_iff {first second : ConfigHistory Key Values Stamp}
    (distinct : (first.rows.map ConfigRow.key).Nodup) (same : first.rows = second.rows)
    {result : List (ConfigRow Key Values Stamp)}
    (done : rowsAt table first.rows first.versions asOf = .ok result) :
    (∃ other, rowsAt table second.rows second.versions asOf = .ok other ∧ result.Perm other) ↔
      ∀ key, rowAt table first.rows first.versions asOf key =
        rowAt table second.rows second.versions asOf key := by
  obtain ⟨resultDistinct, answers⟩ := rowsAt_ok distinct done
  constructor
  · rintro ⟨other, otherDone, perm⟩ key
    rw [answers key, (rowsAt_ok (same ▸ distinct) otherDone).2 key,
      Keyed.lookup_of_perm resultDistinct perm key]
  · intro alike
    cases otherDone : rowsAt table second.rows second.versions asOf with
    | error ids =>
        obtain ⟨key, failed⟩ := rowsAt_error.mp ⟨ids, otherDone⟩
        rw [← alike key, answers key] at failed
        cases failed
    | ok other =>
        obtain ⟨otherDistinct, otherAnswers⟩ := rowsAt_ok (same ▸ distinct) otherDone
        refine ⟨other, rfl, ?_⟩
        have perm : (result.map id).Perm (other.map id) := by
          refine Keyed.perm_of_lookup (fun _ _ => congrArg ConfigRow.key) resultDistinct
            otherDistinct fun key => ?_
          have equal := (answers key).symm.trans ((alike key).trans (otherAnswers key))
          injection equal with equal
          exact congrArg (Option.map id) equal
        rwa [List.map_id, List.map_id] at perm

/-- A purged history answers as the whole one or refuses, exactly when it refuses or the versions that
the moment rests on are kept. -/
theorem purged_answers_iff [DecidableEq Values] {start : Table → List (ConfigRow Key Values Stamp)}
    (distinct : ∀ name, ((start name).map ConfigRow.key).Nodup) {clock : Table → Int}
    {events : List (HistoryEvent Table Key Values Stamp)} {kept : Config Table Key Values Stamp}
    (run : Runs.exec historyStep (fun name => recording (start name) (clock name)) events =
      some kept) (tables : List Table) (table : ConfigTable Values) (name : Table) (asOf : Int) :
    ∃ full, Runs.exec historyStep (fun name => recording (start name) (clock name))
        (events.filter HistoryEvent.isChange) = some full ∧
      ((∀ result, configAsOf tables table name kept asOf = .ok result →
          ∃ other, configAsOf tables table name full asOf = .ok other ∧ result.Perm other) ↔
        TooEarly tables kept asOf ∨ Unknown table (kept name).versions asOf ∨
          Intact table (kept name).versions (full name).versions asOf) := by
  obtain ⟨full, fullRun, retained⟩ := retained_run (fun name => Retained.refl _) run
  have whole := whole_run distinct (fun event member => (List.mem_filter.mp member).2) fullRun
  refine ⟨full, fullRun, ?_⟩
  by_cases early : TooEarly tables kept asOf
  · refine iff_of_true ?_ (.inl early)
    intro result done
    exact absurd early (configAsOf_ok.mp done).1
  · by_cases unknown : Unknown table (kept name).versions asOf
    · refine iff_of_true ?_ (.inr (.inl unknown))
      intro result done
      obtain ⟨ids, failed⟩ := unknown_error (retained name) (whole name) unknown
      rw [(configAsOf_ok.mp done).2] at failed
      cases failed
    · rw [or_iff_right early, or_iff_right unknown, ← answer_iff (retained name)
        (whole name).chained (whole name).settled.kept unknown]
      have enough : ¬TooEarly tables full asOf :=
        fun fullEarly => early (tooEarly_kept retained whole fullEarly)
      have keptDistinct : ((kept name).rows.map ConfigRow.key).Nodup := by
        rw [(retained name).rows]
        exact (whole name).begun.distinct
      cases answered : rowsAt table (kept name).rows (kept name).versions asOf with
      | error ids =>
          obtain ⟨key, failed⟩ := rowsAt_error.mp ⟨ids, answered⟩
          exact absurd (rowAt_unknown failed) unknown
      | ok result =>
          simp only [configAsOf_ok, answered, enough, early, not_false_eq_true, true_and,
            Except.ok.injEq, forall_eq']
          exact rowsAt_perm_iff keptDistinct (retained name).rows answered

/-- Two tasks of one table; the second is deleted, and a purge takes both of its versions. -/
def dropping : List (HistoryEvent Unit Nat String String) :=
  [.change () { now := 10, edit := .insert 1 "load", stamp := "ada" },
   .change () { now := 20, edit := .insert 2 "merge", stamp := "ada" },
   .change () { now := 30, edit := .delete 2, stamp := "ada" },
   .purge () { cutoff := 100, batch := 2 }]

def dropped : Config Unit Nat String String :=
  (Runs.exec historyStep (fun _ => recording [] 0) dropping).get (by decide +kernel)

theorem purged_answers_iff_dropping :
    ∃ full, Runs.exec historyStep (fun _ => recording [] 0)
        (dropping.filter HistoryEvent.isChange) = some full ∧
      ((∀ result, configAsOf [()] tasks () dropped 25 = .ok result →
          ∃ other, configAsOf [()] tasks () full 25 = .ok other ∧ result.Perm other) ↔
        TooEarly [()] dropped 25 ∨ Unknown tasks (dropped ()).versions 25 ∨
          Intact tasks (dropped ()).versions (full ()).versions 25) :=
  @purged_answers_iff Unit Nat String String _ _ _ (fun _ => []) (fun _ => List.nodup_nil)
    (fun _ => 0) dropping dropped (Option.some_get _).symm [()] tasks () 25

/-- The rows as of a moment at which the deleted task still stood leave it out. -/
theorem dropped_task_missing :
    ∃ kept full, Runs.exec historyStep (fun _ => recording [] 0) dropping = some kept ∧
      Runs.exec historyStep (fun _ => recording [] 0)
        (dropping.filter HistoryEvent.isChange) = some full ∧
      configAsOf [()] tasks () kept 25 = .ok [⟨1, "load", "ada"⟩] ∧
      configAsOf [()] tasks () full 25 = .ok [⟨1, "load", "ada"⟩, ⟨2, "merge", "ada"⟩] :=
  ⟨_, _, rfl, rfl, rfl, rfl⟩

end Purges

end ConfigHistory

end EtlCraft
