import EtlCraft.ArchiveCore

/-! No row leaves the source before the archive holds exactly what it held, together with the rows
that own it. -/

namespace EtlCraft.Archives

variable {Digest Destination Cutoff : Type} {setting : Setting Digest Cutoff}

/-! ## Owners -/

def rank (table : String) : Nat :=
  if table = "AUD_PIPELINES_RUN_LOG" then 0
  else if table = "AUD_TASK_RUN_LOG" then 1
  else if table = "AUD_TASK_ATTEMPTS" ∨ table = "AUD_BUSINESS_RULES_RUN_LOG" then 2
  else 3

theorem parents_rank : ∀ entry ∈ parents, rank entry.2.1 < rank entry.1 := by decide

/-- The owner tables are keyed by what their children name them by. -/
def Owning (setting : Setting Digest Cutoff) : Prop :=
  ∀ entry ∈ parents, setting.keys entry.2.1 = [entry.2.2]

/-- Every row of the part has the row that owns it among the parts. -/
def OwnersIn (parts : List ArchivePart) (part : ArchivePart) : Prop :=
  ∀ entry ∈ parents, entry.1 = part.table → ∀ row ∈ part.rows,
    cell part.columns row entry.2.2 ≠ .null → ∃ owner ∈ parts, owner.table = entry.2.1 ∧
      ∃ held ∈ owner.rows,
        cell owner.columns held entry.2.2 = cell part.columns row entry.2.2

def Distinct (setting : Setting Digest Cutoff) (source : String → Source) : Prop :=
  ∀ table, ((source table).rows.map ((source table).key (setting.keys table))).Nodup

section Owners

variable {source : String → Source} {parts : List ArchivePart} {part : ArchivePart}

theorem OwnersIn.mono {more : List ArchivePart} (here : OwnersIn parts part)
    (within : ∀ other ∈ parts, other ∈ more) : OwnersIn more part := by
  intro entry known named row member isOwned
  obtain ⟨owner, inParts, rest⟩ := here entry known named row member isOwned
  exact ⟨owner, within owner inParts, rest⟩

theorem boundedFrom_sublist (size : Nat) (rows : List Row) :
    (boundedFrom setting size rows).Sublist rows := by
  induction rows generalizing size with
  | nil => exact List.Sublist.refl _
  | cons row rest ih =>
      rw [boundedFrom]
      split
      · exact List.nil_sublist _
      · exact (ih _).cons_cons row

theorem bounded_sublist (rows : List Row) : (bounded setting rows).Sublist rows := by
  cases rows with
  | nil => exact List.Sublist.refl _
  | cons row rest => exact (boundedFrom_sublist _ rest).cons_cons row

theorem parents_once : (parents.map Prod.fst).Nodup := by decide

/-- As many rows as there are owners are all of them, as each has its own key. -/
theorem captureOwners_complete (distinct : Distinct setting source) {parent key : String}
    (keys : setting.keys parent = [key]) {ids : List Scalar}
    (enough : ¬(captureOwners setting source parent key ids).rows.length < ids.length)
    {id : Scalar} (wanted : id ∈ ids) :
    ∃ held ∈ (captureOwners setting source parent key ids).rows,
      cell (source parent).columns held key = id := by
  have sublist : (captureOwners setting source parent key ids).rows.Sublist
      ((source parent).rows.filter fun row => cell (source parent).columns row key ∈ ids) :=
    bounded_sublist _
  have cells : ((captureOwners setting source parent key ids).rows.map
      fun row => cell (source parent).columns row key).Nodup := by
    refine ((sublist.trans List.filter_sublist).map _).nodup ?_
    have whole := distinct parent
    rw [keys] at whole
    refine List.Nodup.of_map (fun value => [value]) ?_
    rw [List.map_map]
    exact whole
  have within : ∀ value ∈ (captureOwners setting source parent key ids).rows.map
      (fun row => cell (source parent).columns row key), value ∈ ids := by
    intro value member
    obtain ⟨row, captured, rfl⟩ := List.mem_map.mp member
    exact of_decide_eq_true (List.mem_filter.mp (sublist.subset captured)).2
  have same : ((captureOwners setting source parent key ids).rows.map
      fun row => cell (source parent).columns row key).Perm ids := by
    refine (List.subperm_of_subset cells within).perm_of_length_le ?_
    rw [List.length_map]
    omega
  exact List.mem_map.mp (same.mem_iff.mpr wanted)

theorem mem_owners {key : String} {row : Row} (member : row ∈ part.rows)
    (isOwned : cell part.columns row key ≠ .null) : cell part.columns row key ∈ owners part key := by
  rw [owners, List.mem_dedup, List.mem_filter]
  exact ⟨List.mem_map.mpr ⟨row, member, rfl⟩, decide_eq_true isOwned⟩

theorem context_owned (owning : Owning setting) (distinct : Distinct setting source)
    {fuel : Nat} {ancestors : List ArchivePart}
    (captured : context setting source fuel part = some ancestors) (enough : rank part.table < fuel) :
    ∀ other ∈ part :: ancestors, OwnersIn (part :: ancestors) other := by
  induction fuel generalizing part ancestors with
  | zero => exact absurd enough (Nat.not_lt_zero _)
  | succ fuel ih =>
      rw [context] at captured
      split at captured
      next absent =>
        obtain rfl := Option.some.inj captured
        intro other member entry known named
        obtain rfl := List.mem_singleton.mp member
        exact absurd named (Keyed.lookup_none.mp absent entry known)
      next name parent key found =>
        dsimp only at captured
        obtain ⟨known, named⟩ := Keyed.lookup_mem found
        have only : ∀ entry ∈ parents, entry.1 = part.table → entry = (name, parent, key) :=
          fun entry inParents same => Keyed.same_row parents_once inParents known (same.trans named.symm)
        split at captured
        next nobody =>
          obtain rfl := Option.some.inj captured
          intro other member entry inParents same row inRows isOwned
          obtain rfl := List.mem_singleton.mp member
          obtain rfl := only entry inParents same
          have listed := mem_owners inRows isOwned
          rw [nobody] at listed
          cases listed
        next somebody =>
          split at captured
          · contradiction
          next complete =>
            obtain ⟨rest, others, rfl⟩ := Option.map_eq_some_iff.mp captured
            have lower := parents_rank _ known
            have later := ih others (by
              have := named ▸ lower
              exact Nat.lt_of_lt_of_le this (Nat.lt_succ_iff.mp enough))
            intro other member
            rcases List.mem_cons.mp member with rfl | inRest
            · intro entry inParents same row inRows isOwned
              obtain rfl := only entry inParents same
              obtain ⟨held, isHeld, sameId⟩ := captureOwners_complete distinct
                (owning _ known) complete (mem_owners inRows isOwned)
              exact ⟨_, List.mem_cons_of_mem _ List.mem_cons_self, rfl, held, isHeld, sameId⟩
            · exact (later other inRest).mono fun _ listed => List.mem_cons_of_mem _ listed

theorem withContextFrom_owned (owning : Owning setting) (distinct : Distinct setting source)
    {fuel : Nat} {root : ArchivePart} {ancestors : List ArchivePart}
    (captured : withContextFrom setting source fuel part = some (root, ancestors)) :
    root.table = part.table ∧ root.keys = part.keys ∧
      ∀ other ∈ root :: ancestors, OwnersIn (root :: ancestors) other := by
  induction fuel generalizing part with
  | zero => cases captured
  | succ fuel ih =>
      rw [withContextFrom] at captured
      split at captured
      next found =>
        obtain ⟨rfl, rfl⟩ := Prod.mk.inj (Option.some.inj captured)
        refine ⟨rfl, rfl, context_owned owning distinct found ?_⟩
        have bound : ∀ table, rank table < parents.length := by
          intro table
          rw [rank]
          split
          · decide
          · split
            · decide
            · split <;> decide
        exact bound _
      · split at captured
        · contradiction
        · obtain ⟨table, keys, owned⟩ := ih captured
          exact ⟨table, keys, owned⟩

def Formed (part : ArchivePart) : Prop :=
  part.rows.Nodup ∧ ∀ row ∈ part.rows, row.length = part.columns.length

theorem formed_of_sublist (distinct : Distinct setting source) {table : String}
    (columns : part.columns = (source table).columns)
    (sublist : part.rows.Sublist (source table).rows) : Formed part :=
  ⟨sublist.nodup (List.Nodup.of_map _ (distinct table)),
    fun row member => columns ▸ (source table).width row (sublist.subset member)⟩

theorem context_formed (distinct : Distinct setting source) {fuel : Nat}
    {ancestors : List ArchivePart} (captured : context setting source fuel part = some ancestors) :
    ∀ other ∈ ancestors, Formed other := by
  induction fuel generalizing part ancestors with
  | zero =>
      obtain rfl := Option.some.inj captured
      simp
  | succ fuel ih =>
      rw [context] at captured
      split at captured
      · obtain rfl := Option.some.inj captured
        simp
      next name parent key found =>
        dsimp only at captured
        split at captured
        · obtain rfl := Option.some.inj captured
          simp
        · split at captured
          · contradiction
          · obtain ⟨rest, others, rfl⟩ := Option.map_eq_some_iff.mp captured
            intro other member
            rcases List.mem_cons.mp member with rfl | inRest
            · exact formed_of_sublist distinct rfl ((bounded_sublist _).trans List.filter_sublist)
            · exact ih others other inRest

theorem withContextFrom_formed (distinct : Distinct setting source) {fuel : Nat}
    {root : ArchivePart} {ancestors : List ArchivePart} (formed : Formed part)
    (captured : withContextFrom setting source fuel part = some (root, ancestors)) :
    ∀ other ∈ root :: ancestors, Formed other := by
  induction fuel generalizing part with
  | zero => cases captured
  | succ fuel ih =>
      rw [withContextFrom] at captured
      split at captured
      next found =>
        obtain ⟨rfl, rfl⟩ := Prod.mk.inj (Option.some.inj captured)
        intro other member
        rcases List.mem_cons.mp member with rfl | inRest
        · exact formed
        · exact context_formed distinct found other inRest
      · split at captured
        · contradiction
        · have half : Formed (halved part) :=
            ⟨(List.take_sublist _ _).nodup formed.1,
              fun row member => formed.2 row (List.mem_of_mem_take member)⟩
          exact ih half captured

end Owners

/-! ## The reading back -/

section Verified

variable {part : ArchivePart} {batch : ArchiveBatch Destination Cutoff}
  {archive : List (Archived Digest)} {found : List Digest} {version : String} [DecidableEq Digest]

theorem verifiedFrom_ok {seen : List Digest} {records : List (Archived Digest)}
    (checked : verifiedFrom setting part version seen records = some found) (once : seen.Nodup) :
    found = seen ++ records.map Archived.digest ∧ found.Nodup ∧ ∀ record ∈ records,
      expected setting part version record.digest = some (actual part record) ∧
        record.version = version := by
  induction records generalizing seen with
  | nil =>
      obtain rfl := Option.some.inj checked
      exact ⟨by simp, once, by simp⟩
  | cons record rest ih =>
      rw [verifiedFrom] at checked
      split at checked
      · contradiction
      next passes =>
        rw [not_or, not_or, not_not, not_not] at passes
        obtain ⟨fresh, same, sameVersion⟩ := passes
        have nodup : (seen ++ [record.digest]).Nodup := by
          rw [List.nodup_append]
          refine ⟨once, List.nodup_singleton _, ?_⟩
          rintro digest member other isOther rfl
          obtain rfl := List.mem_singleton.mp isOther
          exact fresh member
        obtain ⟨whole, distinct, each⟩ := ih checked nodup
        refine ⟨by simp [whole], distinct, ?_⟩
        intro other member
        rcases List.mem_cons.mp member with rfl | later
        · exact ⟨same, sameVersion⟩
        · exact each other later

theorem expected_mem {digest : Digest} {row : Row}
    (known : expected setting part version digest = some row) :
    row ∈ part.rows ∧ rowDigest setting part version row = digest := by
  obtain ⟨member, same⟩ := List.mem_filter.mp (List.mem_of_getLast? known)
  exact ⟨member, of_decide_eq_true same⟩

def Holds (setting : Setting Digest Cutoff) (archive : List (Archived Digest))
    (batch : ArchiveBatch Destination Cutoff) (part : ArchivePart) (row : Row) : Prop :=
  ∃ record ∈ archive, record.origin = batch.origin ∧ record.version = batch.version ∧
    record.digest = rowDigest setting part batch.version row ∧ actual part record = row

theorem verified_ok (checked : verified setting batch part archive = some found) :
    found.Nodup ∧ (∀ digest ∈ found, digest ∈ hashes setting part batch.version) ∧
      ∀ digest ∈ found, ∃ record ∈ archive, record.origin = batch.origin ∧
        record.version = batch.version ∧ record.digest = digest ∧
          expected setting part batch.version digest = some (actual part record) := by
  obtain ⟨whole, once, each⟩ := verifiedFrom_ok checked List.nodup_nil
  rw [List.nil_append] at whole
  have records : ∀ digest ∈ found, ∃ record ∈ archive, record.origin = batch.origin ∧
      record.version = batch.version ∧ record.digest = digest ∧
        expected setting part batch.version digest = some (actual part record) ∧
          digest ∈ hashes setting part batch.version := by
    intro digest member
    rw [whole] at member
    obtain ⟨record, taken, rfl⟩ := List.mem_map.mp member
    obtain ⟨inArchive, wanted⟩ := List.mem_filter.mp (List.mem_of_mem_take taken)
    obtain ⟨origin, isWanted⟩ := of_decide_eq_true wanted
    obtain ⟨same, sameVersion⟩ := each record taken
    exact ⟨record, inArchive, origin, sameVersion, rfl, same, isWanted⟩
  refine ⟨once, fun digest member => ?_, fun digest member => ?_⟩
  · obtain ⟨record, -, -, -, -, -, wanted⟩ := records digest member
    exact wanted
  · obtain ⟨record, inArchive, origin, sameVersion, sameDigest, same, -⟩ := records digest member
    exact ⟨record, inArchive, origin, sameVersion, sameDigest, same⟩

theorem verified_complete (checked : verified setting batch part archive = some found)
    (complete : found.length = part.rows.length) :
    ∀ row ∈ part.rows, Holds setting archive batch part row := by
  obtain ⟨once, wanted, each⟩ := verified_ok checked
  have all : found.Perm (hashes setting part batch.version) := by
    refine (List.subperm_of_subset once wanted).perm_of_length_le ?_
    rw [complete, ← List.length_map (rowDigest setting part batch.version)]
    exact (List.dedup_sublist _).length_le
  have distinct : (part.rows.map (rowDigest setting part batch.version)).Nodup := by
    rw [← List.dedup_eq_self]
    refine (List.dedup_sublist _).eq_of_length ?_
    rw [List.length_map, ← complete]
    exact all.length_eq.symm
  intro row member
  have listed : rowDigest setting part batch.version row ∈ found := by
    rw [all.mem_iff, hashes, List.mem_dedup]
    exact List.mem_map_of_mem member
  obtain ⟨record, inArchive, origin, sameVersion, sameDigest, same⟩ := each _ listed
  obtain ⟨isRow, equal⟩ := expected_mem same
  exact ⟨record, inArchive, origin, sameVersion, sameDigest,
    List.inj_on_of_nodup_map distinct isRow member equal⟩

end Verified

/-! ## The invariant -/

structure Framed (setting : Setting Digest Cutoff) (batch : ArchiveBatch Destination Cutoff) :
    Prop where
  keys : batch.root.keys = setting.keys batch.root.table
  formed : ∀ part ∈ batch.parts, Formed part
  owned : ∀ part ∈ batch.parts, OwnersIn batch.parts part

def PartHeld (setting : Setting Digest Cutoff)
    (archive : Destination → String → String → List (Archived Digest))
    (batch : ArchiveBatch Destination Cutoff) (part : ArchivePart) : Prop :=
  ∀ row ∈ part.rows,
    Holds setting (archive batch.destination batch.schema part.table) batch part row

def Stage.left : Stage Digest Destination Cutoff →
    Option (ArchiveBatch Destination Cutoff × List ArchivePart)
  | .idle => none
  | .copying batch todo => some (batch, todo)
  | .writing batch part _ todo => some (batch, part :: todo)
  | .checking batch part todo => some (batch, part :: todo)

def SessionSound (setting : Setting Digest Cutoff)
    (archive : Destination → String → String → List (Archived Digest))
    (held : Session Digest Destination Cutoff) : Prop :=
  ∀ batch left, held.stage.left = some (batch, left) → Framed setting batch ∧
    batch.destination = held.destination ∧ (∀ part ∈ left, part ∈ batch.parts) ∧
      ∀ part ∈ batch.parts, part ∈ left ∨ PartHeld setting archive batch part

structure Sound (setting : Setting Digest Cutoff) (state : State Digest Destination Cutoff) :
    Prop where
  distinct : Distinct setting state.source
  pending : ∀ batch, state.pending = some batch → Framed setting batch
  sessions : ∀ session held, state.sessions session = some held →
    SessionSound setting state.archive held
  retired : ∀ entry ∈ state.retired, Framed setting entry.1 ∧ entry.2 ∈ entry.1.root.rows ∧
    ∀ part ∈ entry.1.parts, PartHeld setting state.archive entry.1 part

def Extends (older newer : Destination → String → String → List (Archived Digest)) : Prop :=
  ∀ destination schema table record,
    record ∈ older destination schema table → record ∈ newer destination schema table

section Steps

variable {state next : State Digest Destination Cutoff} {batch : ArchiveBatch Destination Cutoff}
  {held : Session Digest Destination Cutoff} {session : Nat}

theorem Extends.refl (archive : Destination → String → String → List (Archived Digest)) :
    Extends archive archive := fun _ _ _ _ => id

theorem PartHeld.grow {older newer : Destination → String → String → List (Archived Digest)}
    {part : ArchivePart} (here : PartHeld setting older batch part) (grows : Extends older newer) :
    PartHeld setting newer batch part := by
  intro row member
  obtain ⟨record, inOlder, rest⟩ := here row member
  exact ⟨record, grows _ _ _ record inOlder, rest⟩

theorem SessionSound.grow {older newer : Destination → String → String → List (Archived Digest)}
    (here : SessionSound setting older held) (grows : Extends older newer) :
    SessionSound setting newer held := by
  intro batch left reached
  obtain ⟨framed, destination, within, parts⟩ := here batch left reached
  exact ⟨framed, destination, within, fun part member => (parts part member).imp_right (·.grow grows)⟩

theorem Sound.moves (sound : Sound setting state) (source : next.source = state.source)
    (pending : ∀ batch, next.pending = some batch → Framed setting batch)
    (grows : Extends state.archive next.archive) (retired : next.retired = state.retired)
    (sessions : ∀ session held, next.sessions session = some held →
      state.sessions session = some held ∨ SessionSound setting next.archive held) :
    Sound setting next where
  distinct := source ▸ sound.distinct
  pending := pending
  sessions := by
    intro session held isHeld
    rcases sessions session held isHeld with before | here
    · exact (sound.sessions session held before).grow grows
    · exact here
  retired := by
    intro entry member
    obtain ⟨framed, inRoot, parts⟩ := sound.retired entry (retired ▸ member)
    exact ⟨framed, inRoot, fun part inParts => (parts part inParts).grow grows⟩

theorem update_cases {Value : Type} {sessions : Nat → Option Value} {other : Nat}
    {changed : Option Value} {value : Value}
    (found : update sessions session changed other = some value) :
    sessions other = some value ∨ changed = some value := by
  rw [update] at found
  split at found
  · exact .inr found
  · exact .inl found

theorem Sound.close (sound : Sound setting state) (session : Nat) :
    Sound setting (state.close session) := by
  refine sound.moves rfl sound.pending (Extends.refl _) rfl fun other held isHeld => .inl ?_
  rcases update_cases isHeld with before | nothing
  · exact before
  · cases nothing

theorem Sound.move (sound : Sound setting state) {stage : Stage Digest Destination Cutoff}
    (there : SessionSound setting state.archive { held with stage }) :
    Sound setting (state.move session held stage) := by
  refine sound.moves rfl sound.pending (Extends.refl _) rfl fun other moved isHeld => ?_
  rcases update_cases isHeld with before | now
  · exact .inl before
  · obtain rfl := Option.some.inj now
    exact .inr there

theorem Sound.archive (sound : Sound setting state)
    {archive : Destination → String → String → List (Archived Digest)}
    {floating : List (Floating Digest Destination)} (grows : Extends state.archive archive) :
    Sound setting { state with archive, floating } :=
  sound.moves rfl sound.pending grows rfl fun _ _ isHeld => .inl isHeld

theorem selected_valid (distinct : Distinct setting state.source) (framed : Framed setting batch)
    {row : Row} (member : row ∈ (state.source batch.root.table).rows)
    (chosen : selected batch (valid setting state.source batch) (state.source batch.root.table) row) :
    row ∈ valid setting state.source batch := by
  obtain ⟨other, isValid, same⟩ := List.any_eq_true.mp chosen
  have key := of_decide_eq_true same
  have whole := isValid
  rw [valid] at whole
  split at whole
  · cases whole
  next intact =>
    obtain ⟨inRoot, -⟩ := List.mem_filter.mp whole
    simp only [List.any_eq_true, decide_eq_true_eq, not_exists, not_and, not_not] at intact
    have complete := intact batch.root List.mem_cons_self
    rw [unchanged] at complete
    split at complete
    · rw [List.length_nil, eq_comm, List.length_eq_zero_iff] at complete
      rw [complete] at inRoot
      cases inRoot
    next columns =>
      rw [not_not] at columns
      have still := List.filter_eq_self.mp (List.filter_sublist.eq_of_length complete) other inRoot
      have inSource := of_decide_eq_true still
      rw [ArchivePart.key, ← columns, framed.keys] at key
      have equal := List.inj_on_of_nodup_map (distinct batch.root.table) inSource member key
      exact equal ▸ isValid

theorem mem_valid {row : Row} (isValid : row ∈ valid setting state.source batch) :
    row ∈ batch.root.rows ∧
      row ∈ candidates setting state.source batch.root.table batch.query batch.cutoff := by
  rw [valid] at isValid
  split at isValid
  · cases isValid
  · obtain ⟨inRoot, eligible⟩ := List.mem_filter.mp isValid
    exact ⟨inRoot, of_decide_eq_true eligible⟩

theorem Sound.retire (sound : Sound setting state) (isHeld : state.sessions session = some held)
    (copied : held.stage = .copying batch []) :
    Sound setting (state.retire setting session held batch) := by
  obtain ⟨framed, -, -, parts⟩ :=
    sound.sessions session held isHeld batch [] (by rw [copied]; rfl)
  refine ⟨?_, ?_, ?_, ?_⟩
  · intro table
    by_cases same : table = batch.root.table
    · subst same
      simp only [State.retire, State.move, setSource]
      exact (List.filter_sublist.map _).nodup (sound.distinct _)
    · simp only [State.retire, State.move, setSource, if_neg same]
      exact sound.distinct table
  · intro other isPending
    obtain ⟨before, -⟩ := Option.filter_eq_some_iff.mp isPending
    exact sound.pending other before
  · intro other moved isMoved
    rcases update_cases isMoved with before | now
    · exact sound.sessions other moved before
    · obtain rfl := Option.some.inj now
      intro _ _ nothing
      cases nothing
  · intro entry member
    rcases List.mem_append.mp member with earlier | now
    · exact sound.retired entry earlier
    · obtain ⟨row, removed, rfl⟩ := List.mem_map.mp now
      obtain ⟨inSource, chosen⟩ := List.mem_filter.mp removed
      refine ⟨framed, (mem_valid (selected_valid sound.distinct framed inSource chosen)).1, ?_⟩
      exact fun part inParts => (parts part inParts).resolve_left List.not_mem_nil

theorem Sound.prepare [DecidableEq Digest] (sound : Sound setting state) (owning : Owning setting)
    {origin version table query : String} {cutoff : Cutoff}
    (taken : state.prepare setting session held origin version table query cutoff = some next) :
    Sound setting next := by
  rw [State.prepare] at taken
  dsimp only at taken
  split at taken
  · obtain rfl := Option.some.inj taken
    exact sound
  · split at taken
    · obtain rfl := Option.some.inj taken
      exact sound.close session
    next root ancestors captured =>
      split at taken
      · obtain rfl := Option.some.inj taken
        exact sound.close session
      · obtain rfl := Option.some.inj taken
        obtain ⟨isTable, isKeys, owned⟩ := withContextFrom_owned owning sound.distinct captured
        have framed : Framed setting
            (⟨state.nextId, origin, version, held.destination, held.schema, query, cutoff, root,
              ancestors⟩ : ArchiveBatch Destination Cutoff) :=
          ⟨by rw [isKeys, isTable]; rfl, withContextFrom_formed sound.distinct
            (formed_of_sublist sound.distinct rfl (((bounded_sublist _).trans
              (List.take_sublist _ _)).trans List.filter_sublist)) captured, owned⟩
        refine sound.moves rfl (fun batch isPending => ?_) (Extends.refl _) rfl
          fun other moved isMoved => ?_
        · obtain rfl := Option.some.inj isPending
          exact framed
        · rcases update_cases isMoved with before | now
          · exact .inl before
          · obtain rfl := Option.some.inj now
            refine .inr fun batch left reached => ?_
            obtain ⟨rfl, rfl⟩ := Prod.mk.inj (Option.some.inj reached)
            exact ⟨framed, rfl, fun _ => id, fun part member => .inl member⟩

theorem append_extends [DecidableEq Destination]
    (archive : Destination → String → String → List (Archived Digest))
    (destination : Destination) (schema table : String) (rows : List (Archived Digest)) :
    Extends archive (append archive destination schema table rows) := by
  intro other otherSchema otherTable record member
  rw [append]
  split
  · exact List.mem_append_left _ member
  · exact member

variable [DecidableEq Digest] [DecidableEq Destination]

theorem Sound.act (sound : Sound setting state) (owning : Owning setting)
    (isHeld : state.sessions session = some held) {action : Action Cutoff}
    (taken : state.act setting session held action = some next) : Sound setting next := by
  have here := sound.sessions session held isHeld
  cases action with
  | resume =>
      rw [State.act] at taken
      split at taken
      next batch idle isPending =>
        split at taken
        · obtain rfl := Option.some.inj taken
          exact sound.close session
        next same =>
          obtain rfl := Option.some.inj taken
          rw [not_or, not_not] at same
          refine sound.move fun other left reached => ?_
          obtain ⟨rfl, rfl⟩ := Prod.mk.inj (Option.some.inj reached)
          exact ⟨sound.pending _ isPending, same.1, fun _ => id, fun part member => .inl member⟩
      · contradiction
  | prepare origin version table query cutoff =>
      rw [State.act] at taken
      split at taken
      · exact sound.prepare owning taken
      · contradiction
  | read =>
      rw [State.act] at taken
      split at taken
      next batch part todo copying =>
        split at taken
        · obtain rfl := Option.some.inj taken
          exact sound.close session
        · obtain rfl := Option.some.inj taken
          refine sound.move fun other left reached => here other left ?_
          rw [copying]
          exact reached
      · contradiction
  | write answer =>
      simp only [State.act] at taken
      split at taken
      next batch part rows todo writing =>
        cases answer with
        | acknowledged =>
            obtain rfl := Option.some.inj taken
            have grows := append_extends state.archive held.destination batch.schema part.table rows
            have grown : Sound setting { state with
                archive := append state.archive held.destination batch.schema part.table rows } :=
              sound.archive grows
            refine grown.move fun other left reached => (here.grow grows) other left ?_
            rw [writing]
            exact reached
        | lost =>
            obtain rfl := Option.some.inj taken
            exact (sound.archive (Extends.refl state.archive)).close session
        | failed =>
            obtain rfl := Option.some.inj taken
            exact sound.close session
      · contradiction
  | verify =>
      rw [State.act] at taken
      split at taken
      next batch part todo checking =>
        split at taken
        · obtain rfl := Option.some.inj taken
          exact sound.close session
        next found checked =>
          split at taken
          next complete =>
            obtain rfl := Option.some.inj taken
            refine sound.move fun other left reached => ?_
            obtain ⟨rfl, rfl⟩ := Prod.mk.inj (Option.some.inj reached)
            obtain ⟨framed, destination, within, parts⟩ :=
              here batch (part :: todo) (by rw [checking]; rfl)
            refine ⟨framed, destination,
              fun other later => within other (List.mem_cons_of_mem _ later), fun other member => ?_⟩
            rcases parts other member with isLeft | isHeld
            · rcases List.mem_cons.mp isLeft with rfl | later
              · refine .inr fun row inRows => ?_
                rw [destination]
                exact verified_complete checked complete row inRows
              · exact .inl later
            · exact .inr isHeld
          · obtain rfl := Option.some.inj taken
            exact sound.close session
      · contradiction
  | retire committed =>
      rw [State.act] at taken
      split at taken
      next batch copied =>
        split at taken
        · obtain rfl := Option.some.inj taken
          exact sound.retire isHeld copied
        · obtain rfl := Option.some.inj taken
          exact sound.close session
      · contradiction

theorem Sound.step (sound : Sound setting state) (owning : Owning setting)
    {event : Event Destination Cutoff} (taken : step setting state event = some next) :
    Sound setting next := by
  cases event with
  | start session destination schema =>
      rw [Archives.step] at taken
      split at taken
      · contradiction
      · obtain rfl := Option.some.inj taken
        refine sound.moves rfl sound.pending (Extends.refl _) rfl fun other held isHeld => ?_
        rcases update_cases isHeld with before | now
        · exact .inl before
        · obtain rfl := Option.some.inj now
          refine .inr fun _ _ nothing => ?_
          cases nothing
  | act session action =>
      rw [Archives.step] at taken
      split at taken
      · contradiction
      next held isHeld => exact sound.act owning isHeld taken
  | stop session =>
      obtain rfl := Option.some.inj taken
      exact sound.close session
  | change table source =>
      rw [Archives.step] at taken
      split at taken
      next keyed =>
        obtain rfl := Option.some.inj taken
        refine ⟨fun other => ?_, sound.pending, sound.sessions, sound.retired⟩
        by_cases same : other = table
        · subst same
          simp only [setSource]
          exact keyed
        · simp only [setSource, if_neg same]
          exact sound.distinct other
      · contradiction
  | resolve place committed =>
      simp only [Archives.step] at taken
      split at taken
      · contradiction
      · split at taken
        · obtain rfl := Option.some.inj taken
          exact sound.archive (append_extends _ _ _ _ _)
        · obtain rfl := Option.some.inj taken
          exact sound.archive (Extends.refl _)

/-- Over every run of any sessions: a row that the purge deleted was one of its batch as it was
captured, the batch's archive holds every row of it exactly, and every owner is among them. -/
theorem retired_archived (owning : Owning setting) {source : String → Source}
    {archive : Destination → String → String → List (Archived Digest)}
    (distinct : Distinct setting source) {events : List (Event Destination Cutoff)}
    {final : State Digest Destination Cutoff}
    (run : Runs.exec (Archives.step setting) { source, archive } events = some final) :
    ∀ entry ∈ final.retired, entry.2 ∈ entry.1.root.rows ∧
      (∀ part ∈ entry.1.parts, PartHeld setting final.archive entry.1 part) ∧
        ∀ part ∈ entry.1.parts, OwnersIn entry.1.parts part := by
  have initially : Sound setting ({ source, archive } : State Digest Destination Cutoff) :=
    ⟨distinct, by simp, by simp, by simp⟩
  have sound : Sound setting final := Runs.exec_invariant (Sound setting)
    (fun state event next holds taken => holds.step owning taken) initially run
  intro entry member
  obtain ⟨framed, inRoot, parts⟩ := sound.retired entry member
  exact ⟨inRoot, parts, framed.owned⟩

end Steps

abbrev PlainDigest := String × List (ArchiveColumn × Scalar)

def plainKeys (table : String) : List String :=
  if table = "AUD_PIPELINES_RUN_LOG" then ["PIPELINE_RUN_ID"]
  else if table = "AUD_TASK_RUN_LOG" then ["TASK_RUN_ID"]
  else if table = "AUD_BUSINESS_RULES_RUN_LOG" then ["BUSINESS_RULE_RUN_ID"]
  else ["ATTEMPT_ID"]

def plainSetting : Setting PlainDigest Unit where
  digest := Prod.mk
  candidate := fun _ _ _ row => decide (row ≠ [.integer 3, .integer 7])
  weight := List.length
  stored := fun _ value => value
  keys := plainKeys

def runColumns : List ArchiveColumn := [⟨"PIPELINE_RUN_ID", .integer⟩]

def runRows : List Row := [[.integer 7], [.integer 8]]

def taskColumns : List ArchiveColumn := [⟨"TASK_RUN_ID", .integer⟩, ⟨"PIPELINE_RUN_ID", .integer⟩]

def taskRows : List Row :=
  [[.integer 1, .integer 7], [.integer 2, .integer 7], [.integer 3, .integer 7]]

theorem runRows_width : ∀ row ∈ runRows, row.length = runColumns.length := by decide

theorem taskRows_width : ∀ row ∈ taskRows, row.length = taskColumns.length := by decide

theorem noRows_width : ∀ row ∈ ([] : List Row), row.length = ([] : List ArchiveColumn).length :=
  fun _ nothing => absurd nothing List.not_mem_nil

def plainSource (table : String) : Source :=
  if table = "AUD_PIPELINES_RUN_LOG" then ⟨runColumns, runRows, runRows_width⟩
  else if table = "AUD_TASK_RUN_LOG" then ⟨taskColumns, taskRows, taskRows_width⟩
  else ⟨[], [], noRows_width⟩

theorem plainOwning : Owning plainSetting := by
  unfold Owning
  decide

theorem plainDistinct : Distinct plainSetting plainSource := by
  intro table
  by_cases runs : table = "AUD_PIPELINES_RUN_LOG"
  · subst runs
    decide
  · by_cases tasks : table = "AUD_TASK_RUN_LOG"
    · subst tasks
      decide
    · rw [plainSource, if_neg runs, if_neg tasks]
      exact List.nodup_nil

-- the first write commits without an answer, and a second session finds it there
def resumedRun : List (Event Nat Unit) :=
  [.start 0 5 "archive",
    .act 0 (.prepare "engine" "41" "AUD_TASK_RUN_LOG" "retention_aud_task_run_log" ()),
    .act 0 .read, .act 0 (.write .lost), .resolve 0 true, .start 1 5 "archive", .act 1 .resume,
    .act 1 .read, .act 1 (.write .acknowledged), .act 1 .verify,
    .act 1 .read, .act 1 (.write .acknowledged), .act 1 .verify, .act 1 (.retire true)]

theorem resumedRun_runs : ∃ final, Runs.exec (step plainSetting)
      { source := plainSource, archive := fun _ _ _ => [] } resumedRun = some final ∧
    final.retired.map Prod.snd = [[.integer 1, .integer 7], [.integer 2, .integer 7]] ∧
    (final.archive 5 "archive" "AUD_TASK_RUN_LOG").length = 2 :=
  ⟨_, rfl, rfl, rfl⟩

theorem resumedRun_archived : ∃ final : State PlainDigest Nat Unit,
    final.retired.map Prod.snd = [[.integer 1, .integer 7], [.integer 2, .integer 7]] ∧
    ∀ entry ∈ final.retired, entry.2 ∈ entry.1.root.rows ∧
      (∀ part ∈ entry.1.parts, PartHeld plainSetting final.archive entry.1 part) ∧
        ∀ part ∈ entry.1.parts, OwnersIn entry.1.parts part := by
  obtain ⟨final, run, rows, -⟩ := resumedRun_runs
  exact ⟨final, rows, retired_archived plainOwning plainDistinct run⟩

end EtlCraft.Archives
