import EtlCraft.ArchiveSafety

/-! Repeated and unacknowledged writes add nothing twice: the archive holds one row of each content,
as long as a table's writers follow each other. -/

namespace EtlCraft.Archives

variable {Digest Destination Cutoff : Type} {setting : Setting Digest Cutoff}

def identity (record : Archived Digest) : String × Digest := (record.origin, record.digest)

def Floating.place (write : Floating Digest Destination) : Destination × String × String :=
  (write.destination, write.schema, write.table)

def Session.write (held : Session Digest Destination Cutoff) : Option (Floating Digest Destination) :=
  match held.stage with
  | .writing batch part rows _ => some ⟨held.destination, batch.schema, part.table, rows⟩
  | _ => none

def State.writeOf (state : State Digest Destination Cutoff) (session : Nat) :
    Option (Floating Digest Destination) :=
  (state.sessions session).bind Session.write

/-- The rows are not in the archive yet, and none of them comes twice. -/
def Fresh (archive : Destination → String → String → List (Archived Digest))
    (write : Floating Digest Destination) : Prop :=
  (write.rows.map identity).Nodup ∧ ∀ record ∈ write.rows,
    ∀ other ∈ archive write.destination write.schema write.table, identity other ≠ identity record

structure Once (state : State Digest Destination Cutoff) : Prop where
  once : ∀ destination schema table, ((state.archive destination schema table).map identity).Nodup
  writing : ∀ session write, state.writeOf session = some write → Fresh state.archive write
  floating : ∀ write ∈ state.floating, Fresh state.archive write
  alone : ∀ first second left right, state.writeOf first = some left →
    state.writeOf second = some right → first ≠ second → left.place ≠ right.place
  apart : ∀ session write, state.writeOf session = some write →
    ∀ other ∈ state.floating, write.place ≠ other.place
  pairwise : state.floating.Pairwise fun first second => first.place ≠ second.place

/-- Nobody else writes to the table, and no transaction on it is left without an answer. -/
def Free (state : State Digest Destination Cutoff) (place : Destination × String × String) : Prop :=
  (∀ session write, state.writeOf session = some write → write.place ≠ place) ∧
    ∀ write ∈ state.floating, write.place ≠ place

/-- A session opens a transaction on a table only while it has the table for itself. -/
def Exclusive (state : State Digest Destination Cutoff) : Event Destination Cutoff → Prop
  | .act session .read => ∀ held batch part todo, state.sessions session = some held →
      held.stage = .copying batch (part :: todo) →
        Free state (held.destination, batch.schema, part.table)
  | _ => True

/-! ## The rows that are missing -/

section Missing

variable {part : ArchivePart} {batch : ArchiveBatch Destination Cutoff}
  {archive : List (Archived Digest)} {found : List Digest}

theorem rowDigest_inj (injective : ∀ version, Function.Injective (setting.digest version))
    (formed : Formed part) {first second : Row} (left : first ∈ part.rows)
    (right : second ∈ part.rows)
    (same : rowDigest setting part batch.version first = rowDigest setting part batch.version second) :
    first = second := by
  have zips := injective _ same
  have cells := congrArg (List.map Prod.snd) zips
  rwa [List.map_snd_zip (formed.2 first left).le, List.map_snd_zip (formed.2 second right).le]
    at cells

variable [DecidableEq Digest]

theorem verified_all (checked : verified setting batch part archive = some found)
    {record : Archived Digest} (member : record ∈ archive) (origin : record.origin = batch.origin)
    (wanted : record.digest ∈ hashes setting part batch.version) : record.digest ∈ found := by
  obtain ⟨once, within, -⟩ := verified_ok checked
  obtain ⟨whole, -, -⟩ := verifiedFrom_ok checked List.nodup_nil
  rw [List.nil_append] at whole
  have few : found.length ≤ (hashes setting part batch.version).length :=
    (List.subperm_of_subset once within).length_le
  have all : ((archive.filter fun record => record.origin = batch.origin ∧
      record.digest ∈ hashes setting part batch.version).length) ≤
        (hashes setting part batch.version).length + 1 := by
    rw [whole, List.length_map, List.length_take] at few
    omega
  rw [whole, List.take_of_length_le all]
  exact List.mem_map_of_mem (List.mem_filter.mpr ⟨member, by simp [origin, wanted]⟩)

theorem missing_fresh (injective : ∀ version, Function.Injective (setting.digest version))
    (formed : Formed part)
    {archives : Destination → String → String → List (Archived Digest)} {destination : Destination}
    (checked : verified setting batch part (archives destination batch.schema part.table) =
      some found) :
    Fresh archives
      ⟨destination, batch.schema, part.table, missing setting batch part found⟩ := by
  refine ⟨?_, ?_⟩
  · rw [missing, List.map_map]
    refine List.Nodup.map_on ?_ (formed.1.filter _)
    intro first left second right same
    exact rowDigest_inj injective formed (List.mem_of_mem_filter left)
      (List.mem_of_mem_filter right) (congrArg Prod.snd same)
  · intro record isMissing other inArchive same
    obtain ⟨row, kept, rfl⟩ := List.mem_map.mp isMissing
    obtain ⟨inRows, absent⟩ := List.mem_filter.mp kept
    refine of_decide_eq_true absent ?_
    obtain ⟨origin, digest⟩ := Prod.mk.inj same
    have wanted : other.digest ∈ hashes setting part batch.version := by
      rw [digest, hashes, List.mem_dedup]
      exact List.mem_map_of_mem inRows
    have listed := verified_all checked inArchive origin wanted
    rwa [digest] at listed

end Missing

/-! ## The invariant -/

section Steps

variable {state next : State Digest Destination Cutoff} {session : Nat}
  {write : Floating Digest Destination}

theorem Once.shrinks (once : Once state) (archive : next.archive = state.archive)
    (floating : next.floating = state.floating)
    (writes : ∀ session write, next.writeOf session = some write →
      state.writeOf session = some write) : Once next where
  once := archive ▸ once.once
  writing := fun session write writing => archive ▸ once.writing session write (writes _ _ writing)
  floating := by
    rw [floating, archive]
    exact once.floating
  alone := fun first second left right isLeft isRight =>
    once.alone first second left right (writes _ _ isLeft) (writes _ _ isRight)
  apart := by
    rw [floating]
    exact fun session write writing => once.apart session write (writes _ _ writing)
  pairwise := floating ▸ once.pairwise

theorem writeOf_update {held : Option (Session Digest Destination Cutoff)} {other : Nat}
    (sessions : next.sessions = update state.sessions session held) :
    next.writeOf other = if other = session then held.bind Session.write else state.writeOf other := by
  rw [State.writeOf, State.writeOf, sessions, update]
  split <;> rfl

theorem Once.rests (once : Once state) (archive : next.archive = state.archive)
    (floating : next.floating = state.floating)
    {held : Option (Session Digest Destination Cutoff)}
    (sessions : next.sessions = update state.sessions session held)
    (nothing : held.bind Session.write = none) : Once next := by
  refine once.shrinks archive floating fun other write writing => ?_
  rw [writeOf_update sessions] at writing
  split at writing
  · rw [nothing] at writing
    cases writing
  · exact writing

theorem Once.begins (once : Once state) (archive : next.archive = state.archive)
    (floating : next.floating = state.floating)
    {held : Session Digest Destination Cutoff}
    (sessions : next.sessions = update state.sessions session (some held))
    (writes : held.write = some write) (fresh : Fresh state.archive write)
    (free : Free state write.place) : Once next := by
  have cases_ {other : Nat} {found : Floating Digest Destination}
      (writing : next.writeOf other = some found) :
      (other = session ∧ found = write) ∨ state.writeOf other = some found := by
    rw [writeOf_update sessions] at writing
    split at writing
    next same =>
      rw [Option.bind_some, writes, Option.some_inj] at writing
      exact .inl ⟨same, writing.symm⟩
    · exact .inr writing
  refine ⟨archive ▸ once.once, ?_, ?_, ?_, ?_, floating ▸ once.pairwise⟩
  · intro other found writing
    rw [archive]
    rcases cases_ writing with ⟨-, rfl⟩ | before
    · exact fresh
    · exact once.writing other found before
  · rw [floating, archive]
    exact once.floating
  · intro first second left right isLeft isRight different
    rcases cases_ isLeft with ⟨rfl, rfl⟩ | before
    · rcases cases_ isRight with ⟨rfl, -⟩ | after
      · exact absurd rfl different
      · exact (free.1 second right after).symm
    · rcases cases_ isRight with ⟨rfl, rfl⟩ | after
      · exact free.1 first left before
      · exact once.alone first second left right before after different
  · intro other found writing
    rw [floating]
    rcases cases_ writing with ⟨-, rfl⟩ | before
    · exact fun left member => (free.2 left member).symm
    · exact once.apart other found before

theorem Once.loses (once : Once state) (writing : state.writeOf session = some write)
    (archive : next.archive = state.archive)
    (sessions : next.sessions = update state.sessions session none)
    (floating : next.floating = state.floating ++ [write]) : Once next := by
  have others {other : Nat} {found : Floating Digest Destination}
      (writes : next.writeOf other = some found) :
      other ≠ session ∧ state.writeOf other = some found := by
    rw [writeOf_update sessions] at writes
    split at writes
    · cases writes
    next different => exact ⟨different, writes⟩
  refine ⟨archive ▸ once.once, ?_, ?_, ?_, ?_, ?_⟩
  · exact fun other found writes => archive ▸ once.writing other found (others writes).2
  · intro found member
    rw [archive]
    rw [floating] at member
    rcases List.mem_append.mp member with earlier | last
    · exact once.floating found earlier
    · obtain rfl := List.mem_singleton.mp last
      exact once.writing session found writing
  · exact fun first second left right isLeft isRight =>
      once.alone first second left right (others isLeft).2 (others isRight).2
  · intro other found writes right member
    obtain ⟨different, before⟩ := others writes
    rw [floating] at member
    rcases List.mem_append.mp member with earlier | last
    · exact once.apart other found before right earlier
    · obtain rfl := List.mem_singleton.mp last
      exact once.alone other session found right before writing different
  · rw [floating, List.pairwise_append]
    refine ⟨once.pairwise, List.pairwise_singleton _ _, ?_⟩
    intro first earlier second last
    obtain rfl := List.mem_singleton.mp last
    exact (once.apart session second writing first earlier).symm

variable [DecidableEq Destination]

theorem Fresh.append {archive : Destination → String → String → List (Archived Digest)}
    {other : Floating Digest Destination} (fresh : Fresh archive other)
    (different : other.place ≠ write.place) :
    Fresh (append archive write.destination write.schema write.table write.rows) other := by
  refine ⟨fresh.1, ?_⟩
  rw [Archives.append, if_neg]
  · exact fresh.2
  · rintro ⟨destination, schema, table⟩
    exact different (by rw [Floating.place, Floating.place, destination, schema, table])

theorem append_once {archive : Destination → String → String → List (Archived Digest)}
    (once : ∀ destination schema table, ((archive destination schema table).map identity).Nodup)
    (fresh : Fresh archive write) (destination : Destination) (schema table : String) :
    ((append archive write.destination write.schema write.table write.rows destination schema
      table).map identity).Nodup := by
  rw [append]
  split
  next same =>
    obtain ⟨rfl, rfl, rfl⟩ := same
    rw [List.map_append, List.nodup_append]
    refine ⟨once _ _ _, fresh.1, ?_⟩
    intro older isOlder newer isNewer
    obtain ⟨record, inArchive, rfl⟩ := List.mem_map.mp isOlder
    obtain ⟨added, isAdded, rfl⟩ := List.mem_map.mp isNewer
    exact fresh.2 added isAdded record inArchive
  · exact once destination schema table

theorem Once.commits (once : Once state) (fresh : Fresh state.archive write)
    (archive : next.archive =
      append state.archive write.destination write.schema write.table write.rows)
    (writes : ∀ session found, next.writeOf session = some found →
      state.writeOf session = some found ∧ found.place ≠ write.place)
    (floating : next.floating.Sublist state.floating)
    (others : ∀ found ∈ next.floating, found.place ≠ write.place) : Once next where
  once := archive ▸ append_once once.once fresh
  writing := fun session found writing =>
    archive ▸ (once.writing session found (writes _ _ writing).1).append (writes _ _ writing).2
  floating := fun found member =>
    archive ▸ (once.floating found (floating.subset member)).append (others found member)
  alone := fun first second left right isLeft isRight =>
    once.alone first second left right (writes _ _ isLeft).1 (writes _ _ isRight).1
  apart := fun session found writing other member =>
    once.apart session found (writes _ _ writing).1 other (floating.subset member)
  pairwise := once.pairwise.sublist floating

variable [DecidableEq Digest]

theorem Once.act (once : Once state) (sound : Sound setting state)
    (injective : ∀ version, Function.Injective (setting.digest version))
    {held : Session Digest Destination Cutoff} (isHeld : state.sessions session = some held)
    {action : Action Cutoff} (exclusive : Exclusive state (.act session action))
    (taken : state.act setting session held action = some next) : Once next := by
  cases action with
  | resume =>
      rw [State.act] at taken
      split at taken
      · split at taken
        · obtain rfl := Option.some.inj taken
          exact once.rests rfl rfl rfl rfl
        · obtain rfl := Option.some.inj taken
          exact once.rests rfl rfl rfl rfl
      · contradiction
  | prepare origin version table query cutoff =>
      rw [State.act] at taken
      split at taken
      · rw [State.prepare] at taken
        dsimp only at taken
        split at taken
        · obtain rfl := Option.some.inj taken
          exact once
        · split at taken
          · obtain rfl := Option.some.inj taken
            exact once.rests rfl rfl rfl rfl
          · split at taken
            · obtain rfl := Option.some.inj taken
              exact once.rests rfl rfl rfl rfl
            · obtain rfl := Option.some.inj taken
              exact once.rests rfl rfl rfl rfl
      · contradiction
  | read =>
      rw [State.act] at taken
      split at taken
      next batch part todo copying =>
        split at taken
        · obtain rfl := Option.some.inj taken
          exact once.rests rfl rfl rfl rfl
        next existing checked =>
          obtain rfl := Option.some.inj taken
          obtain ⟨framed, -, within, -⟩ := sound.sessions session held isHeld batch (part :: todo)
            (by rw [copying]; rfl)
          have formed := framed.formed part (within part List.mem_cons_self)
          exact once.begins rfl rfl rfl rfl (missing_fresh injective formed checked)
            (exclusive held batch part todo isHeld copying)
      · contradiction
  | write answer =>
      simp only [State.act] at taken
      split at taken
      next batch part rows todo isWriting =>
        have writing : state.writeOf session =
            some ⟨held.destination, batch.schema, part.table, rows⟩ := by
          rw [State.writeOf, isHeld, Option.bind_some, Session.write, isWriting]
        cases answer with
        | acknowledged =>
            obtain rfl := Option.some.inj taken
            refine once.commits (once.writing session _ writing) rfl (fun other found writes => ?_)
              (List.Sublist.refl _) fun found member => (once.apart session _ writing found member).symm
            rw [writeOf_update rfl] at writes
            split at writes
            · cases writes
            next different =>
              exact ⟨writes, once.alone other session found _ writes writing different⟩
        | lost =>
            obtain rfl := Option.some.inj taken
            exact once.loses writing rfl rfl rfl
        | failed =>
            obtain rfl := Option.some.inj taken
            exact once.rests rfl rfl rfl rfl
      · contradiction
  | verify =>
      rw [State.act] at taken
      split at taken
      · split at taken
        · obtain rfl := Option.some.inj taken
          exact once.rests rfl rfl rfl rfl
        · split at taken
          · obtain rfl := Option.some.inj taken
            exact once.rests rfl rfl rfl rfl
          · obtain rfl := Option.some.inj taken
            exact once.rests rfl rfl rfl rfl
      · contradiction
  | retire committed =>
      rw [State.act] at taken
      split at taken
      · split at taken
        · obtain rfl := Option.some.inj taken
          exact once.rests rfl rfl rfl rfl
        · obtain rfl := Option.some.inj taken
          exact once.rests rfl rfl rfl rfl
      · contradiction

theorem Once.step (once : Once state) (sound : Sound setting state)
    (injective : ∀ version, Function.Injective (setting.digest version))
    {event : Event Destination Cutoff} (exclusive : Exclusive state event)
    (taken : step setting state event = some next) : Once next := by
  cases event with
  | start session destination schema =>
      rw [Archives.step] at taken
      split at taken
      · contradiction
      · obtain rfl := Option.some.inj taken
        exact once.rests rfl rfl rfl rfl
  | act session action =>
      rw [Archives.step] at taken
      split at taken
      · contradiction
      next held isHeld => exact once.act sound injective isHeld exclusive taken
  | stop session =>
      obtain rfl := Option.some.inj taken
      exact once.rests rfl rfl rfl rfl
  | change table source =>
      rw [Archives.step] at taken
      split at taken
      · obtain rfl := Option.some.inj taken
        exact once.shrinks rfl rfl fun _ _ => id
      · contradiction
  | resolve place committed =>
      simp only [Archives.step] at taken
      split at taken
      · contradiction
      next write isFloating =>
        have member := List.mem_of_getElem? isFloating
        split at taken
        · obtain rfl := Option.some.inj taken
          refine once.commits (once.floating write member) rfl
            (fun session found writes => ⟨writes, once.apart session found writes write member⟩)
            (List.eraseIdx_sublist _ _) fun found isOther => ?_
          obtain ⟨index, inside, different, rfl⟩ := List.mem_eraseIdx_iff_getElem.mp isOther
          obtain ⟨here, rfl⟩ := List.getElem?_eq_some_iff.mp isFloating
          rcases Nat.lt_or_gt_of_ne different with before | after
          · exact List.pairwise_iff_getElem.mp once.pairwise index place inside here before
          · exact (List.pairwise_iff_getElem.mp once.pairwise place index here inside after).symm
        · obtain rfl := Option.some.inj taken
          refine ⟨once.once, once.writing, fun found isOther => ?_, once.alone,
            fun session found writes other isOther => ?_, once.pairwise.sublist
              (List.eraseIdx_sublist _ _)⟩
          · exact once.floating found (List.mem_of_mem_eraseIdx isOther)
          · exact once.apart session found writes other (List.mem_of_mem_eraseIdx isOther)

theorem filter_identity {archive : List (Archived Digest)} (once : (archive.map identity).Nodup)
    {record : Archived Digest} (member : record ∈ archive) {origin : String} {digest : Digest}
    (sameOrigin : record.origin = origin) (sameDigest : record.digest = digest) :
    (archive.filter fun other => other.origin = origin ∧ other.digest = digest) = [record] := by
  subst sameOrigin sameDigest
  rw [← Keyed.filter_key once member]
  refine List.filter_congr fun other _ => decide_eq_decide.mpr ?_
  rw [identity, identity, Prod.mk.injEq]

/-- With a table's writers following each other, nothing is stored twice under one origin and digest,
and every row of a batch that the purge deleted from is stored once. -/
theorem retired_archived_once (owning : Owning setting)
    (injective : ∀ version, Function.Injective (setting.digest version))
    {source : String → Source} (distinct : Distinct setting source)
    {archive : Destination → String → String → List (Archived Digest)}
    (unique : ∀ destination schema table,
      ((archive destination schema table).map identity).Nodup)
    {events : List (Event Destination Cutoff)} {final : State Digest Destination Cutoff}
    (exclusive : Runs.Along (Archives.step setting) Exclusive { source, archive } events)
    (run : Runs.exec (Archives.step setting) { source, archive } events = some final) :
    (∀ destination schema table, ((final.archive destination schema table).map identity).Nodup) ∧
    ∀ entry ∈ final.retired, ∀ part ∈ entry.1.parts, ∀ row ∈ part.rows,
      ∃ record, actual part record = row ∧
        ((final.archive entry.1.destination entry.1.schema part.table).filter fun other =>
          other.origin = entry.1.origin ∧
            other.digest = rowDigest setting part entry.1.version row) = [record] := by
  have initially : Sound setting ({ source, archive } : State Digest Destination Cutoff) ∧
      Once ({ source, archive } : State Digest Destination Cutoff) := by
    refine ⟨⟨distinct, by simp, by simp, by simp⟩, unique, ?_, by simp, ?_, ?_, List.Pairwise.nil⟩
    · intro _ _ nothing
      cases nothing
    · intro _ _ _ _ nothing
      cases nothing
    · intro _ _ nothing
      cases nothing
  obtain ⟨sound, once⟩ : Sound setting final ∧ Once final :=
    Runs.exec_invariant_along (fun state => Sound setting state ∧ Once state)
      (fun state event next meets holds taken =>
        ⟨holds.1.step owning taken, holds.2.step holds.1 injective meets taken⟩)
      initially exclusive run
  refine ⟨once.once, fun entry member part inParts row inRows => ?_⟩
  obtain ⟨-, -, parts⟩ := sound.retired entry member
  obtain ⟨record, inArchive, origin, -, digest, same⟩ := parts part inParts row inRows
  exact ⟨record, same, filter_identity (once.once _ _ _) inArchive origin digest⟩

end Steps

theorem free_of_quiet {state : State Digest Destination Cutoff}
    {place : Destination × String × String} (quiet : ∀ session, state.writeOf session = none)
    (settled : state.floating = []) : Free state place := by
  refine ⟨fun session write writing => ?_, by simp [settled]⟩
  rw [quiet session] at writing
  cases writing

theorem resumedRun_exclusive : Runs.Along (step plainSetting) Exclusive
    ({ source := plainSource, archive := fun _ _ _ => [] } : State PlainDigest Nat Unit)
    resumedRun := by
  have quiet {state : State PlainDigest Nat Unit} (settled : state.floating = [])
      (first : state.writeOf 0 = none) (second : state.writeOf 1 = none)
      (others : ∀ session, state.writeOf (session + 2) = none) :
      Exclusive state (.act 0 .read) ∧ Exclusive state (.act 1 .read) := by
    have all : ∀ session, state.writeOf session = none
      | 0 => first
      | 1 => second
      | session + 2 => others session
    exact ⟨fun _ _ _ _ _ _ => free_of_quiet all settled, fun _ _ _ _ _ _ => free_of_quiet all settled⟩
  refine (Runs.along_cons rfl).mpr ⟨trivial, (Runs.along_cons rfl).mpr ⟨trivial, ?_⟩⟩
  refine (Runs.along_cons rfl).mpr ⟨(quiet rfl rfl rfl fun _ => rfl).1, ?_⟩
  refine (Runs.along_cons rfl).mpr ⟨trivial, (Runs.along_cons rfl).mpr ⟨trivial, ?_⟩⟩
  refine (Runs.along_cons rfl).mpr ⟨trivial, (Runs.along_cons rfl).mpr ⟨trivial, ?_⟩⟩
  refine (Runs.along_cons rfl).mpr ⟨(quiet rfl rfl rfl fun _ => rfl).2, ?_⟩
  refine (Runs.along_cons rfl).mpr ⟨trivial, (Runs.along_cons rfl).mpr ⟨trivial, ?_⟩⟩
  refine (Runs.along_cons rfl).mpr ⟨(quiet rfl rfl rfl fun _ => rfl).2, ?_⟩
  refine (Runs.along_cons rfl).mpr ⟨trivial, (Runs.along_cons rfl).mpr ⟨trivial, ?_⟩⟩
  exact (Runs.along_cons rfl).mpr ⟨trivial, trivial⟩

theorem resumedRun_once : ∃ final : State PlainDigest Nat Unit,
    final.retired.map Prod.snd = [[.integer 1, .integer 7], [.integer 2, .integer 7]] ∧
    (∀ destination schema table, ((final.archive destination schema table).map identity).Nodup) ∧
    ∀ entry ∈ final.retired, ∀ part ∈ entry.1.parts, ∀ row ∈ part.rows,
      ∃ record, actual part record = row ∧
        ((final.archive entry.1.destination entry.1.schema part.table).filter fun other =>
          other.origin = entry.1.origin ∧
            other.digest = rowDigest plainSetting part entry.1.version row) = [record] := by
  obtain ⟨final, run, rows, -⟩ := resumedRun_runs
  have unique : ∀ (destination : Nat) (schema table : String),
      (((fun _ _ _ => []) destination schema table : List (Archived PlainDigest)).map
        identity).Nodup := fun _ _ _ => List.nodup_nil
  exact ⟨final, rows, retired_archived_once plainOwning
    (fun version => Prod.mk_right_injective version) plainDistinct unique resumedRun_exclusive run⟩

end EtlCraft.Archives
