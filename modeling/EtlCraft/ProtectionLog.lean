import Mathlib
import EtlCraft.ProtectionCore

/-! The protection log as settled requests followed by at most one open request: what the reads,
the appends and the two kinds of evidence find in it. -/

namespace EtlCraft

namespace ProtectionLog

def finals (log : List ProtectionRecord) : List Nat :=
  (log.filter fun record => !isPending record).map ProtectionRecord.requestId

def intents (log : List ProtectionRecord) : List Nat :=
  ((log.filter isPending).map ProtectionRecord.requestId).eraseDups

/-- Every request has its one final row, in the order of the first intents. -/
structure Settled (log : List ProtectionRecord) : Prop where
  ordered : finals log = intents log
  distinct : (finals log).Nodup

end ProtectionLog

structure OpenRequest where
  requestId : Nat
  attemptId : Option Nat
  first : ProtectionEvent
  others : List ProtectionEvent

namespace OpenRequest

def events (request : OpenRequest) : List ProtectionEvent :=
  request.first :: request.others

def records (request : OpenRequest) : List ProtectionRecord :=
  request.events.map (ProtectionLog.intent request.requestId request.attemptId)

theorem mem_records {request : OpenRequest} {record : ProtectionRecord}
    (member : record ∈ request.records) :
    record.requestId = request.requestId ∧ ProtectionLog.isPending record = true := by
  obtain ⟨event, _, rfl⟩ := List.mem_map.mp member
  exact ⟨rfl, rfl⟩

end OpenRequest

def openRecords (opened : Option OpenRequest) : List ProtectionRecord :=
  opened.elim [] OpenRequest.records

theorem pending_of_open {opened : Option OpenRequest} {record : ProtectionRecord}
    (member : record ∈ openRecords opened) : ProtectionLog.isPending record = true := by
  cases opened with
  | none => cases member
  | some request => exact (OpenRequest.mem_records member).2

namespace ProtectionLog

theorem finals_append (first second : List ProtectionRecord) :
    finals (first ++ second) = finals first ++ finals second := by
  rw [finals, List.filter_append, List.map_append, finals, finals]

theorem mem_finals {log : List ProtectionRecord} {requestId : Nat} :
    requestId ∈ finals log ↔
      ∃ record ∈ log, isPending record = false ∧ record.requestId = requestId := by
  simp [finals, and_assoc]

theorem mem_intents {log : List ProtectionRecord} {requestId : Nat} :
    requestId ∈ intents log ↔
      ∃ record ∈ log, isPending record = true ∧ record.requestId = requestId := by
  simp [intents, and_assoc]

theorem finals_open (opened : Option OpenRequest) : finals (openRecords opened) = [] := by
  rw [finals, List.map_eq_nil_iff, List.filter_eq_nil_iff]
  intro record member
  simp [pending_of_open member]

theorem Settled.mem_finals {log : List ProtectionRecord} (settled : Settled log)
    {record : ProtectionRecord} (member : record ∈ log) : record.requestId ∈ finals log := by
  cases pending : isPending record with
  | false => exact ProtectionLog.mem_finals.mpr ⟨record, member, pending, rfl⟩
  | true =>
      rw [settled.ordered]
      exact mem_intents.mpr ⟨record, member, pending, rfl⟩

section Open

variable {closed : List ProtectionRecord} {opened : Option OpenRequest}

theorem readFrom_le (settled : Settled closed) :
    readFrom (closed ++ openRecords opened) ≤ closed.length := by
  unfold readFrom
  split
  · exact Nat.zero_le _
  · rename_i last found
    have inFinals := List.mem_of_getLast? found
    obtain ⟨inLog, final⟩ := List.mem_filter.mp inFinals
    have isFinal : isPending last = false := by simpa using final
    have inClosed : last ∈ closed := by
      rcases List.mem_append.mp inLog with member | member
      · exact member
      · rw [pending_of_open member] at isFinal
        cases isFinal
    have hasIntent := settled.mem_finals inClosed
    rw [settled.ordered] at hasIntent
    obtain ⟨intended, member, pending, same⟩ := mem_intents.mp hasIntent
    have present : closed.any (fun record =>
        record.requestId = last.requestId && isPending record) = true :=
      List.any_eq_true.mpr ⟨intended, member, by simp [same, pending]⟩
    rw [List.findIdx?_append]
    cases index : closed.findIdx? (fun record =>
        record.requestId = last.requestId && isPending record) with
    | none =>
        rw [List.findIdx?_eq_none_iff] at index
        have absent := index intended member
        simp [same, pending] at absent
    | some place =>
        have bound := (List.findIdx?_eq_some_iff_getElem.mp index).1
        simp only [Option.some_or, Option.getD_some]
        omega

theorem finalStatus_isNone {log : List ProtectionRecord} {requestId : Nat} :
    (finalStatus log requestId).isNone = true ↔ requestId ∉ finals log := by
  rw [Option.isNone_iff_eq_none, finalStatus, Option.map_eq_none_iff, List.find?_eq_none,
    mem_finals]
  constructor
  · rintro none ⟨record, member, final, same⟩
    exact none record member (by simp [same, final])
  · intro absent record member matches_
    simp only [Bool.and_eq_true, decide_eq_true_eq, Bool.not_eq_eq_eq_not, Bool.not_true]
      at matches_
    exact absent ⟨record, member, matches_.2, matches_.1⟩

theorem read_eq (settled : Settled closed)
    (unsettled : ∀ request, opened = some request → request.requestId ∉ finals closed) :
    read (closed ++ openRecords opened) = openRecords opened := by
  have onlyClosed : finals (closed ++ openRecords opened) = finals closed := by
    rw [finals_append, finals_open, List.append_nil]
  rw [read, List.drop_append_of_le_length (readFrom_le settled), List.filter_append]
  have noneClosed : (closed.drop (readFrom (closed ++ openRecords opened))).filter
      (fun record => isPending record &&
        (finalStatus (closed ++ openRecords opened) record.requestId).isNone) = [] := by
    rw [List.filter_eq_nil_iff]
    intro record member shown
    have isOpen := (Bool.and_eq_true_iff.mp shown).2
    rw [finalStatus_isNone, onlyClosed] at isOpen
    exact isOpen (settled.mem_finals (List.mem_of_mem_drop member))
  have allOpen : (openRecords opened).filter (fun record => isPending record &&
      (finalStatus (closed ++ openRecords opened) record.requestId).isNone) =
        openRecords opened := by
    rw [List.filter_eq_self]
    intro record member
    rw [pending_of_open member, Bool.true_and, finalStatus_isNone, onlyClosed]
    cases opened with
    | none => cases member
    | some request =>
        rw [(OpenRequest.mem_records member).1]
        exact unsettled request rfl
  rw [noneClosed, allOpen, List.nil_append]

theorem eraseDups_constant {Item Key : Type} [BEq Key] [LawfulBEq Key] {key : Item → Key}
    {wanted : Key} {items : List Item} (same : ∀ item ∈ items, key item = wanted)
    (nonempty : items ≠ []) : (items.map key).eraseDups = [wanted] := by
  cases items with
  | nil => exact absurd rfl nonempty
  | cons first rest =>
      rw [List.map_cons, List.eraseDups_cons, same first List.mem_cons_self]
      have others : (rest.map key).filter (fun other => !other == wanted) = [] := by
        rw [List.filter_eq_nil_iff]
        intro other member
        obtain ⟨item, inRest, rfl⟩ := List.mem_map.mp member
        simp [same item (List.mem_cons_of_mem _ inRest)]
      rw [others, List.eraseDups_nil]

theorem unresolved_eq (settled : Settled closed)
    (unsettled : ∀ request, opened = some request → request.requestId ∉ finals closed) :
    unresolved (closed ++ openRecords opened) =
      opened.toList.map fun request => (request.requestId, request.records) := by
  rw [unresolved, read_eq settled unsettled]
  cases opened with
  | none => rfl
  | some request =>
      have same : ∀ record ∈ request.records, record.requestId = request.requestId :=
        fun record member => (OpenRequest.mem_records member).1
      have nonempty : request.records ≠ [] := List.cons_ne_nil _ _
      have kept : request.records.filter (·.requestId = request.requestId) = request.records := by
        rw [List.filter_eq_self]
        intro record member
        simp [same record member]
      simp only [openRecords, Option.elim_some, eraseDups_constant same nonempty,
        List.map_cons, List.map_nil, kept, Option.toList_some]

theorem request_eq {request : OpenRequest} (settled : Settled closed)
    (unsettled : request.requestId ∉ finals closed) :
    ProtectionLog.request (closed ++ request.records) request.requestId =
      some (intent request.requestId request.attemptId request.first) := by
  have absent : closed.find? (fun record =>
      record.requestId = request.requestId && isPending record) = none := by
    rw [List.find?_eq_none]
    intro record member shown
    have same := (Bool.and_eq_true_iff.mp shown).1
    rw [decide_eq_true_eq] at same
    exact unsettled (same ▸ settled.mem_finals member)
  rw [ProtectionLog.request, List.find?_append, absent, Option.none_or]
  simp [OpenRequest.records, OpenRequest.events, intent, isPending]

theorem finalStatus_open {request : OpenRequest} (unsettled : request.requestId ∉ finals closed) :
    (finalStatus (closed ++ request.records) request.requestId).isNone = true := by
  have onlyClosed := finals_append closed (openRecords (some request))
  rw [finals_open, List.append_nil] at onlyClosed
  rw [finalStatus_isNone]
  exact fun final => unsettled (onlyClosed ▸ final)

theorem Settled.resolved {request : OpenRequest} {final : ProtectionRecord}
    (settled : Settled closed) (unsettled : request.requestId ∉ finals closed)
    (same : final.requestId = request.requestId) (isFinal : isPending final = false) :
    Settled (closed ++ request.records ++ [final]) := by
  have noFinals : finals request.records = [] := finals_open (some request)
  have oneFinal : finals [final] = [request.requestId] := by simp [finals, isFinal, same]
  have newFinals : finals (closed ++ request.records ++ [final]) =
      finals closed ++ [request.requestId] := by
    rw [finals_append, finals_append, noFinals, oneFinal, List.append_nil]
  have allPending : request.records.filter isPending = request.records := by
    rw [List.filter_eq_self]
    exact fun record member => (OpenRequest.mem_records member).2
  have newIntents : intents (closed ++ request.records ++ [final]) =
      intents closed ++ [request.requestId] := by
    have sameIds : ∀ record ∈ request.records, record.requestId = request.requestId :=
      fun record member => (OpenRequest.mem_records member).1
    have noneOld : (request.records.map ProtectionRecord.requestId).removeAll
        ((closed.filter isPending).map ProtectionRecord.requestId) =
          request.records.map ProtectionRecord.requestId := by
      rw [List.removeAll, List.filter_eq_self]
      intro requestId member
      obtain ⟨record, inRecords, rfl⟩ := List.mem_map.mp member
      rw [sameIds record inRecords]
      simp only [Bool.not_eq_eq_eq_not, Bool.not_true, List.elem_eq_mem, decide_eq_false_iff_not]
      intro old
      refine unsettled ?_
      rw [settled.ordered, intents]
      exact List.mem_eraseDups.mpr old
    have notPending : [final].filter isPending = [] := by simp [isFinal]
    rw [intents, List.filter_append, List.filter_append, allPending, notPending, List.append_nil,
      List.map_append, List.eraseDups_append, noneOld,
      eraseDups_constant sameIds (List.cons_ne_nil _ _), intents]
  refine ⟨?_, ?_⟩
  · rw [newFinals, newIntents, settled.ordered]
  · rw [newFinals, ← List.concat_eq_append, List.nodup_concat]
    exact ⟨unsettled, settled.distinct⟩

end Open

theorem intents_prefix (closed later : List ProtectionRecord) :
    intents closed <+: intents (closed ++ later) := by
  rw [intents, intents, List.filter_append, List.map_append, List.eraseDups_append]
  exact List.prefix_append _ _

section Events

variable {ledger : Ledger} {log added : List ProtectionRecord} {report : ProtectionReport}
  {attemptId : Option Nat} {fresh requestId allocated : Nat} {fenced : Bool}

/-- The finalizer created the request, or its creating attempt has ended. -/
def MayFinalize (ledger : Ledger) (creator : ProtectionRecord) (attemptId : Option Nat) : Prop :=
  creator.attemptId = attemptId ∨ ∀ creating, creator.attemptId = some creating →
    ∃ status, ledger.attemptStatus creating = some status ∧ status.active = false

theorem recoveryOwner_may {creator : ProtectionRecord} {requireTerminal : Bool}
    (owner : recoveryOwner ledger creator report attemptId requireTerminal = true) :
    MayFinalize ledger creator attemptId := by
  simp only [recoveryOwner, Bool.and_eq_true, Bool.or_eq_true, decide_eq_true_eq] at owner
  rcases owner.2 with creates | ended
  · exact .inl creates.1
  · refine .inr fun creating isCreating => ?_
    have terminal := ended.2
    rw [isCreating, Option.all_some, Option.any_eq_true] at terminal
    obtain ⟨status, isStatus, inactive⟩ := terminal
    exact ⟨status, isStatus, by simpa using inactive⟩

theorem event_allocates
    (appended : protectionEvent ledger log report attemptId fresh fenced = some (added, allocated))
    (intends : report.status = .pending) (plain : report.evidence = none)
    (unnamed : report.requestId = none) :
    added = log ++ report.events.map (intent fresh attemptId) ∧ allocated = fresh := by
  cases fenced with
  | false => cases appended
  | true =>
      simp [protectionEvent, appendFenced, plain, unnamed, intends] at appended
      exact ⟨appended.1.symm, appended.2.symm⟩

theorem event_continues {creator : ProtectionRecord}
    (appended : protectionEvent ledger log report attemptId fresh fenced = some (added, allocated))
    (intends : report.status = .pending) (plain : report.evidence = none)
    (named : report.requestId = some requestId) (created : request log requestId = some creator)
    (mine : creator.attemptId = attemptId) (isOpen : (finalStatus log requestId).isNone = true) :
    added = log ++ report.events.map (intent requestId attemptId) ∧ allocated = requestId := by
  cases fenced with
  | false => cases appended
  | true =>
      simp [protectionEvent, appendFenced, plain, named, intends, created, mine, isOpen] at appended
      exact ⟨appended.1.symm, appended.2.symm⟩

theorem event_finalizes
    (appended : protectionEvent ledger log report attemptId fresh fenced = some (added, allocated))
    (final : report.status ≠ .pending) (named : report.requestId = some requestId)
    (isOpen : (finalStatus log requestId).isNone = true) :
    ∃ creator, request log requestId = some creator ∧ MayFinalize ledger creator attemptId ∧
      added = log ++ [outcome requestId creator report attemptId] := by
  have isNone : finalStatus log requestId = none := Option.isNone_iff_eq_none.mp isOpen
  cases fenced with
  | false => cases appended
  | true =>
      simp only [protectionEvent, if_true] at appended
      split at appended
      · rename_i result direct
        cases appended
        simp only [appendFenced, named, if_neg final] at direct
        split at direct
        · cases direct
        · split at direct
          · cases direct
          · rename_i creator created
            split at direct
            · rename_i owned
              split at direct
              · cases direct
                simp only [Bool.and_eq_true, decide_eq_true_eq] at owned
                exact ⟨creator, created, .inl owned.1, rfl⟩
              · cases direct
            · cases direct
      · simp only [append, named, isNone, Option.isSome_none, Bool.false_eq_true, if_false,
          if_neg final] at appended
        split at appended
        · cases appended
        · rename_i creator created
          split at appended
          · rename_i owner
            split at appended
            · cases appended
              exact ⟨creator, created, recoveryOwner_may owner, rfl⟩
            · cases appended
          · cases appended

end Events

section Evidence

variable {rows : List TargetRow} {requestId : Nat} {attemptId : Option Nat}

theorem mapM_constant {Item Value : Type} {found : Item → Option Value} {value : Value}
    {items : List Item} (same : ∀ item ∈ items, found item = some value) :
    items.mapM found = some (items.map fun _ => value) := by
  induction items with
  | nil => rfl
  | cons item rest ih =>
      have tail := ih fun other member => same other (List.mem_cons_of_mem _ member)
      simp [List.mapM_cons, same item List.mem_cons_self, tail]

theorem absent_constant {records : List ProtectionRecord} {value : Bool}
    (nonempty : records.filterMap ProtectionRecord.event ≠ [])
    (same : ∀ columns, (records.filterMap ProtectionRecord.event).filter (·.columns = columns) ≠ [] →
      keysAbsent rows ((records.filterMap ProtectionRecord.event).filter (·.columns = columns)) =
        some value) : absent rows records = some value := by
  obtain ⟨event, member⟩ := List.exists_mem_of_ne_nil _ nonempty
  have shaped : ∀ columns ∈ ((records.filterMap ProtectionRecord.event).map
      ProtectionEvent.columns).eraseDups, keysAbsent rows
        ((records.filterMap ProtectionRecord.event).filter (·.columns = columns)) = some value := by
    intro columns inShapes
    refine same columns ?_
    obtain ⟨shaped, inEvents, isShape⟩ := List.mem_map.mp (List.mem_eraseDups.mp inShapes)
    exact List.ne_nil_of_mem (List.mem_filter.mpr ⟨inEvents, by simpa using isShape⟩)
  have oneShape : event.columns ∈ ((records.filterMap ProtectionRecord.event).map
      ProtectionEvent.columns).eraseDups :=
    List.mem_eraseDups.mpr (List.mem_map_of_mem member)
  rw [absent, mapM_constant shaped, Option.bind_some]
  cases value with
  | true => simp
  | false =>
      have some_false : ((((records.filterMap ProtectionRecord.event).map
          ProtectionEvent.columns).eraseDups).map fun _ => false).all id = false := by
        rw [List.all_eq_false]
        exact ⟨false, List.mem_map.mpr ⟨event.columns, oneShape, rfl⟩, by simp⟩
      rw [some_false]
      simp

theorem filterMap_records (request : OpenRequest) :
    request.records.filterMap ProtectionRecord.event = request.events := by
  rw [OpenRequest.records, List.filterMap_map]
  exact List.filterMap_some

theorem absent_present {request : OpenRequest}
    (present : ∀ event ∈ request.events, matched rows event = true) :
    absent rows request.records = some false := by
  have nonempty : request.events ≠ [] := List.cons_ne_nil _ _
  refine absent_constant ?_ fun columns some_ => ?_
  · rwa [filterMap_records]
  · rw [filterMap_records] at some_ ⊢
    have all : (request.events.filter (·.columns = columns)).filter (matched rows) =
        request.events.filter (·.columns = columns) := by
      rw [List.filter_eq_self]
      exact fun event member => present event (List.mem_of_mem_filter member)
    rw [keysAbsent]
    simp only [all, if_neg some_, if_true]

theorem absent_gone {request : OpenRequest}
    (gone : ∀ event ∈ request.events, matched rows event = false) :
    absent rows request.records = some true := by
  have nonempty : request.events ≠ [] := List.cons_ne_nil _ _
  refine absent_constant ?_ fun columns _ => ?_
  · rwa [filterMap_records]
  · rw [filterMap_records]
    have none : (request.events.filter (·.columns = columns)).filter (matched rows) = [] := by
      rw [List.filter_eq_nil_iff]
      intro event member
      simp [gone event (List.mem_of_mem_filter member)]
    rw [keysAbsent]
    simp only [none, if_true]

theorem deletion_records {request : OpenRequest} {deletes : Bool}
    (uniform : ∀ event ∈ request.events, event.kind.deletes = deletes) :
    deletion request.records = deletes := by
  cases deletes with
  | true =>
      rw [deletion, List.all_eq_true]
      intro record member
      obtain ⟨event, inEvents, rfl⟩ := List.mem_map.mp member
      simp [intent, uniform event inEvents]
  | false =>
      rw [deletion, List.all_eq_false]
      refine ⟨intent request.requestId request.attemptId request.first,
        List.mem_map_of_mem List.mem_cons_self, ?_⟩
      simp [intent, uniform request.first List.mem_cons_self]

end Evidence

end ProtectionLog

end EtlCraft
