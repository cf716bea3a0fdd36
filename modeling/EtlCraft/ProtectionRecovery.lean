import Mathlib
import EtlCraft.ProtectionLog
import EtlCraft.Runs

/-! Protection intents are resolved truthfully after any crash: one final status for a request, in
intent order, never over a live creator, and COMMITTED exactly where the transaction committed. -/

namespace EtlCraft

def PhaseFits (opened : Option OpenRequest) (committed : List Nat) (rows : List TargetRow) :
    Option Writer → Prop
  | none => True
  | some { phase := .recovering pending, .. } =>
      pending = opened.toList.map fun request => (request.requestId, request.records)
  | some { phase := .writing mutation none rest, .. } =>
      opened = none ∧ rest = mutation.events ∧ mutation.Selected rows
  | some { attemptId, phase := .writing mutation (some requestId) rest } =>
      mutation.Selected rows ∧ requestId ∉ committed ∧ ∃ request, opened = some request ∧
        request.requestId = requestId ∧ request.attemptId = attemptId ∧
        request.events ++ rest = mutation.events
  | some { phase := .reporting none, .. } => opened = none
  | some { attemptId, phase := .reporting (some requestId) } =>
      requestId ∈ committed ∧ ∃ request, opened = some request ∧
        request.requestId = requestId ∧ request.attemptId = attemptId

namespace ProtectionTables

def leavesStamp (after : List TargetRow) : Option Writer → Bool
  | some { phase := .writing mutation (some requestId) [], .. } =>
      mutation.deletes || ProtectionLog.stamped after requestId
  | _ => true

def Leaves (tables : ProtectionTables) : ProtectionStep → Prop
  | .commit after => leavesStamp after tables.writer = true
  | _ => True

/-- The log is settled up to the open request, whose evidence the rows still show. The last two
fields hold where every commit leaves its stamp. -/
structure Shape (first : Nat) (leaves : Prop) (tables : ProtectionTables)
    (closed : List ProtectionRecord) (opened : Option OpenRequest) : Prop where
  log : tables.log = closed ++ openRecords opened
  settled : ProtectionLog.Settled closed
  unsettled : ∀ request, opened = some request →
    request.requestId ∉ ProtectionLog.finals closed
  begun : first ≤ tables.nextRequest
  numbered : ∀ record ∈ tables.log,
    first ≤ record.requestId ∧ record.requestId < tables.nextRequest
  commits : ∀ requestId ∈ tables.committed, requestId < tables.nextRequest
  stamps : ∀ row ∈ tables.rows, ∀ requestId, row.stamp = some requestId →
    requestId < first ∨ requestId ∈ tables.committed
  phase : PhaseFits opened tables.committed tables.rows tables.writer
  uniform : ∀ request, opened = some request →
    ∃ deletes, ∀ event ∈ request.events, event.kind.deletes = deletes
  present : ∀ request, opened = some request → request.requestId ∉ tables.committed →
    ∀ event ∈ request.events, event.kind.deletes = true →
      ProtectionLog.matched tables.rows event = true
  gone : ∀ request, opened = some request → request.requestId ∈ tables.committed →
    ∀ event ∈ request.events, event.kind.deletes = true →
      ProtectionLog.matched tables.rows event = false
  left : leaves → ∀ request, opened = some request → request.requestId ∈ tables.committed →
    (∀ event ∈ request.events, event.kind.deletes = false) →
      ProtectionLog.stamped tables.rows request.requestId = true
  truthful : leaves → ∀ record ∈ closed, ProtectionLog.isPending record = false →
    (record.status = .committed ↔ record.requestId ∈ tables.committed)

section Shape

variable {first : Nat} {leaves : Prop} {tables : ProtectionTables}
  {closed : List ProtectionRecord} {opened : Option OpenRequest} {request : OpenRequest}

theorem Shape.withWriter (shape : Shape first leaves tables closed opened) (ledger : Ledger)
    {writer : Option Writer} (fits : PhaseFits opened tables.committed tables.rows writer) :
    Shape first leaves { tables with ledger, writer } closed opened where
  log := shape.log
  settled := shape.settled
  unsettled := shape.unsettled
  begun := shape.begun
  numbered := shape.numbered
  commits := shape.commits
  stamps := shape.stamps
  phase := fits
  uniform := shape.uniform
  present := shape.present
  gone := shape.gone
  left := shape.left
  truthful := shape.truthful

theorem Shape.request_numbered (shape : Shape first leaves tables closed (some request)) :
    first ≤ request.requestId ∧ request.requestId < tables.nextRequest := by
  have member : ProtectionLog.intent request.requestId request.attemptId request.first ∈
      tables.log := by
    rw [shape.log]
    exact List.mem_append_right _ (List.mem_map_of_mem List.mem_cons_self)
  exact shape.numbered _ member

theorem Shape.finalize (shape : Shape first leaves tables closed (some request))
    {final : ProtectionRecord} (same : final.requestId = request.requestId)
    (isFinal : ProtectionLog.isPending final = false)
    (truth : leaves → (final.status = .committed ↔ request.requestId ∈ tables.committed))
    (attemptId : Option Nat) :
    Shape first leaves
      ({ tables with log := tables.log ++ [final] }.moved attemptId (.recovering []))
      (closed ++ request.records ++ [final]) none where
  log := by
    rw [openRecords, Option.elim_none, List.append_nil]
    exact congrArg (· ++ [final]) shape.log
  settled := shape.settled.resolved (shape.unsettled request rfl) same isFinal
  unsettled := nofun
  begun := shape.begun
  numbered record member := by
    rcases List.mem_append.mp member with old | new
    · exact shape.numbered record old
    · rw [List.mem_singleton.mp new, same]
      exact shape.request_numbered
  commits := shape.commits
  stamps := shape.stamps
  phase := rfl
  uniform := nofun
  present := nofun
  gone := nofun
  left _ := nofun
  truthful holds record member notPending := by
    rcases List.mem_append.mp member with earlier | new
    · rcases List.mem_append.mp earlier with old | intended
      · exact shape.truthful holds record old notPending
      · rw [(OpenRequest.mem_records intended).2] at notPending
        cases notPending
    · rw [List.mem_singleton.mp new, same]
      exact truth holds

theorem Shape.not_stamped (shape : Shape first leaves tables closed (some request))
    (uncommitted : request.requestId ∉ tables.committed) :
    ProtectionLog.stamped tables.rows request.requestId = false := by
  rw [ProtectionLog.stamped, List.any_eq_false]
  intro row member isStamp
  have numbered := shape.request_numbered
  rcases shape.stamps row member request.requestId (by simpa using isStamp) with old | committed
  · omega
  · exact uncommitted committed

theorem Shape.observed (shape : Shape first leaves tables closed (some request)) (holds : leaves)
    {attemptId : Option Nat} {committed : Bool}
    (seen : ProtectionLog.observed tables.ledger tables.log tables.rows request.requestId
      request.records attemptId = some committed) :
    committed = true ↔ request.requestId ∈ tables.committed := by
  obtain ⟨deletes, uniform⟩ := shape.uniform request rfl
  rw [ProtectionLog.observed, ProtectionLog.deletion_records uniform] at seen
  cases deletes with
  | true =>
      rw [if_pos rfl] at seen
      obtain ⟨creator, _, owned⟩ := Option.bind_eq_some_iff.mp seen
      split at owned
      · by_cases done : request.requestId ∈ tables.committed
        · rw [ProtectionLog.absent_gone fun event member =>
            shape.gone request rfl done event member (uniform event member)] at owned
          cases owned
          exact iff_of_true rfl done
        · rw [ProtectionLog.absent_present fun event member =>
            shape.present request rfl done event member (uniform event member)] at owned
          cases owned
          exact iff_of_false Bool.false_ne_true done
      · cases owned
  | false =>
      rw [if_neg Bool.false_ne_true] at seen
      by_cases done : request.requestId ∈ tables.committed
      · rw [shape.left holds request rfl done uniform] at seen
        cases seen
        exact iff_of_true rfl done
      · rw [shape.not_stamped done] at seen
        cases seen
        exact iff_of_false Bool.false_ne_true done

theorem Shape.isOpen (shape : Shape first leaves tables closed (some request)) :
    (ProtectionLog.finalStatus tables.log request.requestId).isNone = true := by
  rw [shape.log]
  exact ProtectionLog.finalStatus_open (shape.unsettled request rfl)

theorem Shape.created (shape : Shape first leaves tables closed (some request)) :
    ProtectionLog.request tables.log request.requestId =
      some (ProtectionLog.intent request.requestId request.attemptId request.first) := by
  rw [shape.log]
  exact ProtectionLog.request_eq shape.settled (shape.unsettled request rfl)

structure Moves (first : Nat) (leaves : Prop) (tables next : ProtectionTables) : Prop where
  shape : ∃ closed opened, Shape first leaves next closed opened
  finals : ProtectionLog.finals next.log = ProtectionLog.finals tables.log ∨
    ∃ record writer creator, next.log = tables.log ++ [record] ∧ tables.writer = some writer ∧
      ProtectionLog.request tables.log record.requestId = some creator ∧
      ProtectionLog.MayFinalize tables.ledger creator writer.attemptId

theorem Shape.stays (shape : Shape first leaves tables closed opened) (ledger : Ledger)
    (writer : Option Writer) (fits : PhaseFits opened tables.committed tables.rows writer) :
    Moves first leaves tables { tables with ledger, writer } :=
  ⟨⟨closed, opened, shape.withWriter ledger fits⟩, .inl rfl⟩

theorem Shape.leave (shape : Shape first leaves tables closed opened) :
    Moves first leaves tables tables.leave :=
  shape.stays tables.ledger none trivial

theorem Shape.finalReport (shape : Shape first leaves tables closed (some request))
    {writer : Writer} (current : tables.writer = some writer) {report : ProtectionReport}
    {fenced : Bool} {added : List ProtectionRecord} {allocated : Nat}
    (appended : ProtectionLog.protectionEvent tables.ledger tables.log report writer.attemptId
      tables.nextRequest fenced = some (added, allocated))
    (named : report.requestId = some request.requestId) (final : report.status ≠ .pending)
    (truth : leaves → (report.status = .committed ↔ request.requestId ∈ tables.committed)) :
    Moves first leaves tables
      ({ tables with log := added }.moved writer.attemptId (.recovering [])) := by
  obtain ⟨creator, created, may, rfl⟩ :=
    ProtectionLog.event_finalizes appended final named shape.isOpen
  refine ⟨⟨_, none, shape.finalize rfl ?_ truth writer.attemptId⟩, .inr ?_⟩
  · exact decide_eq_false final
  · exact ⟨_, writer, creator, rfl, current, created, may⟩

theorem Shape.resolve (shape : Shape first leaves tables closed opened) {attemptId : Option Nat}
    {requestId : Nat} {records : List ProtectionRecord}
    {rest : List (Nat × List ProtectionRecord)}
    (current : tables.writer =
      some { attemptId, phase := .recovering ((requestId, records) :: rest) }) (fenced : Bool) :
    Moves first leaves tables (tables.resolve attemptId requestId records rest fenced) := by
  have fits := shape.phase
  rw [current] at fits
  cases opened with
  | none => cases fits
  | some request =>
      have same : (requestId, records) :: rest = [(request.requestId, request.records)] := fits
      cases same
      unfold ProtectionTables.resolve
      split
      · exact shape.leave
      · rename_i committed seen
        split
        · exact shape.leave
        · rename_i added allocated appended
          refine shape.finalReport current appended rfl ?_ fun holds => ?_
          · cases committed <;> simp [ProtectionLog.resolution]
          · rw [← shape.observed holds seen]
            cases committed <;> simp [ProtectionLog.resolution]

theorem Shape.report (shape : Shape first leaves tables closed opened) {attemptId : Option Nat}
    {requestId : Nat}
    (current : tables.writer = some { attemptId, phase := .reporting (some requestId) })
    (fenced : Bool) :
    Moves first leaves tables (tables.report attemptId requestId fenced) := by
  have fits := shape.phase
  rw [current] at fits
  obtain ⟨committed, request, rfl, rfl, _⟩ := fits
  unfold ProtectionTables.report
  split
  · exact shape.leave
  · rename_i added allocated appended
    exact shape.finalReport current appended rfl nofun fun _ => iff_of_true rfl committed

theorem Shape.extend (shape : Shape first leaves tables closed opened) (request : OpenRequest)
    {mutation : Mutation} {rest : List ProtectionEvent} {nextRequest : Nat}
    {log : List ProtectionRecord}
    (isLog : log = closed ++ request.records)
    (unsettled : request.requestId ∉ ProtectionLog.finals closed)
    (uncommitted : request.requestId ∉ tables.committed)
    (later : tables.nextRequest ≤ nextRequest)
    (numbered : first ≤ request.requestId ∧ request.requestId < nextRequest)
    (selected : mutation.Selected tables.rows)
    (split : request.events ++ rest = mutation.events) :
    Moves first leaves tables ({ tables with log, nextRequest }.moved request.attemptId
      (.writing mutation (some request.requestId) rest)) := by
  have intended : ∀ event ∈ request.events, event ∈ mutation.events := by
    intro event member
    rw [← split]
    exact List.mem_append_left _ member
  refine ⟨⟨closed, some request, ?_⟩, .inl ?_⟩
  · constructor
    · exact isLog
    · exact shape.settled
    · intro other isOther
      cases isOther
      exact unsettled
    · exact Nat.le_trans shape.begun later
    · intro record member
      have inLog : record ∈ closed ++ request.records := isLog ▸ member
      rcases List.mem_append.mp inLog with old | intent
      · have bounds := shape.numbered record (by rw [shape.log]; exact List.mem_append_left _ old)
        exact ⟨bounds.1, Nat.lt_of_lt_of_le bounds.2 later⟩
      · rw [(OpenRequest.mem_records intent).1]
        exact numbered
    · intro requestId member
      exact Nat.lt_of_lt_of_le (shape.commits requestId member) later
    · exact shape.stamps
    · exact ⟨selected, uncommitted, request, rfl, rfl, rfl, split⟩
    · intro other isOther
      cases isOther
      exact ⟨mutation.deletes, fun event member => mutation.uniform event (intended event member)⟩
    · intro other isOther _ event member deletes
      cases isOther
      refine selected ?_ event (intended event member)
      rw [← mutation.uniform event (intended event member), deletes]
    · intro other isOther committed
      cases isOther
      exact (uncommitted committed).elim
    · intro _ other isOther committed
      cases isOther
      exact (uncommitted committed).elim
    · exact shape.truthful
  · change ProtectionLog.finals log = ProtectionLog.finals tables.log
    have noFinals : ProtectionLog.finals request.records = [] :=
      ProtectionLog.finals_open (some request)
    rw [isLog, shape.log, ProtectionLog.finals_append, ProtectionLog.finals_append,
      ProtectionLog.finals_open, noFinals]

theorem Shape.stage (shape : Shape first leaves tables closed opened) {attemptId : Option Nat}
    {mutation : Mutation} {requestId : Option Nat} {event : ProtectionEvent}
    {rest : List ProtectionEvent}
    (current : tables.writer =
      some { attemptId, phase := .writing mutation requestId (event :: rest) }) (fenced : Bool) :
    Moves first leaves tables
      (tables.stage attemptId mutation requestId (event :: rest) fenced) := by
  have fits := shape.phase
  rw [current] at fits
  unfold ProtectionTables.stage
  split
  · exact shape.leave
  · rename_i log allocated appended
    cases requestId with
    | none =>
        obtain ⟨rfl, isRest, selected⟩ := fits
        obtain ⟨isLog, rfl⟩ := ProtectionLog.event_allocates appended rfl rfl rfl
        have fresh : tables.nextRequest ∉ ProtectionLog.finals closed := by
          intro member
          obtain ⟨record, inClosed, _, same⟩ := ProtectionLog.mem_finals.mp member
          have bound := (shape.numbered record (by rw [shape.log]; exact List.mem_append_left _ inClosed)).2
          omega
        have uncommitted : tables.nextRequest ∉ tables.committed := fun member =>
          Nat.lt_irrefl _ (shape.commits _ member)
        refine shape.extend ⟨tables.nextRequest, attemptId, event, rest.take 255⟩
          ?_ fresh uncommitted (Nat.le_succ _) ⟨shape.begun, Nat.lt_succ_self _⟩ selected ?_
        · rw [isLog, shape.log]
          simp [openRecords, OpenRequest.records, OpenRequest.events, maxProtectionEvents]
        · rw [← isRest]
          simp [OpenRequest.events, maxProtectionEvents]
    | some requestId =>
        obtain ⟨selected, uncommitted, request, rfl, rfl, rfl, split⟩ := fits
        obtain ⟨isLog, rfl⟩ := ProtectionLog.event_continues appended rfl rfl rfl shape.created rfl
          shape.isOpen
        refine shape.extend ⟨request.requestId, request.attemptId, request.first,
            request.others ++ (event :: rest).take maxProtectionEvents⟩
          ?_ (shape.unsettled request rfl) uncommitted (Nat.le_refl _) shape.request_numbered
          selected ?_
        · rw [isLog, shape.log]
          simp [openRecords, OpenRequest.records, OpenRequest.events]
        · rw [← split]
          simp [OpenRequest.events]

theorem Shape.commit (shape : Shape first leaves tables closed opened) {attemptId : Option Nat}
    {mutation : Mutation} {requestId : Option Nat} {after : List TargetRow}
    (current : tables.writer = some { attemptId, phase := .writing mutation requestId [] })
    (applied : mutation.Applied requestId tables.rows after)
    (stays : leaves → tables.Leaves (.commit after)) :
    Moves first leaves tables (tables.commit attemptId requestId after) := by
  have fits := shape.phase
  rw [current] at fits
  refine ⟨⟨closed, opened, ?_⟩, .inl rfl⟩
  cases requestId with
  | none =>
      obtain ⟨rfl, _, _⟩ := fits
      constructor
      · exact shape.log
      · exact shape.settled
      · exact shape.unsettled
      · exact shape.begun
      · exact shape.numbered
      · exact shape.commits
      · intro row member requestId isStamp
        rcases applied.1 row member with none | old | new
        · rw [none] at isStamp
          cases isStamp
        · obtain ⟨before, inRows, same⟩ := List.mem_map.mp old
          exact shape.stamps before inRows requestId (same.trans isStamp)
        · rw [new.2] at isStamp
          cases isStamp
      · rfl
      · nofun
      · nofun
      · nofun
      · nofun
      · exact shape.truthful
  | some requestId =>
      obtain ⟨_, uncommitted, request, rfl, rfl, rfl, split⟩ := fits
      rw [List.append_nil] at split
      constructor
      · exact shape.log
      · exact shape.settled
      · exact shape.unsettled
      · exact shape.begun
      · exact shape.numbered
      · intro requestId member
        rcases List.mem_cons.mp member with isNew | old
        · rw [isNew]
          exact shape.request_numbered.2
        · exact shape.commits requestId old
      · intro row member requestId isStamp
        rcases applied.1 row member with none | old | new
        · rw [none] at isStamp
          cases isStamp
        · obtain ⟨before, inRows, same⟩ := List.mem_map.mp old
          exact (shape.stamps before inRows requestId (same.trans isStamp)).imp_right
            (List.mem_cons_of_mem _)
        · rw [new.2] at isStamp
          cases isStamp
          exact .inr List.mem_cons_self
      · exact ⟨List.mem_cons_self, request, rfl, rfl, rfl⟩
      · exact shape.uniform
      · intro other isOther notCommitted
        cases isOther
        exact (notCommitted List.mem_cons_self).elim
      · intro other isOther _ event member deletes
        cases isOther
        rw [split] at member
        refine applied.2 ?_ event member
        rw [← mutation.uniform event member, deletes]
      · intro holds other isOther _ writes
        cases isOther
        have member : request.first ∈ request.events := List.mem_cons_self
        have keeps : mutation.deletes = false := by
          rw [← writes request.first member]
          exact (mutation.uniform request.first (split ▸ member)).symm
        have left := stays holds
        simp only [Leaves, current, leavesStamp, keeps, Bool.false_or] at left
        exact left
      · intro holds record member notPending
        rw [shape.truthful holds record member notPending]
        refine ⟨List.mem_cons_of_mem _, fun inCommitted => ?_⟩
        rcases List.mem_cons.mp inCommitted with isNew | old
        · refine (shape.unsettled request rfl ?_).elim
          exact ProtectionLog.mem_finals.mpr ⟨record, member, notPending, isNew⟩
        · exact old

theorem Shape.step (shape : Shape first leaves tables closed opened) {next : ProtectionTables}
    {event : ProtectionStep} (stays : leaves → tables.Leaves event)
    (taken : tables.step event = some next) : Moves first leaves tables next := by
  have fits := shape.phase
  cases event with
  | attempt event =>
      obtain ⟨ledger, _, rfl⟩ := Option.map_eq_some_iff.mp taken
      exact shape.stays ledger _ fits
  | leave =>
      cases taken
      exact shape.leave
  | enter attemptId =>
      simp only [ProtectionTables.step] at taken
      split at taken
      · cases taken
      · cases taken
        refine shape.stays tables.ledger _ ?_
        change ProtectionLog.unresolved tables.log = _
        rw [shape.log, ProtectionLog.unresolved_eq shape.settled shape.unsettled]
  | resolve fenced =>
      simp only [ProtectionTables.step] at taken
      split at taken
      · rename_i current
        cases taken
        exact shape.resolve current fenced
      · cases taken
  | mutate mutation =>
      simp only [ProtectionTables.step] at taken
      split at taken
      · rename_i attemptId current
        split at taken
        · rename_i selected
          cases taken
          rw [current] at fits
          refine shape.stays tables.ledger (some ⟨attemptId, _⟩) ⟨?_, rfl, selected⟩
          cases opened with
          | none => rfl
          | some request => cases fits
        · cases taken
      · cases taken
  | stage fenced =>
      simp only [ProtectionTables.step] at taken
      split at taken
      · rename_i current
        cases taken
        exact shape.stage current fenced
      · cases taken
  | commit after =>
      simp only [ProtectionTables.step] at taken
      split at taken
      · rename_i current
        split at taken
        · rename_i applied
          cases taken
          exact shape.commit current applied stays
        · cases taken
      · cases taken
  | report fenced =>
      simp only [ProtectionTables.step] at taken
      split at taken
      · rename_i attemptId current
        cases taken
        rw [current] at fits
        refine shape.stays tables.ledger (some ⟨attemptId, _⟩) ?_
        rw [show opened = none from fits]
        rfl
      · rename_i current
        cases taken
        exact shape.report current fenced
      · cases taken

end Shape

def start (ledger : Ledger) (rows : List TargetRow) (first : Nat) : ProtectionTables :=
  { ledger, rows, nextRequest := first }

/-- Stamps that rows have at the start are those of earlier requests. -/
def Earlier (rows : List TargetRow) (first : Nat) : Prop :=
  ∀ row ∈ rows, ∀ requestId ∈ row.stamp, requestId < first

theorem start_shape (leaves : Prop) (ledger : Ledger) {rows : List TargetRow} {first : Nat}
    (earlier : Earlier rows first) :
    Shape first leaves (start ledger rows first) [] none where
  log := rfl
  settled := ⟨rfl, List.nodup_nil⟩
  unsettled := nofun
  begun := Nat.le_refl _
  numbered _ member := absurd member List.not_mem_nil
  commits _ member := absurd member List.not_mem_nil
  stamps row member requestId isStamp := .inl (earlier row member requestId isStamp)
  phase := trivial
  uniform := nofun
  present := nofun
  gone := nofun
  left _ := nofun
  truthful _ := nofun

theorem exec_shape (leaves : Prop) {ledger : Ledger} {rows : List TargetRow} {first : Nat}
    {events : List ProtectionStep} {tables : ProtectionTables} (earlier : Earlier rows first)
    (along : leaves → Runs.Along step Leaves (start ledger rows first) events)
    (run : Runs.exec step (start ledger rows first) events = some tables) :
    ∃ closed opened, Shape first leaves tables closed opened := by
  have conditions : Runs.Along step (fun state event => leaves → Leaves state event)
      (start ledger rows first) events := by
    by_cases holds : leaves
    · exact Runs.along_imp (fun _ _ stays _ => stays) (along holds)
    · exact Runs.along_imp (fun _ _ _ given => (holds given).elim) (Runs.along_true _ _)
  refine Runs.exec_invariant_along (fun state => ∃ closed opened,
    Shape first leaves state closed opened) ?_ ⟨[], none, start_shape leaves ledger earlier⟩
    conditions run
  rintro state event next stays ⟨closed, opened, shape⟩ taken
  exact (shape.step stays taken).shape

/-- Over every sequence of writers, crashes and attempt changes: one final status for a request, in
the order of the first intents, none over a live creator by another writer; and where every commit
that stamps rows leaves a stamped row, COMMITTED exactly for the committed transactions. -/
theorem intents_resolved (ledger : Ledger) (rows : List TargetRow) (first : Nat)
    (events : List ProtectionStep) (tables : ProtectionTables) (earlier : Earlier rows first)
    (run : Runs.exec step (start ledger rows first) events = some tables) :
    (ProtectionLog.finals tables.log).Nodup ∧
    ProtectionLog.finals tables.log <+: ProtectionLog.intents tables.log ∧
    (∀ event next, tables.step event = some next →
      ProtectionLog.finals next.log = ProtectionLog.finals tables.log ∨
      ∃ record writer creator, next.log = tables.log ++ [record] ∧ tables.writer = some writer ∧
        ProtectionLog.request tables.log record.requestId = some creator ∧
        ProtectionLog.MayFinalize tables.ledger creator writer.attemptId) ∧
    (Runs.Along step Leaves (start ledger rows first) events →
      ∀ record ∈ tables.log, record.status ≠ .pending →
        (record.status = .committed ↔ record.requestId ∈ tables.committed)) := by
  obtain ⟨closed, opened, shape⟩ := exec_shape False earlier False.elim run
  have onlyClosed : ProtectionLog.finals tables.log = ProtectionLog.finals closed := by
    rw [shape.log, ProtectionLog.finals_append, ProtectionLog.finals_open, List.append_nil]
  refine ⟨?_, ?_, ?_, ?_⟩
  · rw [onlyClosed]
    exact shape.settled.distinct
  · rw [onlyClosed, shape.settled.ordered, shape.log]
    exact ProtectionLog.intents_prefix closed _
  · intro event next taken
    exact (shape.step False.elim taken).finals
  · intro along record member final
    obtain ⟨closed, opened, shape⟩ := exec_shape True earlier (fun _ => along) run
    have notPending : ProtectionLog.isPending record = false := decide_eq_false final
    rw [shape.log] at member
    rcases List.mem_append.mp member with old | intent
    · exact shape.truthful trivial record old notPending
    · rw [pending_of_open intent] at notPending
      cases notPending

section Crashes

instance : ∀ tables event, Decidable (Leaves tables event)
  | tables, .commit after => inferInstanceAs (Decidable (leavesStamp after tables.writer = true))
  | _, .attempt _ | _, .enter _ | _, .resolve _ | _, .mutate _ | _, .stage _ | _, .report _
  | _, .leave => isTrue trivial

def orders (stamp : Option Nat) : TargetRow := { hash := fun _ => "9c27", stamp }

def edit : Mutation := ⟨false, [⟨.write, "9c27", ["order_id"]⟩], by decide⟩

def purge : Mutation := ⟨true, [⟨.hardDelete, "9c27", ["order_id"]⟩], by decide⟩

/-- One writer stops before its report, the next before its commit. -/
def crashes : List ProtectionStep :=
  [.enter none, .mutate edit, .stage true, .commit [orders (some 5)], .leave,
    .enter none, .resolve true, .mutate purge, .stage true, .leave, .enter none, .resolve true]

theorem intents_resolved_crashes :
    ∃ tables, Runs.exec step (start {} [orders (some 4)] 5) crashes = some tables ∧
      (tables.log.map fun record => (record.requestId, record.status)) =
        [(5, .pending), (5, .committed), (6, .pending), (6, .abandoned)] ∧
      (ProtectionLog.finals tables.log).Nodup ∧
      ∀ record ∈ tables.log, record.status ≠ .pending →
        (record.status = .committed ↔ record.requestId ∈ tables.committed) := by
  have earlier : Earlier [orders (some 4)] 5 := by
    unfold Earlier
    decide
  obtain ⟨tables, run, statuses⟩ := (Option.any_eq_true (fun tables : ProtectionTables =>
    decide ((tables.log.map fun record => (record.requestId, record.status)) =
      [(5, .pending), (5, .committed), (6, .pending), (6, .abandoned)])) _).mp
    (by decide +kernel :
      (Runs.exec step (start {} [orders (some 4)] 5) crashes).any _ = true)
  have resolved := intents_resolved {} [orders (some 4)] 5 crashes tables earlier run
  exact ⟨tables, run, of_decide_eq_true statuses, resolved.1, resolved.2.2.2 (by decide +kernel)⟩

end Crashes

end ProtectionTables

end EtlCraft
