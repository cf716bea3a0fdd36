import EtlCraft.AttemptCore
import EtlCraft.Moves
import EtlCraft.Runs
import EtlCraft.Utf8Reading

/-! One task of an agent: the child's output that `_advance` uploads in chunks, the ending that
`_finish` reports, the API's transactions behind both, and replies that are lost. -/

namespace EtlCraft

namespace Agents

abbrev Text := List Char

/-! ## The API -/

/-- `AgentTask` of an ending; `rest` are the fields the agent takes over from the result file. -/
structure AgentTask (Rest : Type) where
  status : Option AttemptStatus := none
  exitCode : Option Int := none
  errorMessage : Option Text := none
  failure : Option (FailureClass × String) := none
  queriesEnded : Bool := false
  pid : Option Nat := none
  processStart : Option String := none
  rest : Rest

structure Chunk where
  sequence : Nat
  content : Text
  byteOffset : Nat
  byteLength : Nat
  deriving DecidableEq

def expected (chunks : List Chunk) : Nat :=
  match chunks.getLast? with
  | none => 0
  | some last => last.sequence + 1

def offset (chunks : List Chunk) : Nat :=
  match chunks.getLast? with
  | none => 0
  | some last => last.byteOffset + last.byteLength

/-- What the API stores of one attempt: whether it is live and this agent's, its process, its log,
the receipt of its ending and the outcomes recorded for it. -/
structure Attempt (Rest : Type) where
  live : Bool := true
  process : Option (Nat × Option String) := none
  chunks : List Chunk := []
  receipt : Option Nat := none
  outcomes : List (AgentTask Rest) := []

inductive Refusal
  | usage
  | stale
  | permissionDenied
  | other
  deriving DecidableEq

/-- What the API is built on: masking, the two digests, and the checks of an ending that look at
other tables. -/
structure Api (Rest : Type) where
  mask : Text → Text
  sha256 : Text → Nat
  digest : AgentTask Rest → Nat
  admits : AgentTask Rest → Bool

variable {Rest : Type}

def byteLength (text : Text) : Nat :=
  (text.map Char.utf8Size).sum

def Attempt.start (attempt : Attempt Rest) (pid : Nat) (birth : Option String) :
    Except Refusal (Attempt Rest) :=
  if ¬attempt.live then .error .stale
  else
    match attempt.process with
    | none => .ok { attempt with process := some (pid, birth) }
    | some process =>
        if process.1 = pid ∧ (birth = none ∨ process.2 = birth) then .ok attempt
        else .error .stale

/-- `_ending_identity` does not raise. -/
def Attempt.identifies (attempt : Attempt Rest) (request : AgentTask Rest) : Bool :=
  (request.pid.isNone && request.processStart.isNone) ||
    (request.pid = attempt.process.map Prod.fst ∧
      request.processStart = attempt.process.bind Prod.snd)

namespace Api

variable (api : Api Rest)

def upload (attempt : Attempt Rest) (sequence : Nat) (content : Text) :
    Except Refusal (Attempt Rest) :=
  let masked := api.mask content
  if 65536 < byteLength masked then .error .usage
  else if ¬attempt.live then .error .stale
  else
    match attempt.chunks.find? (·.sequence = sequence) with
    | some previous =>
        if api.sha256 previous.content ≠ api.sha256 masked then .error .usage else .ok attempt
    | none =>
        if sequence ≠ expected attempt.chunks then .error .usage
        else .ok { attempt with
          chunks := attempt.chunks ++
            [⟨sequence, masked, offset attempt.chunks, byteLength masked⟩] }

def commitEnd (attempt : Attempt Rest) (request : AgentTask Rest) :
    Except Refusal (Attempt Rest) :=
  if request.status ∉ [some .success, some .failed, some .timedOut, some .cancelled] then
    .error .usage
  else
    match attempt.receipt with
    | some receipt => if receipt = api.digest request then .ok attempt else .error .stale
    | none =>
        if ¬attempt.live then .error .stale
        else if ¬attempt.identifies request then .error .permissionDenied
        else if ¬api.admits request then .error .other
        else .ok { attempt with
          live := false, receipt := some (api.digest request),
          outcomes := attempt.outcomes ++ [request] }

end Api

/-! ## The agent -/

/-- What becomes of a call: the API is not reached, its reply is lost, or it arrives. -/
inductive Delivery
  | lostBefore
  | lostAfter
  | delivered
  deriving DecidableEq

inductive Problem
  | server
  | refused
  deriving DecidableEq

structure ChildResult where
  returncode : Int
  timedOut : Bool := false
  cancelled : Bool := false
  pid : Option Nat := none
  processStart : Option String := none

inductive ResultFile (Rest : Type)
  | trigger
  | report (ending : AgentTask Rest)

structure RunningTask where
  sequence : Nat := 0
  readOffset : Nat := 0
  pending : Text := []
  decoder : Option Utf8Reading.Begun := none
  forced : Option (AttemptStatus × Text) := none
  fenced : Bool := false
  trigger : Bool := false
  decoded : Bool := false
  startedReported : Bool := false

/-- Why `confirm` leaves a cancellation pending; its reasons are never empty. -/
abbrev Reason := { text : Text // text ≠ [] }

/-- What one call of `_finish` finds: the warehouse's queries, the message for a killed child, the
answer to a pending cancellation, and what becomes of its calls. -/
structure Look where
  localQueries : Bool := true
  confirm : Option Reason := none
  message : Text := []
  cancelAccepted : Bool := true
  log : Delivery := .delivered
  start : Delivery := .delivered
  notice : Delivery := .delivered
  cancel : Delivery := .delivered
  ending : Delivery := .delivered

def sigkill : Int := 9

def killed (outcome : ChildResult) (forced : Option (AttemptStatus × Text)) : Bool :=
  decide (outcome.returncode = -sigkill) && !outcome.cancelled && !outcome.timedOut &&
    forced.isNone

def exitMessage (returncode : Int) : Text :=
  ("agent task process exited " ++ toString returncode ++ "; inspect its log").toList

def ending (noRest : Rest) (outcome : ChildResult) (result : Option (AgentTask Rest))
    (forced : Option (AttemptStatus × Text)) (message : Text) : AgentTask Rest :=
  let base := result.getD
    { status := some .failed, exitCode := some outcome.returncode,
      errorMessage := some (exitMessage outcome.returncode), rest := noRest }
  let afterKill := if killed outcome forced then
      { base with
        status := some .failed, exitCode := some (-sigkill), errorMessage := some message,
        failure := some (.permanent, "SIGKILL") }
    else base
  let afterTimeout := if outcome.timedOut then
      { afterKill with
        status := some .timedOut, errorMessage := some "agent task timeout".toList }
    else afterKill
  match forced with
  | none => afterTimeout
  | some (status, text) =>
      { afterTimeout with status := some status, errorMessage := some text }

def confirms (outcome : ChildResult) (look : Look) : Bool :=
  !look.localQueries || outcome.cancelled || outcome.timedOut || decide (outcome.returncode < 0)

def queriesEnded (outcome : ChildResult) (look : Look) : Bool :=
  if confirms outcome look then look.confirm.isNone else look.localQueries

def cancelPending (outcome : ChildResult) (look : Look) (request : AgentTask Rest) : Bool :=
  confirms outcome look && look.confirm.any (·.val ≠ []) && request.status = some .cancelled

def reported : Option (ResultFile Rest) → Option (Option (AgentTask Rest))
  | none => some none
  | some .trigger => none
  | some (.report request) => some (some request)

structure Side (Rest : Type) where
  running : RunningTask
  attempt : Attempt Rest

abbrev Move (Rest Value : Type) := Moves.Move (Side Rest) Problem Value

namespace Move

def change (edit : RunningTask → RunningTask) : Move Rest Unit := fun side =>
  ({ side with running := edit side.running }, .ok ())

def call (delivery : Delivery) (answer : Attempt Rest → Except Refusal (Attempt Rest)) :
    Move Rest Unit := fun side =>
  match delivery, answer side.attempt with
  | .lostBefore, _ => (side, .error .server)
  | .lostAfter, .ok attempt => ({ side with attempt }, .error .server)
  | .lostAfter, .error _ => (side, .error .server)
  | .delivered, .ok attempt => ({ side with attempt }, .ok ())
  | .delivered, .error _ => (side, .error .refused)

theorem call_cases (delivery : Delivery) (answer : Attempt Rest → Except Refusal (Attempt Rest))
    (side : Side Rest) :
    (∃ problem, call delivery answer side = (side, .error problem) ∧
      (problem = .refused → delivery = .delivered ∧
        ∃ refusal, answer side.attempt = .error refusal) ∧
      (delivery = .delivered → problem = .refused)) ∨
    ∃ attempt, answer side.attempt = .ok attempt ∧ delivery ≠ .lostBefore ∧
      call delivery answer side = ({ side with attempt },
        if delivery = .delivered then .ok () else .error .server) := by
  unfold call
  cases delivery <;> cases answered : answer side.attempt <;> simp

end Move

section Advance

variable (api : Api Rest) (noRest : Rest)

/-- An `AGENT_LOG` call of the next sequence; `AgentLog.__post_init__` bounds its content. -/
def sendLog (delivery : Delivery) (content : Text) : Move Rest Unit := fun side =>
  if 65536 < byteLength content then (side, .error .refused)
  else (Move.call delivery fun attempt => api.upload attempt side.running.sequence content).andThen
    (fun _ => Move.change fun running => { running with sequence := running.sequence + 1 }) side

/-- `_report_started`, where the process has not been reported. -/
def reportStarted (outcome : ChildResult) (look : Look) : Move Rest Unit := fun side =>
  match side.running.trigger || side.running.startedReported, outcome.pid with
  | false, some pid =>
      (Move.call look.start fun attempt => attempt.start pid outcome.processStart).andThen
        (fun _ => Move.change fun running => { running with startedReported := true }) side
  | _, _ => (side, .ok ())

/-- The upload of `_killed_task`. -/
def reportKilled (outcome : ChildResult) (look : Look) : Move Rest Unit := fun side =>
  if killed outcome side.running.forced then
    sendLog api look.notice (look.message ++ ['\n']) side
  else (side, .ok ())

def endingRequest (outcome : ChildResult) (result : Option (AgentTask Rest)) (look : Look)
    (forced : Option (AttemptStatus × Text)) : AgentTask Rest :=
  { ending noRest outcome result forced look.message with
    queriesEnded := queriesEnded outcome look, pid := outcome.pid,
    processStart := outcome.processStart }

def reportEnding (outcome : ChildResult) (result : Option (AgentTask Rest)) (look : Look) :
    Move Rest Bool := fun side =>
  if cancelPending outcome look (ending noRest outcome result side.running.forced look.message) then
    (Move.call look.cancel fun attempt =>
      if look.cancelAccepted then .ok attempt else .error .permissionDenied).andThen
      (fun _ => .done false) side
  else
    (Move.call look.ending fun attempt =>
      api.commitEnd attempt (endingRequest noRest outcome result look side.running.forced)).andThen
      (fun _ => .done true) side

def finish (outcome : ChildResult) (result : Option (ResultFile Rest)) (look : Look) :
    Move Rest Bool :=
  let reports := fun result => (reportStarted outcome look).andThen fun _ =>
    (reportKilled api outcome look).andThen fun _ => reportEnding api noRest outcome result look
  match result with
  | some .trigger => .done true
  | some (.report request) => reports (some request)
  | none => reports none

def sendPending (look : Look) : Move Rest Unit := fun side =>
  if side.running.pending = [] then (side, .ok ())
  else (sendLog api look.log side.running.pending).andThen
    (fun _ => Move.change fun running => { running with pending := [] }) side

def readOutput (output : List Nat) : Move Rest Bool := fun side =>
  let data := (output.drop side.running.readOffset).take 16384
  let read := Utf8Reading.decode side.running.decoder data
  if data = [] then (side, .ok false)
  else
    ({ side with
        running := { side.running with
          readOffset := side.running.readOffset + data.length, pending := read.1,
          decoder := read.2 } },
      .ok true)

def flushOutput : Move Rest Bool := fun side =>
  if side.running.decoded then (side, .ok false)
  else
    let pending := Utf8Reading.flush side.running.decoder
    ({ side with running := { side.running with pending, decoder := none, decoded := true } },
      .ok (decide (pending ≠ [])))

/-- `_advance` from the pending upload on, with what is left of the child once the output has been
read. -/
def advanceLog (output : List Nat) (child : Option (ChildResult × Option (ResultFile Rest)))
    (look : Look) : Move Rest Bool :=
  (sendPending api look).andThen fun _ =>
    (readOutput output).andThen fun found =>
      if found then .done false
      else match child with
        | none => .done false
        | some (outcome, result) =>
            flushOutput.andThen fun left =>
              if left then .done false else finish api noRest outcome result look

/-- `_advance`, with the child at its start and once the output has been read: whether the task is
forgotten. -/
def advance (output : List Nat) (child later : Option (ChildResult × Option (ResultFile Rest)))
    (look : Look) : Move Rest Bool := fun side =>
  if side.running.fenced then (side, .ok child.isSome)
  else if side.running.trigger then
    match child with
    | none => (side, .ok false)
    | some (outcome, some result) => finish api noRest outcome (some result) look side
    | some (_, none) => advanceLog api noRest output later look side
  else advanceLog api noRest output later look side

end Advance

structure Task (Rest : Type) where
  held : Option RunningTask := some {}
  output : List Nat := []
  child : Option (ChildResult × Option (ResultFile Rest)) := none
  attempt : Attempt Rest := {}

/-- What happens; while `_advance` runs, the child may write and end once its output was read. -/
inductive AgentEvent (Rest : Type)
  | write (bytes : List Nat)
  | exits (outcome : ChildResult) (result : Option (ResultFile Rest))
  | started (pid : Nat) (birth : Option String) (delivery : Delivery)
  | force (status : AttemptStatus) (message : Text)
  | fence
  | lapse
  | advance (look : Look) (written : List Nat)
      (exit : Option (ChildResult × Option (ResultFile Rest)))

def fits (trigger : Bool) : Option (ResultFile Rest) → Bool
  | none => true
  | some .trigger => trigger
  | some (.report _) => !trigger

namespace Task

def childDoes (task : Task Rest) (written : List Nat)
    (exit : Option (ChildResult × Option (ResultFile Rest))) : Option (Task Rest) :=
  match task.child, exit with
  | some _, none => if written = [] then some task else none
  | some _, some _ => none
  | none, none => some { task with output := task.output ++ written }
  | none, some (outcome, result) =>
      if task.held.all (fits ·.trigger result) then
        some { task with output := task.output ++ written, child := some (outcome, result) }
      else none

/-- A call of `_advance` that reads the output of `task`, while the child goes on to `later`. -/
def advanced (api : Api Rest) (noRest : Rest) (task later : Task Rest) (look : Look) : Task Rest :=
  match task.held with
  | none => later
  | some running =>
      match advance api noRest task.output task.child later.child look ⟨running, task.attempt⟩ with
      | (side, .ok forgotten) =>
          { later with
            held := if forgotten then none else some side.running, attempt := side.attempt }
      | (side, .error _) => { later with held := some side.running, attempt := side.attempt }

def change (task : Task Rest) (edit : RunningTask → RunningTask) : Task Rest :=
  { task with held := task.held.map edit }

def startFailed : Text :=
  "agent START report failed; retry the attempt".toList

def started (task : Task Rest) (running : RunningTask) (pid : Nat) (birth : Option String)
    (delivery : Delivery) : Task Rest :=
  match Move.call delivery (fun attempt => attempt.start pid birth) ⟨running, task.attempt⟩ with
  | (side, .ok ()) =>
      { task with held := some { running with startedReported := true }, attempt := side.attempt }
  | (side, .error .server) =>
      { task with
        held := some { running with forced := some (.failed, startFailed) }
        attempt := side.attempt }
  | (side, .error .refused) => { task with attempt := side.attempt }

def step (api : Api Rest) (noRest : Rest) (task : Task Rest) : AgentEvent Rest → Option (Task Rest)
  | .write bytes => task.childDoes bytes none
  | .exits outcome result => task.childDoes [] (some (outcome, result))
  | .started pid birth delivery =>
      match task.held, task.child with
      | some running, none =>
          if running.trigger then none else some (task.started running pid birth delivery)
      | _, _ => none
  | .force status message =>
      some (task.change fun running => { running with forced := some (status, message) })
  | .fence => some (task.change fun running => { running with fenced := true })
  | .lapse => some { task with attempt := { task.attempt with live := false } }
  | .advance look written exit =>
      (task.childDoes written exit).map fun later => task.advanced api noRest later look

end Task

/-! ## What each part can do -/

section Cases

variable {api : Api Rest} {noRest : Rest} {attempt next : Attempt Rest} {side : Side Rest}
  {look : Look} {outcome : ChildResult} {result : Option (ResultFile Rest)} {content : Text}
  {sequence : Nat} {request : AgentTask Rest}

theorem Attempt.start_ok {pid : Nat} {birth : Option String}
    (accepted : attempt.start pid birth = .ok next) :
    attempt.live = true ∧ ∃ process, next = { attempt with process } := by
  rw [Attempt.start] at accepted
  split at accepted
  · cases accepted
  · rename_i live
    refine ⟨by simpa using live, ?_⟩
    split at accepted
    · cases accepted
      exact ⟨_, rfl⟩
    · split at accepted
      · cases accepted
        exact ⟨attempt.process, rfl⟩
      · cases accepted

theorem Api.upload_ok (accepted : api.upload attempt sequence content = .ok next) :
    attempt.live = true ∧
    ((∃ previous, attempt.chunks.find? (·.sequence = sequence) = some previous ∧
        api.sha256 previous.content = api.sha256 (api.mask content) ∧ next = attempt) ∨
      attempt.chunks.find? (·.sequence = sequence) = none ∧ sequence = expected attempt.chunks ∧
        next = { attempt with
          chunks := attempt.chunks ++ [⟨sequence, api.mask content, offset attempt.chunks,
            byteLength (api.mask content)⟩] }) := by
  rw [upload] at accepted
  split at accepted
  · cases accepted
  · split at accepted
    · cases accepted
    · rename_i live
      refine ⟨by simpa using live, ?_⟩
      split at accepted
      · rename_i previous found
        split at accepted
        · cases accepted
        · rename_i same
          cases accepted
          exact .inl ⟨previous, found, not_not.mp same, rfl⟩
      · rename_i fresh
        split at accepted
        · cases accepted
        · rename_i inOrder
          cases accepted
          exact .inr ⟨fresh, not_not.mp inOrder, rfl⟩

theorem Api.commitEnd_ok : api.commitEnd attempt request = .ok next ↔
    request.status ∈ [some .success, some .failed, some .timedOut, some .cancelled] ∧
    ((attempt.receipt = some (api.digest request) ∧ next = attempt) ∨
      (attempt.receipt = none ∧ attempt.live = true ∧ attempt.identifies request = true ∧
        api.admits request = true ∧
        next = { attempt with
          live := false, receipt := some (api.digest request),
          outcomes := attempt.outcomes ++ [request] })) := by
  rw [commitEnd]
  by_cases status : request.status ∈ [some .success, some .failed, some .timedOut, some .cancelled]
  · rw [if_neg (not_not.mpr status)]
    cases receipt : attempt.receipt with
    | some stored =>
        dsimp only
        by_cases same : stored = api.digest request
        · subst same
          rw [if_pos rfl, Except.ok.injEq]
          constructor
          · rintro rfl
            exact ⟨status, .inl ⟨rfl, rfl⟩⟩
          · rintro ⟨_, ⟨_, rfl⟩ | ⟨never, _⟩⟩
            · rfl
            · cases never
        · rw [if_neg same]
          simp [same]
    | none =>
        dsimp only
        by_cases allowed : attempt.live = true ∧ attempt.identifies request = true ∧
            api.admits request = true
        · obtain ⟨live, identified, admitted⟩ := allowed
          simp only [live, identified, admitted, not_true_eq_false, if_false, Except.ok.injEq]
          constructor
          · rintro rfl
            exact ⟨status, .inr ⟨trivial, trivial, trivial, trivial, rfl⟩⟩
          · rintro ⟨_, ⟨never, _⟩ | ⟨_, _, _, _, same⟩⟩
            · cases never
            · exact same.symm
        · constructor
          · intro accepted
            split at accepted
            · cases accepted
            · rename_i live
              split at accepted
              · cases accepted
              · rename_i identified
                split at accepted
                · cases accepted
                · rename_i admitted
                  exact absurd ⟨not_not.mp live, not_not.mp identified, not_not.mp admitted⟩
                    allowed
          · rintro ⟨_, ⟨never, _⟩ | ⟨_, live, identified, admitted, _⟩⟩
            · cases never
            · exact absurd ⟨live, identified, admitted⟩ allowed
  · rw [if_pos status]
    exact iff_of_false nofun fun holds => status holds.1

theorem cancelPending_iff : cancelPending outcome look request = true ↔
    queriesEnded outcome look = false ∧ request.status = some .cancelled := by
  unfold cancelPending queriesEnded
  cases confirmed : confirms outcome look with
  | false =>
      have ended : look.localQueries = true := by
        simp only [confirms, Bool.or_eq_false_iff, Bool.not_eq_false'] at confirmed
        exact confirmed.1.1.1
      simp [ended]
  | true =>
      cases answer : look.confirm with
      | none => simp
      | some reason => simp [reason.property]

theorem reportStarted_cases (outcome : ChildResult) (look : Look) (side : Side Rest) :
    ∃ process flag, (reportStarted outcome look side).1 =
        ⟨{ side.running with startedReported := flag }, { side.attempt with process }⟩ ∧
      ((reportStarted outcome look side).2 = .ok () →
        side.running.trigger = true ∨ flag = true ∨ outcome.pid = none) := by
  unfold reportStarted
  split
  · rename_i pid notYet known
    rcases Move.call_cases look.start
      (fun attempt => attempt.start pid outcome.processStart) side with
      ⟨problem, called, _⟩ | ⟨attempt, accepted, _, called⟩
    · rw [Moves.Move.andThen_error called]
      exact ⟨side.attempt.process, side.running.startedReported, rfl, nofun⟩
    · obtain ⟨_, process, rfl⟩ := Attempt.start_ok accepted
      by_cases delivered : look.start = .delivered
      · rw [if_pos delivered] at called
        rw [Moves.Move.andThen_ok called]
        exact ⟨process, true, rfl, fun _ => .inr (.inl rfl)⟩
      · rw [if_neg delivered] at called
        rw [Moves.Move.andThen_error called]
        exact ⟨process, side.running.startedReported, rfl, nofun⟩
  · rename_i done
    refine ⟨side.attempt.process, side.running.startedReported, rfl, fun _ => ?_⟩
    cases trigger : side.running.trigger with
    | true => exact .inl rfl
    | false =>
        cases started : side.running.startedReported with
        | true => exact .inr (.inl rfl)
        | false =>
            cases known : outcome.pid with
            | none => exact .inr (.inr rfl)
            | some pid => exact absurd known (done pid (by simp [trigger, started]))

theorem reportStarted_again (started : side.running.trigger = true ∨
    side.running.startedReported = true ∨ outcome.pid = none) :
    reportStarted outcome look side = (side, .ok ()) := by
  unfold reportStarted
  split
  · rename_i pid notYet known
    rw [Bool.or_eq_false_iff] at notYet
    rcases started with trigger | reported | unknown
    · rw [notYet.1] at trigger
      cases trigger
    · rw [notYet.2] at reported
      cases reported
    · rw [known] at unknown
      cases unknown
  · rfl

theorem Api.upload_keeps (accepted : api.upload attempt sequence content = .ok next) :
    ∃ chunks, next = { attempt with chunks } := by
  rcases (Api.upload_ok accepted).2 with ⟨_, _, _, rfl⟩ | ⟨_, _, rfl⟩
  · exact ⟨next.chunks, rfl⟩
  · exact ⟨_, rfl⟩

theorem Api.upload_ended (api : Api Rest) (ended : attempt.live = false) (sequence : Nat) (content : Text) :
    ∃ refusal, api.upload attempt sequence content = .error refusal := by
  cases answered : api.upload attempt sequence content with
  | error refusal => exact ⟨refusal, rfl⟩
  | ok next =>
      have live := (Api.upload_ok answered).1
      rw [ended] at live
      cases live

theorem sendLog_cases (api : Api Rest) (delivery : Delivery) (content : Text) (side : Side Rest) :
    (∃ problem, sendLog api delivery content side = (side, .error problem) ∧
      (problem = .server → delivery ≠ .delivered)) ∨
    ∃ attempt, api.upload side.attempt side.running.sequence content = .ok attempt ∧
      delivery ≠ .lostBefore ∧
      sendLog api delivery content side =
        if delivery = .delivered then
          (⟨{ side.running with sequence := side.running.sequence + 1 }, attempt⟩, .ok ())
        else ({ side with attempt }, .error .server) := by
  unfold sendLog
  split
  · exact .inl ⟨.refused, rfl, nofun⟩
  · rcases Move.call_cases delivery
      (fun attempt => api.upload attempt side.running.sequence content) side with
      ⟨problem, called, _, whole⟩ | ⟨attempt, accepted, notBefore, called⟩
    · rw [Moves.Move.andThen_error called]
      refine .inl ⟨problem, rfl, fun isServer delivered => ?_⟩
      rw [whole delivered] at isServer
      cases isServer
    · refine .inr ⟨attempt, accepted, notBefore, ?_⟩
      by_cases delivered : delivery = .delivered
      · rw [if_pos delivered] at called ⊢
        rw [Moves.Move.andThen_ok called]
        rfl
      · rw [if_neg delivered] at called ⊢
        rw [Moves.Move.andThen_error called]

theorem sendLog_ended (delivery : Delivery) (content : Text) (ended : side.attempt.live = false) :
    sendLog api delivery content side = (side, .error
      (if byteLength content ≤ 65536 ∧ delivery ≠ .delivered then .server else .refused)) := by
  obtain ⟨refusal, refused⟩ := api.upload_ended ended side.running.sequence content
  have called : Move.call delivery
      (fun attempt => api.upload attempt side.running.sequence content) side =
        (side, .error (if delivery ≠ .delivered then .server else .refused)) := by
    cases delivery <;> simp [Move.call, refused]
  unfold sendLog
  by_cases short : byteLength content ≤ 65536
  · rw [if_neg (Nat.not_lt.mpr short), Moves.Move.andThen_error called]
    simp [short]
  · rw [if_pos (Nat.lt_of_not_le short), if_neg fun both => short both.1]

theorem reportKilled_cases (api : Api Rest) (outcome : ChildResult) (look : Look)
    (side : Side Rest) :
    ∃ sequence chunks, (reportKilled api outcome look side).1 =
      ⟨{ side.running with sequence }, { side.attempt with chunks }⟩ := by
  unfold reportKilled
  split
  · rcases sendLog_cases api look.notice (look.message ++ ['\n']) side with
      ⟨problem, sent, _⟩ | ⟨attempt, accepted, _, sent⟩
    · rw [sent]
      exact ⟨side.running.sequence, side.attempt.chunks, rfl⟩
    · obtain ⟨chunks, rfl⟩ := Api.upload_keeps accepted
      rw [sent]
      split
      · exact ⟨side.running.sequence + 1, chunks, rfl⟩
      · exact ⟨side.running.sequence, chunks, rfl⟩
  · exact ⟨side.running.sequence, side.attempt.chunks, rfl⟩

theorem reportEnding_cases (api : Api Rest) (noRest : Rest) (outcome : ChildResult)
    (task : Option (AgentTask Rest)) (look : Look) (side : Side Rest) :
    (cancelPending outcome look
        (ending noRest outcome task side.running.forced look.message) = true ∧
      (reportEnding api noRest outcome task look side).1 = side ∧
      (reportEnding api noRest outcome task look side).2 ≠ .ok true) ∨
    (cancelPending outcome look
        (ending noRest outcome task side.running.forced look.message) = false ∧
      ((∃ problem, reportEnding api noRest outcome task look side = (side, .error problem) ∧
          (problem = .refused → look.ending = .delivered ∧ ∃ refusal, api.commitEnd side.attempt
            (endingRequest noRest outcome task look side.running.forced) = .error refusal) ∧
          (look.ending = .delivered → problem = .refused)) ∨
        ∃ attempt, api.commitEnd side.attempt
            (endingRequest noRest outcome task look side.running.forced) = .ok attempt ∧
          look.ending ≠ .lostBefore ∧
          reportEnding api noRest outcome task look side = ({ side with attempt },
            if look.ending = .delivered then .ok true else .error .server))) := by
  unfold reportEnding
  split
  · rename_i waits
    refine .inl ⟨waits, ?_⟩
    rcases Move.call_cases look.cancel (fun attempt : Attempt Rest =>
      if look.cancelAccepted then .ok attempt else .error .permissionDenied) side with
      ⟨problem, called, _⟩ | ⟨attempt, accepted, _, called⟩
    · rw [Moves.Move.andThen_error called]
      exact ⟨rfl, nofun⟩
    · have same : attempt = side.attempt := by
        split at accepted
        · exact (Except.ok.inj accepted).symm
        · cases accepted
      subst same
      by_cases delivered : look.cancel = .delivered
      · rw [if_pos delivered] at called
        rw [Moves.Move.andThen_ok called]
        exact ⟨rfl, by simp [Moves.Move.done]⟩
      · rw [if_neg delivered] at called
        rw [Moves.Move.andThen_error called]
        exact ⟨rfl, nofun⟩
  · rename_i goesOn
    refine .inr ⟨Bool.not_eq_true _ ▸ goesOn, ?_⟩
    rcases Move.call_cases look.ending (fun attempt => api.commitEnd attempt
      (endingRequest noRest outcome task look side.running.forced)) side with
      ⟨problem, called, refused⟩ | ⟨attempt, accepted, notBefore, called⟩
    · rw [Moves.Move.andThen_error called]
      exact .inl ⟨problem, rfl, refused⟩
    · refine .inr ⟨attempt, accepted, notBefore, ?_⟩
      by_cases delivered : look.ending = .delivered
      · rw [if_pos delivered] at called ⊢
        rw [Moves.Move.andThen_ok called]
        rfl
      · rw [if_neg delivered] at called ⊢
        rw [Moves.Move.andThen_error called]

theorem finish_reports {task : Option (AgentTask Rest)} (reports : reported result = some task) :
    finish api noRest outcome result look =
      (reportStarted outcome look).andThen fun _ => (reportKilled api outcome look).andThen
        fun _ => reportEnding api noRest outcome task look := by
  cases result with
  | none =>
      cases reports
      rfl
  | some file =>
      cases file with
      | trigger => cases reports
      | report request =>
          cases reports
          rfl

theorem finish_trigger (trigger : reported result = none) :
    finish api noRest outcome result look side = (side, .ok true) := by
  cases result with
  | none => cases trigger
  | some file =>
      cases file with
      | trigger => rfl
      | report request => cases trigger

end Cases

def textNumber (text : Text) : Nat :=
  text.foldl (fun number char => number * 0x110000 + char.toNat + 1) 0

def plainApi : Api Unit where
  mask := id
  sha256 := textNumber
  digest request := 2 * textNumber (request.errorMessage.getD []) + request.queriesEnded.toNat
  admits _ := true

def killedChild : ChildResult := { returncode := -9, pid := some 7, processStart := some "t" }

end Agents

end EtlCraft
