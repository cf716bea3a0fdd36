import EtlCraft.AgentCore

/-! The log of a task over every run of its agent: the output in pieces, each uploaded once and in
order, and after it the message for a killed child. -/

namespace EtlCraft

namespace Agents

variable {Rest : Type}

/-! ## Chunks -/

def chunksFrom (sequence offset : Nat) : List Text → List Chunk
  | [] => []
  | content :: contents =>
      ⟨sequence, content, offset, byteLength content⟩ ::
        chunksFrom (sequence + 1) (offset + byteLength content) contents

def chunksOf (contents : List Text) : List Chunk :=
  chunksFrom 0 0 contents

theorem chunksFrom_append (sequence offset : Nat) (first second : List Text) :
    chunksFrom sequence offset (first ++ second) = chunksFrom sequence offset first ++
      chunksFrom (sequence + first.length) (offset + (first.map byteLength).sum) second := by
  induction first generalizing sequence offset with
  | nil => rfl
  | cons content contents ih =>
      rw [List.cons_append, chunksFrom, ih, chunksFrom, List.length_cons, List.map_cons,
        List.sum_cons, Nat.add_assoc, Nat.add_assoc, Nat.add_comm 1]
      rfl

theorem chunksOf_snoc (contents : List Text) (content : Text) :
    chunksOf (contents ++ [content]) = chunksOf contents ++
      [⟨contents.length, content, (contents.map byteLength).sum, byteLength content⟩] := by
  rw [chunksOf, chunksFrom_append]
  simp [chunksOf, chunksFrom]

theorem offset_chunksOf (contents : List Text) :
    offset (chunksOf contents) = (contents.map byteLength).sum := by
  induction contents using List.reverseRecOn with
  | nil => rfl
  | append_singleton contents content _ =>
      simp [chunksOf_snoc, offset]

theorem chunksOf_sequence {contents : List Text} {chunk : Chunk}
    (member : chunk ∈ chunksOf contents) : chunk.sequence < contents.length := by
  induction contents using List.reverseRecOn with
  | nil => cases member
  | append_singleton contents content ih =>
      rw [chunksOf_snoc, List.mem_append, List.mem_singleton] at member
      rw [List.length_append, List.length_singleton]
      rcases member with earlier | rfl
      · exact Nat.lt_succ_of_lt (ih earlier)
      · exact Nat.lt_succ_self _

theorem find_fresh (contents : List Text) :
    (chunksOf contents).find? (·.sequence = contents.length) = none := by
  rw [List.find?_eq_none]
  intro chunk member same
  have earlier := chunksOf_sequence member
  simp only [decide_eq_true_eq] at same
  omega

theorem find_last (contents : List Text) (content : Text) :
    ((chunksOf (contents ++ [content])).find? (·.sequence = contents.length)).isSome = true := by
  rw [chunksOf_snoc, List.find?_append, find_fresh]
  simp

section Uploads

variable {api : Api Rest} {attempt next : Attempt Rest} {contents : List Text} {content raw : Text}

theorem upload_fresh (logged : attempt.chunks = chunksOf contents)
    (accepted : api.upload attempt contents.length raw = .ok next) :
    next = { attempt with chunks := chunksOf (contents ++ [api.mask raw]) } := by
  rcases (Api.upload_ok accepted).2 with ⟨previous, found, _⟩ | ⟨_, _, rfl⟩
  · rw [logged, find_fresh] at found
    cases found
  · rw [logged, chunksOf_snoc, offset_chunksOf]

theorem upload_again (logged : attempt.chunks = chunksOf (contents ++ [content]))
    (accepted : api.upload attempt contents.length raw = .ok next) : next = attempt := by
  rcases (Api.upload_ok accepted).2 with ⟨_, _, _, same⟩ | ⟨fresh, _⟩
  · exact same
  · have found := find_last contents content
    rw [← logged, fresh] at found
    cases found

end Uploads

/-! ## The output that has been read -/

abbrev Child (Rest : Type) := Option (ChildResult × Option (ResultFile Rest))

/-- What has been decoded of the output so far, or all of it once the child has ended. -/
inductive Reading (output : List Nat) (child : Child Rest) (running : RunningTask) : Text → Prop
  | going (notYet : running.decoded = false) (inside : running.readOffset ≤ output.length)
      (decoder : running.decoder =
        (Utf8Reading.decode none (output.take running.readOffset)).2) :
      Reading output child running (Utf8Reading.decode none (output.take running.readOffset)).1
  | complete (decoded : running.decoded = true) (all : running.readOffset = output.length)
      (ended : child.isSome = true) : Reading output child running (Utf8Reading.text output)

section Read

variable {output : List Nat} {child : Child Rest} {running : RunningTask} {sofar : Text}

theorem Reading.isPrefix (reading : Reading output child running sofar) :
    sofar <+: Utf8Reading.text output := by
  cases reading with
  | going =>
      have whole := Utf8Reading.decode_append none (output.take running.readOffset)
        (output.drop running.readOffset)
      rw [List.take_append_drop] at whole
      rw [Utf8Reading.text, whole, List.append_assoc]
      exact List.prefix_append _ _
  | complete => exact List.prefix_refl _

theorem Reading.inside (reading : Reading output child running sofar) :
    running.readOffset ≤ output.length := by
  cases reading with
  | going _ inside => exact inside
  | complete _ all => exact all.le

theorem Reading.alike {other : RunningTask} {same : Text}
    (reading : Reading output child running sofar) (decoded : other.decoded = running.decoded)
    (readOffset : other.readOffset = running.readOffset)
    (decoder : other.decoder = running.decoder) (equal : same = sofar) :
    Reading output child other same := by
  subst equal
  cases reading with
  | going notYet inside state =>
      rw [← readOffset] at inside state ⊢
      exact .going (decoded.trans notYet) inside (decoder.trans state)
  | complete known all ended =>
      exact .complete (decoded.trans known) (readOffset.trans all) ended

theorem Reading.over (reading : Reading output child running sofar)
    (decoded : running.decoded = true) :
    running.readOffset = output.length ∧ sofar = Utf8Reading.text output := by
  cases reading with
  | going notYet =>
      rw [notYet] at decoded
      cases decoded
  | complete _ all => exact ⟨all, rfl⟩

theorem Reading.rest (reading : Reading output child running sofar)
    (notYet : running.decoded = false) (all : running.readOffset = output.length) :
    sofar ++ Utf8Reading.flush running.decoder = Utf8Reading.text output := by
  cases reading with
  | going _ _ decoder =>
      rw [decoder, all, List.take_length]
      rfl
  | complete decoded =>
      rw [notYet] at decoded
      cases decoded

theorem Reading.next (reading : Reading output child running sofar)
    (unread : running.readOffset < output.length) {data : List Nat}
    (taken : data = (output.drop running.readOffset).take 16384) :
    Reading output child
      { running with
        readOffset := running.readOffset + data.length
        pending := (Utf8Reading.decode running.decoder data).1
        decoder := (Utf8Reading.decode running.decoder data).2 }
      (sofar ++ (Utf8Reading.decode running.decoder data).1) := by
  cases reading with
  | complete known all => exact absurd all unread.ne
  | going notYet inside decoder =>
      have length : data.length ≤ output.length - running.readOffset := by
        rw [taken, List.length_take, List.length_drop]
        exact min_le_right _ _
      have more : output.take (running.readOffset + data.length) =
          output.take running.readOffset ++ data := by
        rw [List.take_add]
        congr 1
        rw [taken, List.length_take, ← List.take_take, List.take_length]
      have whole := Utf8Reading.decode_append none (output.take running.readOffset) data
      rw [← more, ← decoder] at whole
      have read : Reading output child
          { running with
            readOffset := running.readOffset + data.length
            pending := (Utf8Reading.decode running.decoder data).1
            decoder := (Utf8Reading.decode running.decoder data).2 }
          (Utf8Reading.decode none (output.take (running.readOffset + data.length))).1 :=
        .going notYet (by simp only; omega) (by simp only [whole])
      rw [whole] at read
      exact read

def Grows (output : List Nat) (child : Child Rest) (longer : List Nat) (later : Child Rest) :
    Prop :=
  ∃ written, longer = output ++ written ∧ (child.isSome = true → written = [] ∧ later = child)

theorem Reading.grows {longer : List Nat} {later : Child Rest}
    (reading : Reading output child running sofar) (grown : Grows output child longer later) :
    Reading longer later running sofar := by
  obtain ⟨written, rfl, still⟩ := grown
  cases reading with
  | going notYet inside decoder =>
      have same : (output ++ written).take running.readOffset = output.take running.readOffset :=
        List.take_append_of_le_length inside
      rw [← same] at decoder ⊢
      refine .going notYet ?_ decoder
      rw [List.length_append]
      exact Nat.le_add_right_of_le inside
  | complete decoded all ended =>
      obtain ⟨rfl, rfl⟩ := still ended
      rw [List.append_nil]
      exact .complete decoded all ended

end Read

/-! ## Between two calls of `_advance` -/

/-- The pieces of the output in the log, and the message for a killed child: everything that was
sent is acknowledged, or the last piece is not, or the message is not. -/
inductive Phase (output : List Nat) (child : Child Rest) (running : RunningTask) :
    List Text → List Text → Prop
  | settled {pieces : List Text} (count : pieces.length = running.sequence)
      (reading : Reading output child running (pieces.flatten ++ running.pending)) :
      Phase output child running pieces []
  | unacknowledged {before : List Text} (count : before.length = running.sequence)
      (some_ : running.pending ≠ [])
      (reading : Reading output child running (before.flatten ++ running.pending)) :
      Phase output child running (before ++ [running.pending]) []
  | noticed {pieces : List Text} {message : Text} {outcome : ChildResult}
      {file : Option (ResultFile Rest)} (count : pieces.length = running.sequence)
      (none_ : running.pending = []) (decoded : running.decoded = true)
      (reading : Reading output child running pieces.flatten)
      (ended : child = some (outcome, file)) (wasKilled : killed outcome running.forced = true) :
      Phase output child running pieces [message ++ ['\n']]

structure Open (api : Api Rest) (output : List Nat) (child : Child Rest) (side : Side Rest) :
    Prop where
  noReceipt : side.attempt.receipt = none
  noOutcome : side.attempt.outcomes = []
  fitting : child.all (fits side.running.trigger ·.2) = true
  log : ∃ pieces notices,
    side.attempt.chunks = chunksOf ((pieces ++ notices).map api.mask) ∧
      Phase output child side.running pieces notices

/-- An ending was committed after the whole output, and after the message where the child was
killed. -/
inductive Ended (api : Api Rest) (noRest : Rest) (output : List Nat) (child : Child Rest)
    (attempt : Attempt Rest) : Prop
  | intro (closed : attempt.live = false) (receipt : attempt.receipt.isSome = true)
      (pieces notices : List Text)
      (logged : attempt.chunks = chunksOf ((pieces ++ notices).map api.mask))
      (whole : pieces.flatten = Utf8Reading.text output) (outcome : ChildResult)
      (file : Option (ResultFile Rest)) (ended : child = some (outcome, file))
      (task : Option (AgentTask Rest)) (look : Look) (forced : Option (AttemptStatus × Text))
      (outcomes : attempt.outcomes = [endingRequest noRest outcome task look forced])
      (notice : if killed outcome forced then ∃ message, notices = [message ++ ['\n']]
        else notices = [])

section Phases

variable {api : Api Rest} {noRest : Rest} {output longer : List Nat} {child later : Child Rest}
  {running : RunningTask} {pieces notices : List Text} {side : Side Rest}

theorem Phase.isPrefix (phase : Phase output child running pieces notices) :
    pieces.flatten <+: Utf8Reading.text output := by
  cases phase with
  | settled count reading => exact (List.prefix_append _ _).trans reading.isPrefix
  | unacknowledged count some_ reading =>
      rw [List.flatten_append, List.flatten_singleton]
      exact reading.isPrefix
  | noticed count none_ decoded reading => exact reading.isPrefix

theorem Phase.grows (phase : Phase output child running pieces notices)
    (grown : Grows output child longer later) : Phase longer later running pieces notices := by
  cases phase with
  | settled count reading => exact .settled count (reading.grows grown)
  | unacknowledged count some_ reading => exact .unacknowledged count some_ (reading.grows grown)
  | noticed count none_ decoded reading ended wasKilled =>
      have still : later = child := by
        obtain ⟨_, _, still⟩ := grown
        exact (still (by rw [ended]; rfl)).2
      exact .noticed count none_ decoded (reading.grows grown) (still.trans ended) wasKilled

theorem Phase.alike {other : RunningTask} (phase : Phase output child running pieces notices)
    (sequence : other.sequence = running.sequence) (pending : other.pending = running.pending)
    (decoded : other.decoded = running.decoded) (readOffset : other.readOffset = running.readOffset)
    (decoder : other.decoder = running.decoder) (forced : other.forced = running.forced) :
    Phase output child other pieces notices := by
  cases phase with
  | settled count reading =>
      exact .settled (count.trans sequence.symm)
        (reading.alike decoded readOffset decoder (by rw [pending]))
  | unacknowledged count some_ reading =>
      rw [← pending] at some_ reading ⊢
      exact .unacknowledged (count.trans sequence.symm) some_
        (reading.alike decoded readOffset decoder rfl)
  | noticed count none_ isDecoded reading ended wasKilled =>
      exact .noticed (count.trans sequence.symm) (pending.trans none_) (decoded.trans isDecoded)
        (reading.alike decoded readOffset decoder rfl) ended (forced ▸ wasKilled)

theorem Phase.inside (phase : Phase output child running pieces notices) :
    running.readOffset ≤ output.length := by
  cases phase with
  | settled count reading => exact reading.inside
  | unacknowledged count some_ reading => exact reading.inside
  | noticed count none_ decoded reading => exact reading.inside

end Phases

/-! ## The parts of `_advance` -/

structure Alike (first second : Side Rest) : Prop where
  forced : first.running.forced = second.running.forced
  trigger : first.running.trigger = second.running.trigger
  started : first.running.startedReported = second.running.startedReported
  readOffset : first.running.readOffset = second.running.readOffset
  live : first.attempt.live = second.attempt.live
  process : first.attempt.process = second.attempt.process

section Parts

variable {api : Api Rest} {noRest : Rest} {output longer : List Nat} {child later : Child Rest}
  {start side : Side Rest} {look : Look}

def Sent (api : Api Rest) (output : List Nat) (child : Child Rest) (side : Side Rest) : Prop :=
  Open api output child side ∧ side.running.pending = []

theorem Open.grows (opened : Open api output child side) (grown : Grows output child longer later)
    (fitting : later.all (fits side.running.trigger ·.2) = true) : Open api longer later side := by
  obtain ⟨pieces, notices, logged, phase⟩ := opened.log
  exact ⟨opened.noReceipt, opened.noOutcome, fitting, pieces, notices, logged, phase.grows grown⟩

theorem sendPending_spec (look : Look) : Moves.Triple (Open api output child)
    (sendPending api look) (fun _ => Sent api output child) (Open api output child) := by
  intro side opened
  unfold sendPending
  split
  · rename_i nothing
    exact ⟨opened, nothing⟩
  · rename_i something
    obtain ⟨pieces, notices, logged, phase⟩ := opened.log
    rcases sendLog_cases api look.log side.running.pending side with
      ⟨problem, sent, _⟩ | ⟨attempt, accepted, _, sent⟩
    · rw [Moves.Move.andThen_error sent]
      exact opened
    · cases phase with
      | settled count reading =>
          have logged' : side.attempt.chunks = chunksOf (pieces.map api.mask) := by
            rw [logged, List.append_nil]
          have length : (pieces.map api.mask).length = side.running.sequence := by
            rw [List.length_map, count]
          rw [← length] at accepted
          have added := upload_fresh logged' accepted
          subst added
          by_cases delivered : look.log = .delivered
          · rw [if_pos delivered] at sent
            rw [Moves.Move.andThen_ok sent]
            refine ⟨⟨opened.noReceipt, opened.noOutcome, opened.fitting,
              pieces ++ [side.running.pending], [], by simp, .settled ?_ ?_⟩, rfl⟩
            · simp [count]
            · exact reading.alike rfl rfl rfl (by simp)
          · rw [if_neg delivered] at sent
            rw [Moves.Move.andThen_error sent]
            exact ⟨opened.noReceipt, opened.noOutcome, opened.fitting,
              pieces ++ [side.running.pending], [], by simp, .unacknowledged count something reading⟩
      | unacknowledged count some_ reading =>
          rename_i before
          have logged' : side.attempt.chunks =
              chunksOf (before.map api.mask ++ [api.mask side.running.pending]) := by
            rw [logged]
            simp
          have length : (before.map api.mask).length = side.running.sequence := by
            rw [List.length_map, count]
          rw [← length] at accepted
          have same := upload_again logged' accepted
          subst same
          by_cases delivered : look.log = .delivered
          · rw [if_pos delivered] at sent
            rw [Moves.Move.andThen_ok sent]
            refine ⟨⟨opened.noReceipt, opened.noOutcome, opened.fitting,
              before ++ [side.running.pending], [], logged, .settled ?_ ?_⟩, rfl⟩
            · simp [count]
            · exact reading.alike rfl rfl rfl (by simp)
          · rw [if_neg delivered] at sent
            rw [Moves.Move.andThen_error sent]
            exact opened
      | noticed count none_ => exact absurd none_ something

theorem sendPending_alike (look : Look) : Moves.Triple (Alike start) (sendPending api look)
    (fun _ => Alike start) (Alike start) := by
  intro side alike
  unfold sendPending
  split
  · exact alike
  · rcases sendLog_cases api look.log side.running.pending side with
      ⟨problem, sent, _⟩ | ⟨attempt, accepted, _, sent⟩
    · rw [Moves.Move.andThen_error sent]
      exact alike
    · obtain ⟨chunks, rfl⟩ := Api.upload_keeps accepted
      by_cases delivered : look.log = .delivered
      · rw [if_pos delivered] at sent
        rw [Moves.Move.andThen_ok sent]
        exact ⟨alike.forced, alike.trigger, alike.started, alike.readOffset, alike.live,
          alike.process⟩
      · rw [if_neg delivered] at sent
        rw [Moves.Move.andThen_error sent]
        exact ⟨alike.forced, alike.trigger, alike.started, alike.readOffset, alike.live,
          alike.process⟩

theorem readOutput_spec : Moves.Triple (fun side => Sent api output child side ∧ Alike start side)
    (readOutput output)
    (fun found side =>
      if found then Open api output child side ∧ start.running.trigger = side.running.trigger
      else (Sent api output child side ∧ side.running.readOffset = output.length) ∧
        Alike start side) (fun _ => False) := by
  rintro side ⟨⟨opened, nothing⟩, alike⟩
  obtain ⟨pieces, notices, logged, phase⟩ := opened.log
  simp only [readOutput]
  split
  · rename_i empty
    have inside := phase.inside
    refine ⟨⟨⟨opened, nothing⟩, ?_⟩, alike⟩
    rw [List.take_eq_nil_iff, List.drop_eq_nil_iff] at empty
    omega
  · rename_i data
    have unread : side.running.readOffset < output.length := by
      by_contra all
      rw [not_lt] at all
      simp [List.drop_eq_nil_of_le all] at data
    cases phase with
    | settled count reading =>
        rw [nothing, List.append_nil] at reading
        exact ⟨⟨opened.noReceipt, opened.noOutcome, opened.fitting, pieces, [], logged,
          .settled count (reading.next unread rfl)⟩, alike.trigger⟩
    | unacknowledged count some_ => exact absurd nothing some_
    | noticed count none_ decoded reading => exact absurd (reading.over decoded).1 unread.ne

theorem flushOutput_spec (ended : child.isSome = true) : Moves.Triple
    (fun side => (Sent api output child side ∧ side.running.readOffset = output.length) ∧
      Alike start side) flushOutput
    (fun left side => (if left then Open api output child side
      else Sent api output child side ∧ side.running.decoded = true) ∧ Alike start side)
    (fun _ => False) := by
  rintro side ⟨⟨⟨opened, nothing⟩, all⟩, alike⟩
  obtain ⟨pieces, notices, logged, phase⟩ := opened.log
  simp only [flushOutput]
  split
  · rename_i decoded
    exact ⟨⟨⟨opened, nothing⟩, decoded⟩, alike⟩
  · rename_i notYet
    have like : Alike start
        ⟨{ side.running with
            pending := Utf8Reading.flush side.running.decoder, decoder := none, decoded := true },
          side.attempt⟩ :=
      ⟨alike.forced, alike.trigger, alike.started, alike.readOffset, alike.live, alike.process⟩
    cases phase with
    | settled count reading =>
        have flushed : Open api output child
            ⟨{ side.running with
                pending := Utf8Reading.flush side.running.decoder, decoder := none,
                decoded := true }, side.attempt⟩ := by
          refine ⟨opened.noReceipt, opened.noOutcome, opened.fitting, pieces, [], logged,
            .settled count ?_⟩
          rw [nothing, List.append_nil] at reading
          rw [reading.rest (by simpa using notYet) all]
          exact .complete rfl all ended
        refine ⟨?_, like⟩
        split
        · exact flushed
        · rename_i empty
          exact ⟨⟨flushed, by simpa using empty⟩, rfl⟩
    | unacknowledged count some_ => exact absurd nothing some_
    | noticed count none_ decoded => exact absurd decoded notYet

/-- Where the message for a killed child is acknowledged, its ending reaches the API and is
accepted. -/
def Announced (api : Api Rest) (noRest : Rest) (outcome : ChildResult)
    (file : Option (ResultFile Rest)) (look : Look) (side : Side Rest) : Prop :=
  ∀ task ∈ reported file, killed outcome side.running.forced = true →
    look.notice = .delivered → look.ending ≠ .lostBefore ∧
      (api.commitEnd (reportStarted outcome look side).1.attempt
        (endingRequest noRest outcome task look side.running.forced)).isOk = true

def Kept (api : Api Rest) (noRest : Rest) (output : List Nat) (child : Child Rest)
    (side : Side Rest) : Prop :=
  Open api output child side ∨ Ended api noRest output child side.attempt

theorem start_alike {first second : Attempt Rest} (live : first.live = second.live)
    (process : first.process = second.process) (pid : Nat) (birth : Option String) :
    (∃ one two, first.start pid birth = .error one ∧ second.start pid birth = .error two) ∨
    ∃ process, first.start pid birth = .ok { first with process } ∧
      second.start pid birth = .ok { second with process } := by
  obtain ⟨isLive, recorded, _, _, _⟩ := first
  obtain ⟨_, _, _, _, _⟩ := second
  subst live process
  cases isLive with
  | false => exact .inl ⟨.stale, .stale, rfl, rfl⟩
  | true =>
      cases recorded with
      | none => exact .inr ⟨some (pid, birth), rfl, rfl⟩
      | some known =>
          by_cases same : known.1 = pid ∧ (birth = none ∨ known.2 = birth)
          · exact .inr ⟨some known, if_pos same, if_pos same⟩
          · exact .inl ⟨.stale, .stale, if_neg same, if_neg same⟩

theorem reportStarted_alike (outcome : ChildResult) (look : Look) (alike : Alike start side) :
    (reportStarted outcome look start).1.attempt.live =
      (reportStarted outcome look side).1.attempt.live ∧
    (reportStarted outcome look start).1.attempt.process =
      (reportStarted outcome look side).1.attempt.process := by
  unfold reportStarted
  rw [alike.trigger, alike.started]
  split
  · rename_i pid _ _
    rcases start_alike alike.live alike.process pid outcome.processStart with
      ⟨one, two, first, second⟩ | ⟨process, first, second⟩
    · cases reply : look.start <;>
        simp [Moves.Move.andThen, Move.call, first, second, alike.live, alike.process]
    · cases reply : look.start <;>
        simp [Moves.Move.andThen, Move.call, Move.change, first, second, alike.live,
          alike.process]
  · exact ⟨alike.live, alike.process⟩

theorem commitEnd_alike {first next : Attempt Rest} {request : AgentTask Rest}
    (accepted : api.commitEnd first request = .ok next) (second : Attempt Rest)
    (live : first.live = second.live) (process : first.process = second.process)
    (receipt : first.receipt = second.receipt) :
    ∃ next, api.commitEnd second request = .ok next := by
  obtain ⟨status, ⟨repeated, _⟩ | ⟨fresh, isLive, identified, admitted, _⟩⟩ :=
    Api.commitEnd_ok.mp accepted
  · exact ⟨second, Api.commitEnd_ok.mpr ⟨status, .inl ⟨receipt ▸ repeated, rfl⟩⟩⟩
  · rw [Attempt.identifies, process, ← Attempt.identifies] at identified
    exact ⟨_, Api.commitEnd_ok.mpr ⟨status, .inr ⟨receipt ▸ fresh, live ▸ isLive, identified,
      admitted, rfl⟩⟩⟩

theorem Open.started (opened : Open api output child side) (flag : Bool)
    (process : Option (Nat × Option String)) :
    Open api output child
      ⟨{ side.running with startedReported := flag }, { side.attempt with process }⟩ := by
  obtain ⟨pieces, notices, logged, phase⟩ := opened.log
  exact ⟨opened.noReceipt, opened.noOutcome, opened.fitting, pieces, notices, logged,
    phase.alike rfl rfl rfl rfl rfl rfl⟩

theorem ended_of_commit {attempt next : Attempt Rest} {outcome : ChildResult}
    {file : Option (ResultFile Rest)} {task : Option (AgentTask Rest)}
    {forced : Option (AttemptStatus × Text)} {pieces notices : List Text}
    (noReceipt : attempt.receipt = none) (noOutcome : attempt.outcomes = [])
    (logged : attempt.chunks = chunksOf ((pieces ++ notices).map api.mask))
    (whole : pieces.flatten = Utf8Reading.text output) (ended : child = some (outcome, file))
    (notice : if killed outcome forced then ∃ message, notices = [message ++ ['\n']]
      else notices = [])
    (accepted : api.commitEnd attempt (endingRequest noRest outcome task look forced) =
      .ok next) : Ended api noRest output child next := by
  rcases (Api.commitEnd_ok.mp accepted).2 with ⟨never, _⟩ | ⟨_, _, _, _, rfl⟩
  · rw [noReceipt] at never
    cases never
  · exact .intro rfl rfl pieces notices logged whole outcome file ended task look forced
      (by rw [noOutcome]; rfl) notice

def Flushed (api : Api Rest) (output : List Nat) (child : Child Rest) (side : Side Rest) : Prop :=
  Sent api output child side ∧ side.running.decoded = true

def Admitted (api : Api Rest) (noRest : Rest) (outcome : ChildResult)
    (task : Option (AgentTask Rest)) (look : Look) (side : Side Rest) : Prop :=
  killed outcome side.running.forced = true → look.notice = .delivered →
    look.ending ≠ .lostBefore ∧ ∃ next, api.commitEnd side.attempt
      (endingRequest noRest outcome task look side.running.forced) = .ok next

theorem accepted_of_isOk {reply : Except Refusal (Attempt Rest)} (accepted : reply.isOk = true) :
    ∃ next, reply = .ok next := by
  cases reply with
  | ok next => exact ⟨next, rfl⟩
  | error refusal => cases accepted

theorem reportStarted_spec {outcome : ChildResult} {file : Option (ResultFile Rest)}
    {task : Option (AgentTask Rest)} (reports : reported file = some task)
    (noReceipt : start.attempt.receipt = none)
    (announced : Announced api noRest outcome file look start) : Moves.Triple
      (fun side => Flushed api output child side ∧ Alike start side)
      (reportStarted outcome look)
      (fun _ side => Flushed api output child side ∧
        Admitted api noRest outcome task look side)
      (Open api output child) := by
  rintro side ⟨⟨⟨opened, nothing⟩, decoded⟩, alike⟩
  obtain ⟨live, process⟩ := reportStarted_alike outcome look alike
  obtain ⟨recorded, flag, left, _⟩ := reportStarted_cases outcome look side
  obtain ⟨kept, _, before, _⟩ := reportStarted_cases outcome look start
  have moved := opened.started flag recorded
  match ran : reportStarted outcome look side with
  | (middle, .ok ()) =>
      rw [ran] at left live process
      subst left
      refine ⟨⟨⟨moved, nothing⟩, decoded⟩, fun wasKilled delivered => ?_⟩
      rw [← alike.forced] at wasKilled ⊢
      obtain ⟨notBefore, accepted⟩ := announced task reports wasKilled delivered
      obtain ⟨next, accepted⟩ := accepted_of_isOk accepted
      refine ⟨notBefore, commitEnd_alike accepted _ live process ?_⟩
      rw [before]
      exact noReceipt.trans opened.noReceipt.symm
  | (middle, .error problem) =>
      rw [ran] at left
      subst left
      exact moved

/-- The message for a killed child is in the log, acknowledged, and its ending is committed next. -/
structure Told (api : Api Rest) (noRest : Rest) (output : List Nat) (outcome : ChildResult)
    (task : Option (AgentTask Rest)) (look : Look) (side : Side Rest) : Prop where
  noReceipt : side.attempt.receipt = none
  noOutcome : side.attempt.outcomes = []
  wasKilled : killed outcome side.running.forced = true
  log : ∃ pieces message, pieces.flatten = Utf8Reading.text output ∧
    side.attempt.chunks = chunksOf ((pieces ++ [message ++ ['\n']]).map api.mask)
  notBefore : look.ending ≠ .lostBefore
  accepted : ∃ next, api.commitEnd side.attempt
    (endingRequest noRest outcome task look side.running.forced) = .ok next

theorem Flushed.whole (flushed : Flushed api output child side)
    {pieces notices : List Text} (phase : Phase output child side.running pieces notices) :
    pieces.flatten = Utf8Reading.text output ∧ pieces.length = side.running.sequence := by
  obtain ⟨⟨_, nothing⟩, decoded⟩ := flushed
  cases phase with
  | settled count reading =>
      have text := (reading.over decoded).2
      rw [nothing, List.append_nil] at text
      exact ⟨text, count⟩
  | unacknowledged count some_ => exact absurd nothing some_
  | noticed count none_ _ reading => exact ⟨(reading.over decoded).2, count⟩

theorem Phase.complete {pieces notices : List Text}
    (phase : Phase output child side.running pieces notices)
    (flushed : Flushed api output child side) :
    Reading output child side.running (Utf8Reading.text output) := by
  have ⟨whole, _⟩ := flushed.whole phase
  cases phase with
  | settled count reading => exact reading.alike rfl rfl rfl (reading.over flushed.2).2.symm
  | unacknowledged count some_ => exact absurd flushed.1.2 some_
  | noticed count none_ _ reading => exact reading.alike rfl rfl rfl whole.symm

theorem Phase.told {pieces notices : List Text} {message : Text} {next : Attempt Rest}
    (phase : Phase output child side.running pieces notices)
    (flushed : Flushed api output child side)
    (logged : side.attempt.chunks = chunksOf ((pieces ++ notices).map api.mask))
    (count : pieces.length = side.running.sequence)
    (accepted : api.upload side.attempt side.running.sequence (message ++ ['\n']) = .ok next) :
    ∃ message, next = { side.attempt with
      chunks := chunksOf ((pieces ++ [message ++ ['\n']]).map api.mask) } := by
  have length : (pieces.map api.mask).length = side.running.sequence := by
    rw [List.length_map, count]
  rw [← length] at accepted
  cases phase with
  | settled =>
      rw [List.append_nil] at logged
      refine ⟨message, ?_⟩
      rw [upload_fresh logged accepted, List.map_append]
      rfl
  | unacknowledged _ some_ => exact absurd flushed.1.2 some_
  | noticed =>
      rename_i earlier _ _ _ _ _ _ _ _
      rw [List.map_append] at logged
      have same := upload_again logged accepted
      subst same
      refine ⟨earlier, ?_⟩
      rw [List.map_append, ← logged]

theorem reportKilled_spec {outcome : ChildResult} {file : Option (ResultFile Rest)}
    {task : Option (AgentTask Rest)} (ended : child = some (outcome, file)) : Moves.Triple
      (fun side => Flushed api output child side ∧
        Admitted api noRest outcome task look side)
      (reportKilled api outcome look)
      (fun _ side => Flushed api output child side ∧ killed outcome side.running.forced = false ∨
        Told api noRest output outcome task look side)
      (Open api output child) := by
  rintro side ⟨flushed, admitted⟩
  unfold reportKilled
  cases wasKilled : killed outcome side.running.forced with
  | false => exact .inl ⟨flushed, wasKilled⟩
  | true =>
      rw [if_pos rfl]
      have opened := flushed.1.1
      rcases sendLog_cases api look.notice (look.message ++ ['\n']) side with
        ⟨problem, sent, _⟩ | ⟨attempt, accepted, _, sent⟩
      · rw [sent]
        exact opened
      · obtain ⟨pieces, notices, logged, phase⟩ := opened.log
        have ⟨whole, count⟩ := flushed.whole phase
        obtain ⟨message, rfl⟩ := phase.told flushed logged count accepted
        rw [sent]
        by_cases delivered : look.notice = .delivered
        · rw [if_pos delivered]
          obtain ⟨notBefore, next, commits⟩ := admitted wasKilled delivered
          exact .inr ⟨opened.noReceipt, opened.noOutcome, wasKilled, ⟨pieces, message, whole, rfl⟩,
            notBefore, commitEnd_alike commits _ rfl rfl rfl⟩
        · rw [if_neg delivered]
          exact ⟨opened.noReceipt, opened.noOutcome, opened.fitting, pieces, _, rfl,
            .noticed count flushed.1.2 flushed.2 (whole ▸ phase.complete flushed) ended wasKilled⟩

theorem killed_goes {outcome : ChildResult} {task : Option (AgentTask Rest)}
    {forced : Option (AttemptStatus × Text)} (wasKilled : killed outcome forced = true) :
    cancelPending outcome look (ending noRest outcome task forced look.message) = false := by
  have failed : (ending noRest outcome task forced look.message).status = some .failed := by
    have inTime : outcome.timedOut = false ∧ forced = none := by
      simp only [killed, Bool.and_eq_true, Bool.not_eq_true', Option.isNone_iff_eq_none] at wasKilled
      exact ⟨wasKilled.1.2, wasKilled.2⟩
    obtain ⟨inTime, rfl⟩ := inTime
    simp [ending, wasKilled, inTime]
  simp [cancelPending, failed]

theorem reportEnding_commits {outcome : ChildResult} {task : Option (AgentTask Rest)}
    {next : Attempt Rest}
    (goes : cancelPending outcome look
      (ending noRest outcome task side.running.forced look.message) = false)
    (commits : api.commitEnd side.attempt
      (endingRequest noRest outcome task look side.running.forced) = .ok next)
    (notBefore : look.ending ≠ .lostBefore) :
    reportEnding api noRest outcome task look side = ({ side with attempt := next },
      if look.ending = .delivered then .ok true else .error .server) := by
  unfold reportEnding
  rw [if_neg (by simp [goes])]
  cases reply : look.ending with
  | lostBefore => exact absurd reply notBefore
  | lostAfter => simp [Moves.Move.andThen, Move.call, commits]
  | delivered => simp [Moves.Move.andThen, Move.call, Moves.Move.done, commits]

theorem reportEnding_spec {outcome : ChildResult} {file : Option (ResultFile Rest)}
    {task : Option (AgentTask Rest)} (ended : child = some (outcome, file)) : Moves.Triple
      (fun side => Flushed api output child side ∧ killed outcome side.running.forced = false ∨
        Told api noRest output outcome task look side)
      (reportEnding api noRest outcome task look) (fun _ => Kept api noRest output child)
      (Kept api noRest output child) := by
  rintro side (⟨flushed, alive⟩ | told)
  · have opened := flushed.1.1
    obtain ⟨pieces, notices, logged, phase⟩ := opened.log
    have ⟨whole, _⟩ := flushed.whole phase
    have unannounced : notices = [] := by
      cases phase with
      | settled => rfl
      | unacknowledged => rfl
      | noticed _ _ _ _ isEnded wasKilled =>
          rw [ended] at isEnded
          cases isEnded
          rw [alive] at wasKilled
          cases wasKilled
    rcases reportEnding_cases api noRest outcome task look side with
      ⟨_, kept, _⟩ | ⟨_, ⟨problem, failed, _⟩ | ⟨attempt, accepted, _, reply⟩⟩
    · match ran : reportEnding api noRest outcome task look side with
      | (left, .ok value) =>
          rw [ran] at kept
          subst kept
          exact .inl opened
      | (left, .error problem) =>
          rw [ran] at kept
          subst kept
          exact .inl opened
    · rw [failed]
      exact .inl opened
    · have finished : Ended api noRest output child attempt :=
        ended_of_commit opened.noReceipt opened.noOutcome logged whole ended
          (by rw [alive]; exact unannounced) accepted
      rw [reply]
      by_cases delivered : look.ending = .delivered
      · rw [if_pos delivered]
        exact .inr finished
      · rw [if_neg delivered]
        exact .inr finished
  · obtain ⟨pieces, message, whole, logged⟩ := told.log
    obtain ⟨next, commits⟩ := told.accepted
    have finished : Ended api noRest output child next :=
      ended_of_commit told.noReceipt told.noOutcome logged whole ended
        (by rw [told.wasKilled]; exact ⟨message, rfl⟩) commits
    rw [reportEnding_commits (killed_goes told.wasKilled) commits told.notBefore]
    by_cases delivered : look.ending = .delivered
    · rw [if_pos delivered]
      exact .inr finished
    · rw [if_neg delivered]
      exact .inr finished

theorem finish_spec {outcome : ChildResult} {file : Option (ResultFile Rest)}
    (ended : child = some (outcome, file)) (noReceipt : start.attempt.receipt = none)
    (announced : Announced api noRest outcome file look start) : Moves.Triple
      (fun side => Flushed api output child side ∧ Alike start side)
      (finish api noRest outcome file look) (fun _ => Kept api noRest output child)
      (Kept api noRest output child) := by
  cases reports : reported file with
  | none =>
      intro side holds
      rw [finish_trigger reports]
      exact .inl holds.1.1.1
  | some task =>
      rw [finish_reports reports]
      have kept : ∀ side, Open api output child side → Kept api noRest output child side :=
        fun side => .inl
      refine .andThen ((reportStarted_spec reports noReceipt announced).conseq (fun _ => id)
        (fun _ _ => id) kept) fun _ => .andThen ((reportKilled_spec ended).conseq (fun _ => id)
        (fun _ _ => id) kept) fun _ => reportEnding_spec ended

/-! ## `_advance` -/

theorem complete_spec {outcome : ChildResult} {file : Option (ResultFile Rest)}
    (ended : child = some (outcome, file)) (noReceipt : start.attempt.receipt = none)
    (announced : Announced api noRest outcome file look start) : Moves.Triple
      (fun side => (Sent api output child side ∧ side.running.readOffset = output.length) ∧
        Alike start side)
      (flushOutput.andThen fun left =>
        if left then .done false else finish api noRest outcome file look)
      (fun _ => Kept api noRest output child) (Kept api noRest output child) := by
  refine .andThen ((flushOutput_spec (by rw [ended]; rfl)).conseq (fun _ => id) (fun _ _ => id)
    nofun) fun left => ?_
  cases left with
  | true => exact fun side holds => .inl holds.1
  | false => exact finish_spec ended noReceipt announced

theorem advanceLog_spec (grown : Grows output child longer later)
    (fitting : later.all (fits start.running.trigger ·.2) = true)
    (quiet : later.isSome = true → start.running.readOffset < output.length ∨ longer = output)
    (announced : ∀ outcome file, later = some (outcome, file) →
      Announced api noRest outcome file look start)
    (noReceipt : start.attempt.receipt = none) : Moves.Triple
      (fun side => Open api output child side ∧ Alike start side)
      (advanceLog api noRest output later look) (fun _ => Kept api noRest longer later)
      (Kept api noRest longer later) := by
  have keeps : ∀ side : Side Rest, Open api output child side →
      start.running.trigger = side.running.trigger → Kept api noRest longer later side :=
    fun side opened same => .inl (opened.grows grown (same ▸ fitting))
  unfold advanceLog
  refine .andThen (((sendPending_spec look).and (sendPending_alike look)).conseq
    (fun _ => id) (fun _ _ => id) fun side left => keeps side left.1 left.2.trigger) fun _ => ?_
  refine .andThen (readOutput_spec.conseq (fun _ => id) (fun _ _ => id) nofun) fun found => ?_
  cases found with
  | true => exact fun side holds => keeps side holds.1 holds.2
  | false =>
      cases later with
      | none => exact fun side holds => keeps side holds.1.1.1 holds.2.trigger
      | some left =>
          obtain ⟨outcome, file⟩ := left
          rintro side ⟨⟨⟨opened, nothing⟩, all⟩, alike⟩
          have same : longer = output := by
            rcases quiet rfl with unread | same
            · rw [alike.readOffset, all] at unread
              exact absurd unread (lt_irrefl _)
            · exact same
          have grownOpened := opened.grows grown (alike.trigger ▸ fitting)
          subst same
          exact complete_spec rfl noReceipt (announced outcome file rfl) side
            ⟨⟨⟨grownOpened, nothing⟩, all⟩, alike⟩

theorem Alike.refl (side : Side Rest) : Alike side side :=
  ⟨rfl, rfl, rfl, rfl, rfl, rfl⟩

theorem advance_spec (opened : Open api output child side)
    (grown : Grows output child longer later)
    (fitting : later.all (fits side.running.trigger ·.2) = true)
    (quiet : later.isSome = true → side.running.readOffset < output.length ∨ longer = output)
    (announced : ∀ outcome file, later = some (outcome, file) →
      Announced api noRest outcome file look side) :
    Kept api noRest longer later (advance api noRest output child later look side).1 := by
  have keeps : Kept api noRest longer later side := .inl (opened.grows grown fitting)
  have uploads : Kept api noRest longer later (advanceLog api noRest output later look side).1 :=
    (advanceLog_spec grown fitting quiet announced opened.noReceipt).left
      ⟨opened, Alike.refl side⟩
  unfold advance
  split
  · exact keeps
  · split
    · rename_i trigger
      split
      · exact keeps
      · rename_i _ outcome result
        have triggered : result = .trigger := by
          have fit := opened.fitting
          rw [trigger] at fit
          cases result with
          | trigger => rfl
          | report => cases fit
        rw [triggered, finish_trigger rfl]
        exact keeps
      · exact uploads
    · exact uploads

def Frozen (attempt : Attempt Rest) (side : Side Rest) : Prop :=
  side.attempt = attempt

section Frozen

variable {attempt : Attempt Rest}

theorem call_frozen {answer : Attempt Rest → Except Refusal (Attempt Rest)} (delivery : Delivery)
    (stays : ∀ next, answer attempt = .ok next → next = attempt) :
    Moves.Keeps (Frozen attempt) (Move.call delivery answer) := by
  rintro side rfl
  rcases Move.call_cases delivery answer side with
    ⟨problem, called, _⟩ | ⟨next, accepted, _, called⟩
  · rw [called]
    rfl
  · rw [called, stays next accepted]
    by_cases delivered : delivery = .delivered
    · rw [if_pos delivered]
      rfl
    · rw [if_neg delivered]
      rfl

theorem change_frozen (edit : RunningTask → RunningTask) :
    Moves.Keeps (Frozen attempt) (Move.change edit : Move Rest Unit) :=
  fun _ frozen => frozen

theorem sendLog_frozen (closed : attempt.live = false) (delivery : Delivery) (content : Text) :
    Moves.Keeps (Frozen attempt) (sendLog api delivery content) := by
  intro side frozen
  unfold sendLog
  split
  · exact frozen
  · refine Moves.Keeps.andThen (call_frozen delivery fun next accepted => ?_)
      (fun _ => change_frozen _) side frozen
    have live := (Api.upload_ok accepted).1
    rw [closed] at live
    cases live

theorem finish_frozen (closed : attempt.live = false) (receipt : attempt.receipt.isSome = true)
    (outcome : ChildResult) (file : Option (ResultFile Rest)) :
    Moves.Keeps (Frozen attempt) (finish api noRest outcome file look) := by
  cases reports : reported file with
  | none =>
      intro side frozen
      rw [finish_trigger reports]
      exact frozen
  | some task =>
      rw [finish_reports reports]
      refine .andThen ?_ fun _ => .andThen ?_ fun _ => ?_
      · intro side frozen
        unfold reportStarted
        split
        · refine Moves.Keeps.andThen (call_frozen look.start fun next accepted => ?_)
            (fun _ => change_frozen _) side frozen
          have live := (Attempt.start_ok accepted).1
          rw [closed] at live
          cases live
        · exact frozen
      · intro side frozen
        unfold reportKilled
        split
        · exact sendLog_frozen closed look.notice _ side frozen
        · exact frozen
      · intro side frozen
        unfold reportEnding
        split
        · refine Moves.Keeps.andThen (call_frozen look.cancel fun next accepted => ?_)
            (fun _ => .done false) side frozen
          split at accepted
          · exact (Except.ok.inj accepted).symm
          · cases accepted
        · refine Moves.Keeps.andThen (call_frozen look.ending fun next accepted => ?_)
            (fun _ => .done true) side frozen
          rcases (Api.commitEnd_ok.mp accepted).2 with ⟨_, same⟩ | ⟨none_, _⟩
          · exact same
          · rw [none_] at receipt
            cases receipt

theorem advanceLog_frozen (closed : attempt.live = false)
    (receipt : attempt.receipt.isSome = true) (output : List Nat) (later : Child Rest) :
    Moves.Keeps (Frozen attempt) (advanceLog api noRest output later look) := by
  unfold advanceLog
  refine .andThen ?_ fun _ => .andThen ?_ fun found => ?_
  · intro side frozen
    unfold sendPending
    split
    · exact frozen
    · exact Moves.Keeps.andThen (sendLog_frozen closed look.log _) (fun _ => change_frozen _)
        side frozen
  · intro side frozen
    simp only [readOutput]
    split
    · exact frozen
    · exact frozen
  · cases found with
    | true => exact .done false
    | false =>
        cases later with
        | none => exact .done false
        | some left =>
            refine .andThen ?_ fun left => ?_
            · intro side frozen
              simp only [flushOutput]
              split
              · exact frozen
              · exact frozen
            · cases left with
              | true => exact .done false
              | false => exact finish_frozen closed receipt _ _

theorem advance_frozen (closed : side.attempt.live = false)
    (receipt : side.attempt.receipt.isSome = true) :
    (advance api noRest output child later look side).1.attempt = side.attempt := by
  have uploads : (advanceLog api noRest output later look side).1.attempt = side.attempt :=
    (advanceLog_frozen closed receipt output later).left rfl
  unfold advance
  split
  · rfl
  · split
    · split
      · rfl
      · exact (finish_frozen closed receipt _ _).left rfl
      · exact uploads
    · exact uploads

end Frozen

theorem advance_forgets (grown : Grows output child longer later)
    (forgotten : (advance api noRest output child later look side).2 = .ok true) :
    later.isSome = true := by
  cases later with
  | some => rfl
  | none =>
      have alive : child = none := by
        cases child with
        | none => rfl
        | some left =>
            obtain ⟨_, _, still⟩ := grown
            cases (still rfl).2
      subst alive
      have goesOn : Moves.Triple (fun _ => True) (advanceLog api noRest output none look)
          (fun forgotten _ => forgotten = false) (fun _ => True) := by
        unfold advanceLog
        refine .last fun _ => .last fun found => ?_
        cases found with
        | true => exact fun _ _ => rfl
        | false => exact fun _ _ => rfl
      have ended := goesOn side trivial
      unfold advance at forgotten
      split at forgotten
      · cases forgotten
      · split at forgotten
        · cases forgotten
        · match ran : advanceLog api noRest output none look side with
          | (left, .ok value) =>
              rw [ran] at ended forgotten
              cases forgotten
              cases ended
          | (left, .error problem) =>
              rw [ran] at forgotten
              cases forgotten

end Parts

/-! ## Runs -/

inductive Uploading (api : Api Rest) (noRest : Rest) (task : Task Rest) : Prop
  | opened (running : RunningTask)
      (holds : task.held = some running ∨ task.held = none ∧ task.child.isSome = true)
      (log : Open api task.output task.child ⟨running, task.attempt⟩)
  | ended (log : Ended api noRest task.output task.child task.attempt)

/-- No output follows an empty reading before the child is seen to have ended; the ending of a
killed child is announced, and its status not forced any more. -/
def Orderly (api : Api Rest) (noRest : Rest) (task : Task Rest) : AgentEvent Rest → Prop
  | .advance look written exit => ∀ running ∈ task.held,
      (exit.isSome = true → running.readOffset < task.output.length ∨ written = []) ∧
      ∀ left ∈ task.child.or exit,
        Announced api noRest left.1 left.2 look ⟨running, task.attempt⟩
  | .force _ _ => ∀ left ∈ task.child, killed left.1 none = false
  | _ => True

instance (api : Api Rest) (noRest : Rest) (outcome : ChildResult)
    (file : Option (ResultFile Rest)) (look : Look) (side : Side Rest) :
    Decidable (Announced api noRest outcome file look side) :=
  inferInstanceAs (Decidable (∀ task ∈ reported file, _ → _))

instance (api : Api Rest) (noRest : Rest) (task : Task Rest) :
    DecidablePred (Orderly api noRest task)
  | .write _ | .exits _ _ | .started _ _ _ | .fence | .lapse => isTrue trivial
  | .force _ _ => inferInstanceAs (Decidable (∀ left ∈ task.child, _))
  | .advance look _ exit => inferInstanceAs (Decidable (∀ running ∈ task.held, _ ∧
      ∀ left ∈ task.child.or exit, Announced api noRest left.1 left.2 look ⟨running, task.attempt⟩))

section Runs

variable {api : Api Rest} {noRest : Rest} {task later : Task Rest} {look : Look}

theorem Task.childDoes_grows {written : List Nat} {exit : Child Rest}
    (does : task.childDoes written exit = some later) :
    later.held = task.held ∧ later.attempt = task.attempt ∧ later.child = task.child.or exit ∧
      later.output = task.output ++ written ∧
      Grows task.output task.child later.output later.child ∧
      (later.child = task.child ∨ ∀ running, task.held = some running →
        later.child.all (fits running.trigger ·.2) = true) := by
  unfold childDoes at does
  split at does
  · rename_i left ended
    split at does
    · rename_i nothing
      cases does
      subst nothing
      exact ⟨rfl, rfl, by rw [ended]; rfl, by rw [List.append_nil],
        ⟨[], by rw [List.append_nil], fun _ => ⟨rfl, rfl⟩⟩, .inl rfl⟩
    · cases does
  · cases does
  · rename_i alive
    cases does
    refine ⟨rfl, rfl, by rw [alive]; rfl, rfl, ⟨written, rfl, fun ended => ?_⟩, .inl rfl⟩
    rw [alive] at ended
    cases ended
  · rename_i outcome file alive
    split at does
    · rename_i fitting
      cases does
      refine ⟨rfl, rfl, by rw [alive]; rfl, rfl, ⟨written, rfl, fun ended => ?_⟩, .inr ?_⟩
      · rw [alive] at ended
        cases ended
      · intro running held
        rw [held] at fitting
        exact fitting
    · cases does

theorem Ended.grows {attempt : Attempt Rest} {output longer : List Nat} {child later : Child Rest}
    (ended : Ended api noRest output child attempt) (grown : Grows output child longer later) :
    Ended api noRest longer later attempt := by
  obtain ⟨closed, receipt, pieces, notices, logged, whole, outcome, file, left, task, look, forced,
    outcomes, notice⟩ := ended
  obtain ⟨written, rfl, still⟩ := grown
  obtain ⟨rfl, rfl⟩ := still (by rw [left]; rfl)
  rw [List.append_nil]
  exact .intro closed receipt pieces notices logged whole outcome file left task look forced
    outcomes notice

theorem Uploading.grows {written : List Nat} {exit : Child Rest}
    (uploading : Uploading api noRest task) (does : task.childDoes written exit = some later) :
    Uploading api noRest later := by
  obtain ⟨held, attempt, child, _, grown, fitting⟩ := Task.childDoes_grows does
  cases uploading with
  | opened running holds log =>
      refine .opened running ?_ ?_
      · rw [held, child]
        refine holds.imp id fun gone => ⟨gone.1, ?_⟩
        rw [Option.isSome_or, gone.2, Bool.true_or]
      · rw [attempt]
        refine log.grows grown ?_
        rcases fitting with same | fits
        · rw [same]
          exact log.fitting
        · rcases holds with held | ⟨_, ended⟩
          · exact fits running held
          · obtain ⟨_, _, still⟩ := grown
            rw [(still ended).2]
            exact log.fitting
  | ended log =>
      rw [← attempt] at log
      exact .ended (log.grows grown)

theorem Uploading.advanced {written : List Nat} {exit : Child Rest}
    (uploading : Uploading api noRest task)
    (orderly : Orderly api noRest task (.advance look written exit))
    (does : task.childDoes written exit = some later) :
    Uploading api noRest (task.advanced api noRest later look) := by
  have grownTask := uploading.grows does
  obtain ⟨held, attempt, child, output, grown, fitting⟩ := Task.childDoes_grows does
  unfold Task.advanced
  split
  · exact grownTask
  · rename_i running holds
    have ⟨quiet, announced⟩ := orderly running holds
    have kept : Kept api noRest later.output later.child
        (advance api noRest task.output task.child later.child look
          ⟨running, task.attempt⟩).1 := by
      cases uploading with
      | opened other same log =>
          have isRunning : other = running := by
            rcases same with same | ⟨gone, _⟩
            · rw [holds] at same
              exact (Option.some.inj same).symm
            · rw [holds] at gone
              cases gone
          subst isRunning
          refine advance_spec log grown ?_ ?_ fun outcome file ended => ?_
          · rcases fitting with same | fits
            · rw [same]
              exact log.fitting
            · exact fits other holds
          · intro ended
            by_cases already : task.child.isSome = true
            · obtain ⟨_, longer, still⟩ := grown
              rw [longer, (still already).1, List.append_nil]
              exact .inr rfl
            · rw [child, Option.isSome_or, Bool.or_eq_true] at ended
              refine (quiet (ended.resolve_left already)).imp id fun nothing => ?_
              rw [output, nothing, List.append_nil]
          · rw [child] at ended
            exact announced (outcome, file) ended
      | ended log =>
          refine .inr ?_
          obtain ⟨closed, receipt, _⟩ := id log
          rw [advance_frozen closed receipt]
          exact log.grows grown
    match ran : advance api noRest task.output task.child later.child look
        ⟨running, task.attempt⟩ with
    | (side, .ok forgotten) =>
        rw [ran] at kept
        rcases kept with log | log
        · refine .opened side.running ?_ log
          cases forgotten with
          | false => exact .inl rfl
          | true => exact .inr ⟨rfl, advance_forgets grown (congrArg Prod.snd ran)⟩
        · exact .ended log
    | (side, .error problem) =>
        rw [ran] at kept
        rcases kept with log | log
        · exact .opened side.running (.inl rfl) log
        · exact .ended log

/-- What changes a running task besides its log: its status may be forced, while no message for a
killed child waits to be acknowledged. -/
theorem Open.forced {output : List Nat} {child : Child Rest} {side : Side Rest}
    (opened : Open api output child side)
    (alive : ∀ outcome file, child = some (outcome, file) → killed outcome none = false)
    (forced : Option (AttemptStatus × Text)) :
    Open api output child ⟨{ side.running with forced }, side.attempt⟩ := by
  obtain ⟨pieces, notices, logged, phase⟩ := opened.log
  refine ⟨opened.noReceipt, opened.noOutcome, opened.fitting, pieces, notices, logged, ?_⟩
  cases phase with
  | settled count reading => exact .settled count (reading.alike rfl rfl rfl rfl)
  | unacknowledged count some_ reading =>
      exact .unacknowledged count some_ (reading.alike rfl rfl rfl rfl)
  | noticed count none_ decoded reading ended wasKilled =>
      have unforced := alive _ _ ended
      rw [killed, Bool.and_eq_true] at wasKilled
      rw [killed, wasKilled.1] at unforced
      cases unforced

theorem Uploading.started {running : RunningTask} {pid : Nat} {birth : Option String}
    {delivery : Delivery} (uploading : Uploading api noRest task)
    (holds : task.held = some running) (alive : task.child = none) :
    Uploading api noRest (task.started running pid birth delivery) := by
  cases uploading with
  | ended log =>
      obtain ⟨_, _, _, _, _, _, _, _, ended, _⟩ := log
      rw [alive] at ended
      cases ended
  | opened other same log =>
      have isRunning : other = running := by
        rcases same with same | ⟨gone, _⟩
        · rw [holds] at same
          exact (Option.some.inj same).symm
        · rw [holds] at gone
          cases gone
      subst isRunning
      have unended : ∀ outcome file, task.child = some (outcome, file) →
          killed outcome none = false := by
        intro outcome file ended
        rw [alive] at ended
        cases ended
      unfold Task.started
      rcases Move.call_cases delivery (fun attempt : Attempt Rest => attempt.start pid birth)
        ⟨other, task.attempt⟩ with ⟨problem, called, _⟩ | ⟨attempt, accepted, _, called⟩
      · rw [called]
        cases problem with
        | server =>
            exact .opened { other with forced := some (.failed, Task.startFailed) } (.inl rfl)
              (log.forced unended _)
        | refused => exact .opened other (.inl holds) log
      · obtain ⟨_, process, rfl⟩ := Attempt.start_ok accepted
        rw [called]
        by_cases delivered : delivery = .delivered
        · rw [if_pos delivered]
          exact .opened _ (.inl rfl) (log.started true process)
        · rw [if_neg delivered]
          exact .opened { other with forced := some (.failed, Task.startFailed) } (.inl rfl)
            ((log.started other.startedReported process).forced unended _)

theorem Uploading.step (event : AgentEvent Rest) (uploading : Uploading api noRest task)
    (orderly : Orderly api noRest task event) {next : Task Rest}
    (taken : task.step api noRest event = some next) : Uploading api noRest next := by
  cases event with
  | write bytes => exact uploading.grows taken
  | exits outcome file => exact uploading.grows taken
  | started pid birth delivery =>
      rw [Task.step] at taken
      split at taken
      · rename_i running holds alive
        split at taken
        · cases taken
        · cases taken
          exact uploading.started holds alive
      · cases taken
  | force status message =>
      cases taken
      cases uploading with
      | opened running holds log =>
          rcases holds with holds | ⟨gone, ended⟩
          · exact .opened _ (.inl (by rw [Task.change, holds]; rfl)) (log.forced (fun outcome file => orderly (outcome, file)) _)
          · exact .opened running (.inr ⟨by rw [Task.change, gone]; rfl, ended⟩) log
      | ended log => exact .ended log
  | fence =>
      cases taken
      cases uploading with
      | opened running holds log =>
          rcases holds with holds | ⟨gone, ended⟩
          · refine .opened { running with fenced := true }
              (.inl (by rw [Task.change, holds]; rfl)) ?_
            obtain ⟨pieces, notices, logged, phase⟩ := log.log
            exact ⟨log.noReceipt, log.noOutcome, log.fitting, pieces, notices, logged,
              phase.alike rfl rfl rfl rfl rfl rfl⟩
          · exact .opened running (.inr ⟨by rw [Task.change, gone]; rfl, ended⟩) log
      | ended log => exact .ended log
  | lapse =>
      cases taken
      cases uploading with
      | opened running holds log =>
          exact .opened running holds ⟨log.noReceipt, log.noOutcome, log.fitting, log.log⟩
      | ended log =>
          obtain ⟨_, receipt, pieces, notices, logged, whole, outcome, file, left, task, look,
            forced, outcomes, notice⟩ := log
          exact .ended (.intro rfl receipt pieces notices logged whole outcome file left task look
            forced outcomes notice)
  | advance look written exit =>
      obtain ⟨later, does, rfl⟩ := Option.map_eq_some_iff.mp taken
      exact uploading.advanced orderly does

/-- What a maintainer reads in the log: pieces of the output, each once and in order, and after the
whole output one message where the child was killed. -/
def Delivered (api : Api Rest) (noRest : Rest) (task : Task Rest) : Prop :=
  ∃ pieces notices : List Text,
    task.attempt.chunks = chunksOf ((pieces ++ notices).map api.mask) ∧
    pieces.flatten <+: Utf8Reading.text task.output ∧
    (notices = [] ∨ pieces.flatten = Utf8Reading.text task.output ∧
      ∃ message, notices = [message ++ ['\n']]) ∧
    (task.attempt.receipt.isSome = true →
      pieces.flatten = Utf8Reading.text task.output ∧
      ∃ outcome file request look forced, task.child = some (outcome, file) ∧
        task.attempt.outcomes = [endingRequest noRest outcome request look forced] ∧
        (notices ≠ [] ↔ killed outcome forced = true))

theorem Uploading.delivered (uploading : Uploading api noRest task) :
    Delivered api noRest task := by
  cases uploading with
  | opened running holds log =>
      obtain ⟨pieces, notices, logged, phase⟩ := log.log
      refine ⟨pieces, notices, logged, phase.isPrefix, ?_, fun receipt => ?_⟩
      · cases phase with
        | settled => exact .inl rfl
        | unacknowledged => exact .inl rfl
        | noticed count none_ decoded reading => exact .inr ⟨(reading.over decoded).2, _, rfl⟩
      · rw [log.noReceipt] at receipt
        cases receipt
  | ended log =>
      obtain ⟨_, _, pieces, notices, logged, whole, outcome, file, left, request, look, forced,
        outcomes, notice⟩ := log
      refine ⟨pieces, notices, logged, whole ▸ List.prefix_refl _, ?_, fun _ => ⟨whole, outcome,
        file, request, look, forced, left, outcomes, ?_⟩⟩
      · split at notice
        · exact .inr ⟨whole, notice⟩
        · exact .inl notice
      · split at notice
        · rename_i wasKilled
          obtain ⟨message, rfl⟩ := notice
          exact iff_of_true (List.cons_ne_nil _ _) wasKilled
        · rename_i alive
          exact iff_of_false (not_not.mpr notice) alive

/-- In every orderly run of the agent the log holds the output once and in order. -/
theorem output_uploaded_once (trigger : Bool) (events : List (AgentEvent Rest))
    {final : Task Rest}
    (orderly : Runs.Along (Task.step api noRest) (Orderly api noRest)
      { held := some { trigger } } events)
    (run : Runs.exec (Task.step api noRest) { held := some { trigger } } events = some final) :
    Delivered api noRest final := by
  have initially : Uploading api noRest { held := some { trigger } } :=
    .opened { trigger } (.inl rfl) ⟨rfl, rfl, rfl, [], [], rfl,
      .settled rfl (.going rfl le_rfl rfl)⟩
  exact (Runs.exec_invariant_along (Uploading api noRest)
    (fun task event next meets holds taken => holds.step event meets taken) initially orderly
    run).delivered

end Runs

-- output written after the empty reading of the look that sees the child ended is lost
example : (Runs.exec (Task.step plainApi ()) { held := some {} }
    [.write [0x68], .advance {} [] none, .advance {} [] none,
      .advance {} [0x69] (some ({ returncode := 0, pid := some 7, processStart := some "t" }, none))]).map
        (fun final => (final.attempt.receipt.isSome, final.attempt.chunks.map Chunk.content)) =
    some (true, [['h']]) := by decide +kernel

/-- A character is cut by a reading, and three replies are lost: of a piece, of the message, of the
ending. -/
def lossyRun : List (AgentEvent Unit) :=
  [.write [0x68, 0xc3], .advance {} [] none, .write [0xa9],
    .advance { log := .lostAfter } [] none, .advance {} [] none,
    .exits killedChild none, .advance { log := .lostBefore } [] none,
    .advance { notice := .lostAfter, message := ['k'] } [] none,
    .advance { ending := .lostAfter, message := ['k'] } [] none]

theorem lossy_run_delivered :
    ∃ final, Runs.exec (Task.step plainApi ()) { held := some {} } lossyRun = some final ∧
      final.attempt.receipt.isSome = true ∧ Delivered plainApi () final :=
  ⟨_, rfl, rfl, output_uploaded_once false lossyRun (by decide) rfl⟩

end Agents

end EtlCraft
