import Mathlib
import EtlCraft.FanOut
import EtlCraft.ItemRuns

/-! What every run of a fan-out does for each of its items, whatever the store answers and in
whatever order the workers end. -/

namespace EtlCraft

namespace FanOut

/-! The calls about one item. -/

def Call.key : Call → String
  | .start asked _ => asked.key
  | .finish event _ _ => event.key

def Call.begins : Call → Bool
  | .start _ answer => answer.status = .running
  | .finish _ _ _ => false

def Call.ends : Call → Bool
  | .start _ _ => false
  | .finish _ _ _ => true

def Call.failsForGood : Call → Bool
  | .start _ _ => false
  | .finish _ recorded permanent => recorded.status = .failed && permanent

def history (calls : List Call) (key : String) : List Call :=
  calls.filter fun call => call.key = key

def Call.progress (running : List String) : Call → List String
  | .start asked answer => if answer.status = .running then running ++ [asked.key] else running
  | .finish event _ _ => running.erase event.key

def inProgress (calls : List Call) : List String := calls.foldl Call.progress []

def Follows : Call → Call → Prop
  | .start _ answer, .finish event _ _ => answer.status = .running ∧ event = answer
  | .finish _ recorded permanent, .start asked _ =>
      recorded.status = .failed ∧ permanent = false ∧ asked.number = recorded.number + 1
  | _, _ => False

structure Served (retries : Nat) (first : Int) (calls : List Call) : Prop where
  submitted : ∃ asked answer, calls.head? = some (.start asked answer) ∧ asked.number = first + 1
  follows : calls.IsChain Follows
  bounded : calls.countP Call.begins ≤ retries + 1
  ended : calls.countP Call.ends = calls.countP Call.begins

structure Life (first : Int) (calls : List Call) : Prop where
  submitted : ∀ call ∈ calls.head?, ∃ asked answer,
    call = .start asked answer ∧ asked.number = first + 1
  follows : calls.IsChain Follows

structure Running (retries : Nat) (first : Int) (calls : List Call) (event : ItemRecord)
    (left : Nat) : Prop extends Life first calls where
  last : ∃ asked, calls.getLast? = some (.start asked event)
  running : event.status = .running
  starts : calls.countP Call.begins + left = retries + 1
  endings : calls.countP Call.ends + 1 = calls.countP Call.begins

structure Ready (retries : Nat) (first : Int) (calls : List Call) (number : Int) (left : Nat) :
    Prop extends Life first calls where
  next : calls = [] ∧ number = first + 1 ∨
    ∃ event recorded, calls.getLast? = some (.finish event recorded false) ∧
      recorded.status = .failed ∧ number = recorded.number + 1
  starts : calls.countP Call.begins + left = retries
  endings : calls.countP Call.ends = calls.countP Call.begins

section Histories

variable {retries left : Nat} {first number : Int} {calls : List Call} {asked answer event : ItemRecord}

theorem Ready.life (ready : Ready retries first calls asked.number left) (answer : ItemRecord) :
    Life first (calls ++ [.start asked answer]) := by
  rcases ready.next with ⟨rfl, same⟩ | ⟨event, recorded, last, failed, same⟩
  · refine ⟨?_, List.isChain_singleton _⟩
    intro call found
    cases found
    exact ⟨asked, answer, rfl, same⟩
  · have present : calls ≠ [] := by
      rintro rfl
      cases last
    refine ⟨?_, List.isChain_append.mpr ⟨ready.follows, List.isChain_singleton _, ?_⟩⟩
    · rw [List.head?_append_of_ne_nil _ present]
      exact ready.submitted
    · rw [last]
      rintro _ ⟨⟩ _ ⟨⟩
      exact ⟨failed, rfl, same⟩

theorem Ready.start (ready : Ready retries first calls asked.number left)
    (running : answer.status = .running) :
    Running retries first (calls ++ [.start asked answer]) answer left where
  toLife := ready.life answer
  last := ⟨asked, List.getLast?_concat⟩
  running := running
  starts := by
    have starts := ready.starts
    simp only [List.countP_append, List.countP_singleton, Call.begins, running, decide_true, if_true]
    omega
  endings := by
    have endings := ready.endings
    simp [List.countP_append, Call.begins, Call.ends, running, endings]

theorem Ready.refuse (ready : Ready retries first calls asked.number left)
    (refused : answer.status ≠ .running) :
    Served retries first (calls ++ [.start asked answer]) where
  submitted := by
    have life := ready.life answer
    cases calls with
    | nil =>
        obtain ⟨_, _, same, number⟩ := life.submitted _ rfl
        cases same
        exact ⟨asked, answer, rfl, number⟩
    | cons call rest =>
        obtain ⟨first, reply, same, number⟩ := life.submitted call rfl
        exact ⟨first, reply, by simp [same], number⟩
  follows := (ready.life answer).follows
  bounded := by
    have starts := ready.starts
    simp only [List.countP_append, List.countP_singleton, Call.begins, refused, decide_false]
    simp only [Bool.false_eq_true, if_false]
    omega
  ended := by
    simp [List.countP_append, Call.begins, Call.ends, refused, ready.endings]

theorem Running.life (open_ : Running retries first calls event left) (recorded : ItemRecord)
    (permanent : Bool) : Life first (calls ++ [.finish event recorded permanent]) := by
  obtain ⟨asked, last⟩ := open_.last
  have present : calls ≠ [] := by
    rintro rfl
    cases last
  refine ⟨?_, List.isChain_append.mpr ⟨open_.follows, List.isChain_singleton _, ?_⟩⟩
  · rw [List.head?_append_of_ne_nil _ present]
    exact open_.submitted
  · rw [last]
    rintro _ ⟨⟩ _ ⟨⟩
    exact ⟨open_.running, rfl⟩

theorem Running.served (open_ : Running retries first calls event left) (recorded : ItemRecord)
    (permanent : Bool) :
    Served retries first (calls ++ [.finish event recorded permanent]) where
  submitted := by
    obtain ⟨_, last⟩ := open_.last
    cases calls with
    | nil => cases last
    | cons call rest =>
        obtain ⟨first, reply, same, number⟩ := open_.submitted call rfl
        exact ⟨first, reply, by simp [same], number⟩
  follows := (open_.life recorded permanent).follows
  bounded := by
    have starts := open_.starts
    simp only [List.countP_append, List.countP_singleton, Call.begins, Bool.false_eq_true, if_false]
    omega
  ended := by
    have endings := open_.endings
    simp only [List.countP_append, List.countP_singleton, Call.begins, Call.ends,
      Bool.false_eq_true, if_false, if_true]
    omega

theorem Running.ready (open_ : Running retries first calls event left) {recorded : ItemRecord}
    (failed : recorded.status = .failed) (more : left ≠ 0) :
    Ready retries first (calls ++ [.finish event recorded false]) (recorded.number + 1)
      (left - 1) where
  toLife := open_.life recorded false
  next := Or.inr ⟨event, recorded, List.getLast?_concat, failed, rfl⟩
  starts := by
    have starts := open_.starts
    simp only [List.countP_append, List.countP_singleton, Call.begins, Bool.false_eq_true, if_false]
    omega
  endings := by
    have endings := open_.endings
    simp only [List.countP_append, List.countP_singleton, Call.begins, Call.ends,
      Bool.false_eq_true, if_false, if_true]
    omega

end Histories

theorem history_snoc (calls : List Call) {call : Call} {key : String} (about : call.key = key) :
    history (calls ++ [call]) key = history calls key ++ [call] := by
  simp [history, about]

theorem history_other (calls : List Call) {call : Call} {key other : String}
    (about : call.key = key) (apart : key ≠ other) :
    history (calls ++ [call]) other = history calls other := by
  simp [history, about, apart]

theorem inProgress_snoc (calls : List Call) (call : Call) :
    inProgress (calls ++ [call]) = call.progress (inProgress calls) := by
  simp [inProgress]

/-! The board, with the key that is taken from it and not yet put back. -/

namespace Board

variable {World : Type}

def keys (board : Board World) : List String := board.active.map (·.event.key)

end Board

structure Sound {World : Type} (work : Work) (keys : List String) (known : List ItemRecord)
    (hand : Option String) (board : Board World) : Prop where
  places : (hand.toList ++ (board.keys ++ board.waiting)).Nodup
  futures : (board.active.map (·.future)).Nodup
  fresh : ∀ entry ∈ board.active, entry.future < board.futures
  width : board.active.length + hand.toList.length ≤ work.width
  exhausted : board.exhausted = true → board.waiting = []
  untouched : ∀ key ∈ board.waiting, oldOf board.known key = oldOf known key ∧
    history board.calls key = [] ∧ key ∈ keys
  active : ∀ entry ∈ board.active, entry.event.key ∈ pending keys known ∧
    Running work.retries (oldOf known entry.event.key).number
      (history board.calls entry.event.key) entry.event entry.left
  resting : ∀ key, key ∉ hand.toList → key ∉ board.keys → key ∉ board.waiting →
    if key ∈ pending keys known then
      Served work.retries (oldOf known key).number (history board.calls key)
    else history board.calls key = []
  progress : (inProgress board.calls).Perm board.keys
  bounded : ∀ calls, calls <+: board.calls →
    (inProgress calls).Nodup ∧ (inProgress calls).length ≤ work.width
  count : board.completed + hand.toList.length + board.active.length +
    (pending board.waiting known).length = goal keys known
  verdict : board.permanent = board.calls.any Call.failsForGood

section Steps

variable {World : Type} {env : Environment World} {work : Work} {keys : List String}
  {known : List ItemRecord} {board : Board World} {key : String}

theorem bounded_snoc {calls : List Call} {call : Call} {width : Nat}
    (before : ∀ part, part <+: calls → (inProgress part).Nodup ∧ (inProgress part).length ≤ width)
    (after : (inProgress (calls ++ [call])).Nodup ∧ (inProgress (calls ++ [call])).length ≤ width) :
    ∀ part, part <+: calls ++ [call] →
      (inProgress part).Nodup ∧ (inProgress part).length ≤ width := by
  intro part isPart
  rcases List.prefix_concat_iff.mp isPart with rfl | earlier
  · exact after
  · exact before part earlier

theorem oldOf_put (known : List ItemRecord) {record : ItemRecord} (other : record.key ≠ key) :
    oldOf (Keyed.put ItemRecord.key known record) key = oldOf known key := by
  rw [oldOf, Keyed.lookup_put, if_neg (Ne.symm other), oldOf]

theorem history_started (calls : List Call) (asked answer : ItemRecord) :
    history (calls ++ [.start asked answer]) asked.key =
      history calls asked.key ++ [.start asked answer] :=
  history_snoc calls rfl

theorem history_finished (calls : List Call) (event recorded : ItemRecord) (permanent : Bool) :
    history (calls ++ [.finish event recorded permanent]) event.key =
      history calls event.key ++ [.finish event recorded permanent] :=
  history_snoc calls rfl

theorem history_start {calls : List Call} {asked answer : ItemRecord} {other : String}
    (about : asked.key = key) (apart : key ≠ other) :
    history (calls ++ [.start asked answer]) other = history calls other :=
  history_other calls about apart

theorem Sound.hand_waiting (sound : Sound work keys known (some key) board) {other : String}
    (waits : other ∈ board.waiting) : key ≠ other := by
  intro same
  exact (List.nodup_append.mp sound.places).2.2 key (by simp) other
    (List.mem_append_right _ waits) same

theorem Sound.hand_active (sound : Sound work keys known (some key) board) {entry : Active}
    (member : entry ∈ board.active) : key ≠ entry.event.key := by
  intro same
  exact (List.nodup_append.mp sound.places).2.2 key (by simp) entry.event.key
    (List.mem_append_left _ (List.mem_map_of_mem member)) same

theorem Sound.close (sound : Sound work keys known (some key) board)
    (member : key ∈ pending keys known)
    (served : Served work.retries (oldOf known key).number (history board.calls key)) :
    Sound work keys known none { board with completed := board.completed + 1 } where
  places := (List.nodup_append.mp sound.places).2.1
  futures := sound.futures
  fresh := sound.fresh
  width := by
    have width := sound.width
    simp only [Option.toList_some, List.length_singleton, Option.toList_none, List.length_nil] at *
    omega
  exhausted := sound.exhausted
  untouched := sound.untouched
  active := sound.active
  resting := by
    intro other _ notActive notWaiting
    by_cases same : other = key
    · subst same
      simpa only [member, if_true] using served
    · exact sound.resting other (by simpa using same) notActive notWaiting
  progress := sound.progress
  bounded := sound.bounded
  count := by
    have count := sound.count
    simp only [Option.toList_some, List.length_singleton, Option.toList_none, List.length_nil] at *
    omega
  verdict := sound.verdict

theorem Sound.refused (sound : Sound work keys known (some key) board) {asked answer : ItemRecord}
    (askedKey : asked.key = key) (answerKey : answer.key = key)
    (refused : answer.status ≠ .running) (world : World) :
    Sound work keys known (some key)
      { board with
          world
          calls := board.calls ++ [.start asked answer]
          known := Keyed.put ItemRecord.key board.known answer } where
  places := sound.places
  futures := sound.futures
  fresh := sound.fresh
  width := sound.width
  exhausted := sound.exhausted
  untouched := by
    intro other waits
    have apart := sound.hand_waiting waits
    rw [oldOf_put _ (answerKey.trans_ne apart), history_start askedKey apart]
    exact sound.untouched other waits
  active := by
    intro entry member
    rw [history_start askedKey (sound.hand_active member)]
    exact sound.active entry member
  resting := by
    intro other notHand notActive notWaiting
    have apart : key ≠ other := by
      rintro rfl
      simp at notHand
    rw [history_start askedKey apart]
    exact sound.resting other notHand notActive notWaiting
  progress := by
    simp only [inProgress_snoc, Call.progress, refused, if_false]
    exact sound.progress
  bounded := by
    apply bounded_snoc sound.bounded
    simpa only [inProgress_snoc, Call.progress, refused, if_false] using
      sound.bounded board.calls List.prefix_rfl
  count := sound.count
  verdict := by
    simp only [List.any_append, List.any_cons, Call.failsForGood, List.any_nil, Bool.or_false]
    exact sound.verdict

theorem Sound.begun (sound : Sound work keys known (some key) board) {asked answer : ItemRecord}
    (askedKey : asked.key = key) (answerKey : answer.key = key) (running : answer.status = .running)
    (member : key ∈ pending keys known) {left : Nat}
    (opened : Running work.retries (oldOf known key).number
      (history board.calls key ++ [.start asked answer]) answer left) (world : World) :
    Sound work keys known none
      { board with
          world
          calls := board.calls ++ [.start asked answer]
          active := board.active ++ [⟨board.futures, answer, left⟩]
          futures := board.futures + 1 } where
  places := by
    have places := sound.places
    simp only [Option.toList_some, Option.toList_none, List.nil_append, Board.keys, List.map_append,
      List.map_cons, List.map_nil, answerKey, List.append_assoc] at *
    exact (List.perm_middle.symm.nodup_iff).mp places
  futures := by
    rw [List.map_append, List.nodup_append]
    refine ⟨sound.futures, by simp, ?_⟩
    intro future inBoard other isNew
    obtain ⟨entry, inActive, rfl⟩ := List.mem_map.mp inBoard
    have older := sound.fresh entry inActive
    simp only [List.map_cons, List.map_nil, List.mem_singleton] at isNew
    omega
  fresh := by
    intro entry inBoard
    rcases List.mem_append.mp inBoard with old | new
    · exact Nat.lt_succ_of_lt (sound.fresh entry old)
    · rw [List.mem_singleton.mp new]
      exact Nat.lt_succ_self _
  width := by
    have width := sound.width
    simp only [Option.toList_some, List.length_singleton, Option.toList_none, List.length_nil,
      List.length_append] at *
    omega
  exhausted := sound.exhausted
  untouched := by
    intro other waits
    have apart := sound.hand_waiting waits
    rw [history_start askedKey apart]
    exact sound.untouched other waits
  active := by
    intro entry inBoard
    rcases List.mem_append.mp inBoard with old | new
    · rw [history_start askedKey (sound.hand_active old)]
      exact sound.active entry old
    · rw [List.mem_singleton.mp new]
      refine ⟨answerKey ▸ member, ?_⟩
      have about : (Call.start asked answer).key = key := askedKey
      simp only [answerKey]
      rw [history_snoc board.calls about]
      exact opened
  resting := by
    intro other _ notActive notWaiting
    simp only [Board.keys, List.map_append, List.map_cons, List.map_nil, answerKey, List.mem_append,
      List.mem_singleton, not_or] at notActive
    rw [history_start askedKey (Ne.symm notActive.2)]
    exact sound.resting other (by simpa using notActive.2) notActive.1 notWaiting
  progress := by
    simp only [inProgress_snoc, Call.progress, running, if_true, Board.keys, List.map_append,
      List.map_cons, List.map_nil, askedKey, answerKey]
    exact sound.progress.append_right [key]
  bounded := by
    apply bounded_snoc sound.bounded
    have width := sound.width
    have places := sound.places
    have now : ([key] ++ board.keys).Perm (inProgress (board.calls ++ [.start asked answer])) := by
      simp only [inProgress_snoc, Call.progress, running, if_true, askedKey]
      exact List.perm_append_comm.trans (sound.progress.symm.append_right [key])
    rw [Option.toList_some, ← List.append_assoc] at places
    refine ⟨now.nodup_iff.mp (List.nodup_append.mp places).1, ?_⟩
    rw [← now.length_eq]
    simp only [Option.toList_some, List.length_singleton, List.length_append, Board.keys,
      List.length_map] at *
    omega
  count := by
    have count := sound.count
    simp only [Option.toList_some, List.length_singleton, Option.toList_none, List.length_nil,
      List.length_append] at *
    omega
  verdict := by
    simp only [List.any_append, List.any_cons, Call.failsForGood, List.any_nil, Bool.or_false]
    exact sound.verdict

theorem Sound.finished (sound : Sound work keys known none board) {entry : Active}
    (member : entry ∈ board.active) (recorded shown : ItemRecord)
    (shownKey : shown.key = entry.event.key) (permanent : Bool) (world : World) :
    Sound work keys known (some entry.event.key)
      { board with
          world
          active := board.active.filter (·.future ≠ entry.future)
          known := Keyed.put ItemRecord.key board.known shown
          permanent := board.permanent ||
            (recorded.status = .failed && permanent)
          calls := board.calls ++ [.finish entry.event recorded permanent] } := by
  have cut := Keyed.perm_without sound.futures member
  have keysCut : board.keys.Perm (entry.event.key ::
      (board.active.filter fun other => decide (other.future ≠ entry.future)).map
        fun other => other.event.key) :=
    cut.map fun other : Active => other.event.key
  have about : (Call.finish entry.event recorded permanent).key = entry.event.key := rfl
  have places : (entry.event.key :: ((board.active.filter fun other =>
      decide (other.future ≠ entry.future)).map (fun other => other.event.key) ++
        board.waiting)).Nodup :=
    ((keysCut.append_right board.waiting).nodup_iff).mp sound.places
  have apart : ∀ other, other ∈ (board.active.filter fun other =>
      decide (other.future ≠ entry.future)).map (fun other => other.event.key) ++ board.waiting →
        entry.event.key ≠ other := by
    rintro other inRest rfl
    exact (List.nodup_cons.mp places).1 inRest
  have fewer := cut.length_eq
  have now : (inProgress (board.calls ++ [.finish entry.event recorded permanent])).Perm
      ((board.active.filter fun other => decide (other.future ≠ entry.future)).map
        fun other => other.event.key) := by
    rw [inProgress_snoc, Call.progress]
    have erased := (sound.progress.trans keysCut).erase entry.event.key
    rwa [List.erase_cons_head] at erased
  constructor
  case places => exact places
  case futures => exact sound.futures.sublist (List.filter_sublist.map _)
  case fresh => exact fun other inRest => sound.fresh other (List.mem_of_mem_filter inRest)
  case width =>
    have width := sound.width
    simp only [Option.toList_some, Option.toList_none, List.length_nil, List.length_cons] at *
    omega
  case exhausted => exact sound.exhausted
  case untouched =>
    intro other waits
    have different := apart other (List.mem_append_right _ waits)
    rw [oldOf_put _ (shownKey.trans_ne different), history_other board.calls about different]
    exact sound.untouched other waits
  case active =>
    intro other inRest
    have different := apart other.event.key
      (List.mem_append_left _ (List.mem_map.mpr ⟨other, inRest, rfl⟩))
    rw [history_other board.calls about different]
    exact sound.active other (List.mem_of_mem_filter inRest)
  case resting =>
    intro other notHand notActive notWaiting
    have different : entry.event.key ≠ other := by
      rintro rfl
      simp at notHand
    rw [history_other board.calls about different]
    refine sound.resting other (by simp) ?_ notWaiting
    intro wasActive
    rcases List.mem_cons.mp (keysCut.mem_iff.mp wasActive) with same | inRest
    · exact different same.symm
    · exact notActive inRest
  case progress => exact now
  case bounded =>
    apply bounded_snoc sound.bounded
    rw [now.nodup_iff, now.length_eq, List.length_map]
    have width := sound.width
    refine ⟨((List.nodup_append.mp (List.nodup_cons.mp places).2).1), ?_⟩
    simp only [List.length_cons] at fewer
    omega
  case count =>
    have count := sound.count
    simp only [Option.toList_some, Option.toList_none, List.length_nil, List.length_cons] at *
    omega
  case verdict =>
    simp only [List.any_append, List.any_cons, Call.failsForGood, List.any_nil, Bool.or_false]
    rw [sound.verdict]

theorem Sound.start (sound : Sound work keys known (some key) board)
    (member : key ∈ pending keys known) {number : Int} {left : Nat}
    (ready : Ready work.retries (oldOf known key).number (history board.calls key) number left) :
    Sound work keys known none (board.start env key number left) := by
  unfold Board.start submit
  dsimp only
  split
  · rename_i running
    exact sound.begun rfl (env.same_key _ _) running member (ready.start running) _
  · rename_i refused
    refine (sound.refused rfl (env.same_key _ _) refused _).close member ?_
    rw [history_started]
    exact ready.refuse refused

theorem finish_key (event : ItemRecord) (outcome : Outcome) (world : World) :
    (finish env event outcome world).1.key = event.key := by
  unfold finish
  cases outcome <;> exact env.same_key _ _

theorem Sound.ending (sound : Sound work keys known none board) {entry : Active}
    (member : entry ∈ board.active) :
    Sound work keys known (some entry.event.key) (board.finished env entry).1 := by
  refine sound.finished member _ _ ?_ _ _
  exact finish_key entry.event _ board.world

theorem finished_history (board : Board World) (entry : Active) :
    history (board.finished env entry).1.calls entry.event.key =
      history board.calls entry.event.key ++ [.finish entry.event (board.finished env entry).2
        (env.outcome entry.future board.world).permanent] :=
  history_finished board.calls _ _ _

theorem active_found (sound : Sound work keys known none board) {entry : Active}
    (member : entry ∈ board.active) :
    board.active.find? (fun other => decide (other.future = entry.future)) = some entry :=
  Keyed.lookup_eq_some sound.futures member

theorem Sound.handle (sound : Sound work keys known none board) {entry : Active}
    (member : entry ∈ board.active) :
    Sound work keys known none (board.handle env entry.future) := by
  obtain ⟨pends, opened⟩ := sound.active entry member
  unfold Board.handle
  rw [active_found sound member]
  dsimp only
  split
  · rename_i again
    simp only [Bool.and_eq_true, decide_eq_true_eq, Bool.not_eq_true'] at again
    refine (sound.ending member).start pends ?_
    rw [finished_history, again.2]
    exact opened.ready again.1.1 again.1.2
  · refine (sound.ending member).close pends ?_
    rw [finished_history]
    exact opened.served _ _

theorem Sound.pass (sound : Sound work keys known none board) {rest : List String}
    (waiting : board.waiting = key :: rest) (isKept : kept (oldOf known key).status = true) :
    Sound work keys known none { board with waiting := rest } := by
  have listed : key ∈ board.waiting := waiting ▸ List.mem_cons_self
  have skipped : key ∉ pending keys known := by simp [pending, isKept]
  have places := sound.places
  rw [waiting] at places
  constructor
  case places => exact places.sublist ((List.Sublist.refl _).append
    ((List.Sublist.refl _).append (List.sublist_cons_self _ _)))
  case exhausted =>
    intro ended
    have none := sound.exhausted ended
    rw [waiting] at none
    cases none
  case untouched =>
    exact fun other waits => sound.untouched other (waiting ▸ List.mem_cons_of_mem _ waits)
  case resting =>
    intro other notHand notActive notWaiting
    by_cases same : other = key
    · subst same
      rw [if_neg skipped]
      exact (sound.untouched other listed).2.1
    · refine sound.resting other notHand notActive ?_
      rw [waiting]
      exact fun inList => (List.mem_cons.mp inList).elim same notWaiting
  case count =>
    have count := sound.count
    rw [waiting] at count
    simpa only [pending, List.filter_cons, isKept, Bool.not_true, Bool.false_eq_true, if_false]
      using count
  all_goals first
    | exact sound.futures
    | exact sound.fresh
    | exact sound.width
    | exact sound.active
    | exact sound.progress
    | exact sound.bounded
    | exact sound.verdict

/-! Every iteration of the outer loop uses something up. -/

def potential (work : Work) (board : Board World) : Nat :=
  board.waiting.length * (work.retries + 1) + (board.active.map fun entry => entry.left + 1).sum +
    (!board.exhausted).toNat

theorem start_potential (env : Environment World) (work : Work) (board : Board World) (key : String) (number : Int) (left : Nat) :
    potential work (board.start env key number left) ≤ potential work board + (left + 1) := by
  unfold Board.start submit
  dsimp only
  split
  · simp only [potential, List.map_append, List.map_cons, List.map_nil, List.sum_append,
      List.sum_cons, List.sum_nil]
    omega
  · simp only [potential]
    omega

theorem finished_potential (env : Environment World) (sound : Sound work keys known none board) {entry : Active}
    (member : entry ∈ board.active) :
    potential work (board.finished env entry).1 + (entry.left + 1) = potential work board := by
  have cut := ((Keyed.perm_without sound.futures member).map fun other => other.left + 1).sum_eq
  simp only [List.map_cons, List.sum_cons] at cut
  simp only [potential, Board.finished, cut]
  omega

theorem handle_potential (env : Environment World) (sound : Sound work keys known none board) {entry : Active}
    (member : entry ∈ board.active) :
    potential work (board.handle env entry.future) + 1 ≤ potential work board := by
  have ending := finished_potential env sound member
  unfold Board.handle
  rw [active_found sound member]
  dsimp only
  split
  · rename_i again
    simp only [Bool.and_eq_true, decide_eq_true_eq] at again
    have started := start_potential env work (board.finished env entry).1
      entry.event.key ((board.finished env entry).2.number + 1) (entry.left - 1)
    omega
  · simp only [potential] at *
    omega

theorem start_active (board : Board World) (key : String) (number : Int) (left : Nat) :
    board.active <+: (board.start env key number left).active := by
  unfold Board.start submit
  dsimp only
  split
  · exact List.prefix_append _ _
  · exact List.prefix_rfl

theorem handle_active (sound : Sound work keys known none board) {entry : Active}
    (member : entry ∈ board.active) {future : Nat} (other : future ≠ entry.future)
    (stays : future ∈ board.active.map (·.future)) :
    future ∈ (board.handle env entry.future).active.map (·.future) := by
  have left : future ∈ (board.finished env entry).1.active.map (·.future) := by
    obtain ⟨held, inActive, rfl⟩ := List.mem_map.mp stays
    refine List.mem_map.mpr ⟨held, List.mem_filter.mpr ⟨inActive, ?_⟩, rfl⟩
    simpa using other
  unfold Board.handle
  rw [active_found sound member]
  dsimp only
  split
  · exact ((start_active _ _ _ _).map _).subset left
  · exact left

theorem handled (env : Environment World) (sound : Sound work keys known none board) {done : List Nat} (distinct : done.Nodup)
    (active : ∀ future ∈ done, future ∈ board.active.map (·.future)) :
    Sound work keys known none (done.foldl (Board.handle env) board) ∧
      potential work (done.foldl (Board.handle env) board) + done.length ≤ potential work board := by
  induction done generalizing board with
  | nil => exact ⟨sound, le_rfl⟩
  | cons future rest ih =>
      obtain ⟨entry, member, rfl⟩ := List.mem_map.mp (active _ List.mem_cons_self)
      have less := handle_potential env sound member
      have still : ∀ future ∈ rest, future ∈ (board.handle env entry.future).active.map (·.future) := by
        intro future inRest
        refine handle_active sound member ?_ (active future (List.mem_cons_of_mem _ inRest))
        rintro rfl
        exact (List.nodup_cons.mp distinct).1 inRest
      obtain ⟨after, lower⟩ := ih (sound.handle member) (List.nodup_cons.mp distinct).2 still
      refine ⟨after, ?_⟩
      simp only [List.foldl_cons, List.length_cons]
      omega

theorem Sound.take (sound : Sound work keys known none board) {rest : List String}
    (waiting : board.waiting = key :: rest) (fresh : kept (oldOf known key).status = false)
    (room : board.active.length < work.width) :
    Sound work keys known (some key) { board with waiting := rest } := by
  have places := sound.places
  rw [waiting] at places
  constructor
  case places =>
    have moved : (board.keys ++ key :: rest).Perm (key :: (board.keys ++ rest)) := List.perm_middle
    exact moved.nodup_iff.mp places
  case width =>
    simp only [Option.toList_some, List.length_singleton]
    omega
  case exhausted =>
    intro ended
    have none := sound.exhausted ended
    rw [waiting] at none
    cases none
  case untouched =>
    exact fun other waits => sound.untouched other (waiting ▸ List.mem_cons_of_mem _ waits)
  case resting =>
    intro other notHand notActive notWaiting
    have different : other ≠ key := by simpa using notHand
    refine sound.resting other (by simp) notActive ?_
    rw [waiting]
    exact fun inList => (List.mem_cons.mp inList).elim different notWaiting
  case count =>
    have count := sound.count
    rw [waiting] at count
    simp only [pending, List.filter_cons, fresh, Bool.not_false, if_true, List.length_cons,
      Option.toList_some, Option.toList_none, List.length_nil] at *
    omega
  all_goals first
    | exact sound.futures
    | exact sound.fresh
    | exact sound.active
    | exact sound.progress
    | exact sound.bounded
    | exact sound.verdict

theorem first_ready (number : Int) (retries : Nat) :
    Ready retries number [] (number + 1) retries where
  submitted := by simp
  follows := List.isChain_nil
  next := Or.inl ⟨rfl, rfl⟩
  starts := by simp
  endings := rfl

theorem start_waiting (board : Board World) (key : String) (number : Int) (left : Nat) :
    (board.start env key number left).waiting = board.waiting := by
  unfold Board.start submit
  dsimp only
  split <;> rfl

theorem filled (env : Environment World) (wide : 1 ≤ work.width) (sound : Sound work keys known none board)
    {waiting : List String} (same : board.waiting = waiting) :
    Sound work keys known none (Board.fill env work waiting board) ∧
      potential work (Board.fill env work waiting board) ≤ potential work board ∧
      ((Board.fill env work waiting board).active = [] →
        (Board.fill env work waiting board).exhausted = true) := by
  induction waiting generalizing board with
  | nil =>
      unfold Board.fill
      split
      · refine ⟨?_, ?_, fun _ => rfl⟩
        · exact { sound with exhausted := fun _ => same }
        · simp only [potential, Bool.not_true, Bool.toNat_false]
          omega
      · rename_i full
        refine ⟨sound, le_rfl, fun empty => ?_⟩
        rw [empty, List.length_nil] at full
        omega
  | cons key rest ih =>
      unfold Board.fill
      split
      · rename_i room
        have listed : key ∈ board.waiting := same ▸ List.mem_cons_self
        obtain ⟨oldSame, noHistory, isKey⟩ := sound.untouched key listed
        have length : board.waiting.length = rest.length + 1 := by simp [same]
        have popped : potential work { board with waiting := rest } + (work.retries + 1) =
            potential work board := by
          simp only [potential, length, Nat.add_mul]
          omega
        dsimp only
        rw [oldSame]
        split
        · rename_i isKept
          obtain ⟨after, lower, exhausted⟩ := ih (sound.pass same isKept) rfl
          exact ⟨after, by omega, exhausted⟩
        · rename_i notKept
          have fresh : kept (oldOf known key).status = false := by simpa using notKept
          have pends : key ∈ pending keys known :=
            List.mem_filter.mpr ⟨isKey, by simp [fresh]⟩
          have begun : Sound work keys known none
              (Board.start env { board with waiting := rest } key ((oldOf known key).number + 1)
                work.retries) := by
            apply (sound.take same fresh room).start pends
            simp only [noHistory]
            exact first_ready _ _
          have started := start_potential env work { board with waiting := rest }
            key ((oldOf known key).number + 1) work.retries
          obtain ⟨after, lower, exhausted⟩ := ih begun (start_waiting _ _ _ _)
          exact ⟨after, by omega, exhausted⟩
      · rename_i full
        refine ⟨sound, le_rfl, fun empty => ?_⟩
        rw [empty, List.length_nil] at full
        omega

theorem ended_of_potential (work : Work) (used : potential work board = 0) : board.ended = true := by
  have parts : (board.active.map fun entry => entry.left + 1).sum = 0 ∧ (!board.exhausted).toNat = 0 := by
    unfold potential at used
    omega
  have empty : board.active = [] := by
    cases active : board.active with
    | nil => rfl
    | cons entry rest =>
        have sum := parts.1
        rw [active, List.map_cons, List.sum_cons] at sum
        omega
  have exhausted : board.exhausted = true := by
    cases flag : board.exhausted with
    | true => rfl
    | false =>
        have counted := parts.2
        simp [flag] at counted
  simp [Board.ended, empty, exhausted]

theorem woken (env : Environment World) (sound : Sound work keys known none board)
    (active : board.active ≠ []) :
    Sound work keys known none
        ((env.wait (board.active.map (·.future)) board.world).1.foldl (Board.handle env)
          { board with world := (env.wait (board.active.map (·.future)) board.world).2 }) ∧
      potential work
          ((env.wait (board.active.map (·.future)) board.world).1.foldl (Board.handle env)
            { board with world := (env.wait (board.active.map (·.future)) board.world).2 }) + 1 ≤
        potential work board := by
  have some_ : board.active.map (·.future) ≠ [] := fun empty => active (List.map_eq_nil_iff.mp empty)
  have done := List.length_pos_iff.mpr (env.wait_some _ board.world some_)
  have here : Sound work keys known none
      { board with world := (env.wait (board.active.map (·.future)) board.world).2 } :=
    { sound with }
  obtain ⟨isSound, less⟩ := handled env here
    (env.wait_distinct (board.active.map (·.future)) board.world)
    (env.wait_active (board.active.map (·.future)) board.world)
  refine ⟨isSound, ?_⟩
  have same : potential work { board with
      world := (env.wait (board.active.map (·.future)) board.world).2 } = potential work board := rfl
  omega

theorem turned (env : Environment World) (wide : 1 ≤ work.width) (sound : Sound work keys known none board)
    (going : board.ended = false) :
    Sound work keys known none (board.turn env work) ∧
      potential work (board.turn env work) + 1 ≤ potential work board := by
  obtain ⟨after, lower, exhausted⟩ := filled env wide sound rfl
  have positive : potential work board ≠ 0 := by
    intro used
    rw [ended_of_potential work used] at going
    cases going
  unfold Board.turn
  dsimp only
  split
  · rename_i empty
    have noneActive := List.isEmpty_iff.mp empty
    refine ⟨after, ?_⟩
    -- nothing is active only when nothing waits either
    have spent := exhausted noneActive
    have zero : potential work (Board.fill env work board.waiting board) = 0 := by
      simp [potential, noneActive, spent, after.exhausted spent]
    omega
  · rename_i some_
    have active : (Board.fill env work board.waiting board).active ≠ [] :=
      fun empty => some_ (List.isEmpty_iff.mpr empty)
    obtain ⟨isSound, less⟩ := woken env after active
    exact ⟨isSound, less.trans lower⟩

theorem looped (env : Environment World) (wide : 1 ≤ work.width) (sound : Sound work keys known none board) {fuel : Nat}
    (enough : potential work board ≤ fuel) :
    ∃ final, board.loop env work fuel = some final ∧ Sound work keys known none final ∧
      final.ended = true := by
  induction fuel generalizing board with
  | zero =>
      have isOver := ended_of_potential work (Nat.le_zero.mp enough)
      exact ⟨board, by simp [Board.loop, isOver], sound, isOver⟩
  | succ fuel ih =>
      cases isOver : board.ended with
      | true => exact ⟨board, by simp [Board.loop, isOver], sound, isOver⟩
      | false =>
          obtain ⟨after, lower⟩ := turned env wide sound isOver
          obtain ⟨final, reached, isSound, finished⟩ := ih after (by omega)
          exact ⟨final, by simpa [Board.loop, isOver] using reached, isSound, finished⟩

end Steps

theorem sound_initially {World : Type} (work : Work) {keys : List String} (distinct : keys.Nodup)
    (known : List ItemRecord) (world : World) :
    Sound work keys known none (Board.initial keys known world) where
  places := distinct
  futures := List.nodup_nil
  fresh := by simp [Board.initial]
  width := Nat.zero_le _
  exhausted := nofun
  untouched := fun _ member => ⟨rfl, rfl, member⟩
  active := by simp [Board.initial]
  resting := by
    intro key _ _ absent
    have notPending : key ∉ pending keys known := fun member => absent (List.mem_of_mem_filter member)
    rw [if_neg notPending]
    rfl
  progress := List.Perm.refl _
  bounded := by
    intro calls start
    rw [List.prefix_nil.mp start]
    exact ⟨List.nodup_nil, Nat.zero_le _⟩
  count := rfl
  verdict := rfl

/-- Every item that is not kept is run to its end, within the width and the retries; the result
tells whether one failed for good. -/
theorem run_serves {World : Type} (env : Environment World) {work : Work} (wide : 1 ≤ work.width)
    {keys : List String} (distinct : keys.Nodup) {known : List ItemRecord}
    (covered : ∀ key ∈ keys, (Keyed.lookup ItemRecord.key known key).isSome) (world : World) :
    ∃ final, work.run env keys known world = .ok final ∧
      final.active = [] ∧ inProgress final.calls = [] ∧ final.completed = goal keys known ∧
      (∀ calls, calls <+: final.calls →
        (inProgress calls).Nodup ∧ (inProgress calls).length ≤ work.width) ∧
      (∀ key ∉ pending keys known, history final.calls key = []) ∧
      (∀ key ∈ pending keys known,
        Served work.retries (oldOf known key).number (history final.calls key)) ∧
      (final.permanent = true ↔ ∃ call ∈ final.calls, call.failsForGood = true) := by
  have enough : potential work (Board.initial keys known world) ≤
      keys.length * (work.retries + 1) + 1 := le_rfl
  obtain ⟨final, reached, sound, ended⟩ :=
    looped env wide (sound_initially work distinct known world) enough
  simp only [Board.ended, Bool.and_eq_true, List.isEmpty_iff] at ended
  have noneWaits := sound.exhausted ended.2
  have noKeys : final.keys = [] := by simp [Board.keys, ended.1]
  have rest := fun key => sound.resting key (by simp) (by simp [noKeys]) (by simp [noneWaits])
  refine ⟨final, ?_, ended.1, ?_, ?_, sound.bounded, ?_, ?_, ?_⟩
  · have allKnown : (keys.all fun key => (Keyed.lookup ItemRecord.key known key).isSome) = true :=
      List.all_eq_true.mpr covered
    unfold Work.run
    rw [if_pos allKnown, reached]
  · have progress := sound.progress
    rw [noKeys] at progress
    exact progress.eq_nil
  · have count := sound.count
    rw [ended.1, noneWaits] at count
    simpa [pending] using count
  · intro key absent
    have idle := rest key
    rwa [if_neg absent] at idle
  · intro key member
    have served := rest key
    rwa [if_pos member] at served
  · rw [sound.verdict, List.any_eq_true]

/-! A concrete environment: a store that accepts everything, workers that end one at a time, and a
failure for the second item's first attempt. -/

def accepting : Environment Nat where
  itemEvent event world := (event, world + 1)
  wait futures world := (futures.take 1, world)
  outcome future _ := if future = 1 then .exception "timeout" false else .result (some 3) none
  texts := { mask := id, uuid := fun _ => true }
  now := fun world => world
  reportId := fun _ => ""
  same_key := fun _ _ => rfl
  wait_active := fun _ _ _ member => List.mem_of_mem_take member
  wait_distinct := by
    intro futures _
    cases futures <;> simp
  wait_some := by
    intro futures _ some_
    cases futures with
    | nil => exact absurd rfl some_
    | cons => simp

def twoItems : List ItemRecord :=
  [{ key := "a", number := 0, status := .queued }, { key := "b", number := 4, status := .failed }]

theorem two_items_served :
    ∃ final, Work.run accepting ⟨1, 2⟩ ["a", "b"] twoItems 0 = .ok final ∧
      final.completed = 2 ∧ Served 1 4 (history final.calls "b") := by
  obtain ⟨final, reached, _, _, completed, _, _, served, _⟩ :=
    @run_serves Nat accepting ⟨1, 2⟩ (by decide) ["a", "b"] (by decide) twoItems (by decide) 0
  exact ⟨final, reached, completed, served "b" (by decide)⟩

/-! What is prepared is what a run needs. -/

theorem current_old (known : List ItemRecord) (key : String) :
    (current known key).key = key ∧ (current known key).number = (oldOf known key).number ∧
      kept (current known key).status = kept (oldOf known key).status := by
  unfold current oldOf
  cases found : Keyed.lookup ItemRecord.key known key with
  | none => exact ⟨rfl, rfl, rfl⟩
  | some old =>
      obtain ⟨_, same⟩ := Keyed.lookup_mem found
      by_cases isKept : kept old.status = true
      · simp only [isKept, if_true, Option.getD_some]
        exact ⟨same, trivial, rfl⟩
      · rw [Bool.not_eq_true] at isKept
        simp only [isKept, Bool.false_eq_true, if_false, Option.getD_some]
        exact ⟨same, trivial, trivial⟩

theorem lookup_current (known : List ItemRecord) {keys : List String} {key : String}
    (member : key ∈ keys) :
    Keyed.lookup ItemRecord.key (keys.map (current known)) key = some (current known key) := by
  have shown : (fun item => (current known item).key) = id := by
    funext item
    exact (current_old known item).1
  rw [Keyed.lookup_of_map, shown]
  cases found : Keyed.lookup id keys key with
  | none => exact absurd rfl (Keyed.lookup_none.mp found key member)
  | some other =>
      obtain ⟨_, rfl⟩ := Keyed.lookup_mem found
      rfl

theorem prepared_ready {keys : List String} {records : List ItemRecord} {maxItems : Nat}
    {known : List ItemRecord} {all selected : List String}
    (done : prepareWork keys records maxItems = .ok (all, known, selected)) :
    all.Nodup ∧ (∀ key ∈ keys, key ∈ all) ∧ ∀ key ∈ all,
      Keyed.lookup ItemRecord.key known key =
        some (current (Keyed.putAll ItemRecord.key records) key) := by
  unfold prepareWork at done
  dsimp only at done
  split at done
  · cases done
  · split at done
    · cases done
    · cases done
      refine ⟨?_, ?_, fun key member => lookup_current _ member⟩
      · have distinct := Keyed.putAll_distinct id
          ((Keyed.putAll ItemRecord.key records).map (·.key) ++ keys)
        rwa [List.map_id] at distinct
      · intro key member
        have covered : ∃ other ∈ Keyed.putAll id
            ((Keyed.putAll ItemRecord.key records).map (·.key) ++ keys), id other = id key :=
          Keyed.putAll_covers (List.mem_append_right _ member)
        obtain ⟨other, inAll, rfl⟩ := covered
        exact inAll

/-- A fan-out whose work could be prepared runs to the end: kept items stay as they are, and every
other selected item is served from the number the store has for it. -/
theorem execute_serves {World : Type} (env : Environment World) {work : Work}
    (wide : 1 ≤ work.width) {keys all selected : List String} {records known : List ItemRecord}
    {maxItems : Nat} (prepared : prepareWork keys records maxItems = .ok (all, known, selected))
    (world : World) :
    ∃ final, execute env work keys records maxItems world = .ok final ∧ final.active = [] ∧
      ∀ key ∈ all, if (selected = [] ∨ key ∈ selected) ∧
          kept (oldOf (Keyed.putAll ItemRecord.key records) key).status = false then
        Served work.retries (oldOf (Keyed.putAll ItemRecord.key records) key).number
          (history final.calls key)
      else history final.calls key = [] := by
  obtain ⟨distinct, _, found⟩ := prepared_ready prepared
  obtain ⟨final, reached, inactive, _, _, _, idle, served, _⟩ := run_serves env wide
    (distinct.filter fun key => selected.isEmpty || decide (key ∈ selected))
    (fun key member => by rw [found key (List.mem_of_mem_filter member)]; rfl) world
  refine ⟨final, ?_, inactive, fun key member => ?_⟩
  · unfold execute
    rw [prepared]
    exact reached
  · have old : oldOf known key = current (Keyed.putAll ItemRecord.key records) key := by
      rw [oldOf, found key member, Option.getD_some]
    obtain ⟨_, sameNumber, sameKept⟩ := current_old (Keyed.putAll ItemRecord.key records) key
    have pends : key ∈ pending (all.filter fun key => selected.isEmpty || decide (key ∈ selected))
        known ↔ (selected = [] ∨ key ∈ selected) ∧
          kept (oldOf (Keyed.putAll ItemRecord.key records) key).status = false := by
      simp only [pending, List.mem_filter, member, true_and, Bool.or_eq_true, List.isEmpty_iff,
        decide_eq_true_eq, old, sameKept, Bool.not_eq_true']
    split
    · rename_i runs
      have isServed := served key (pends.mpr runs)
      rwa [old, sameNumber] at isServed
    · rename_i stays
      exact idle key fun runs => stays (pends.mp runs)

theorem latest_key {log : TaskItems} {key : String} {old : ItemRecord}
    (latest : log.latest key = some old) : old.key = key := by
  obtain ⟨row, found, rfl⟩ := TaskItems.latest_some latest
  exact (TaskItems.latestRow_mem found).2

theorem append_key {texts : ItemTexts} {log after : TaskItems} {attempt : Nat}
    {event row : ItemRecord} {now : Int}
    (done : TaskItems.append texts log attempt event now = .ok (after, row)) :
    row.key = event.key := by
  unfold TaskItems.append at done
  dsimp only at done
  split at done
  · cases done
    rfl
  · cases done

/-- The engine's store answers an observation with an item of the same key. -/
theorem recorded_key {texts : ItemTexts} {log after : TaskItems} {attempt : Nat}
    {event row : ItemRecord} {now : Int}
    (done : TaskItems.record texts log attempt event now = .ok (after, row)) :
    row.key = event.key := by
  unfold TaskItems.record at done
  split_ifs at done
  -- a repeated report and a refused start answer with the latest item, every other one is added
  cases reported : log.report event.reportId <;> cases latest : log.latest event.key <;>
    cases status : event.status <;>
    simp only [reported, latest, status] at done <;> try split_ifs at done
  all_goals first
    | (have added := append_key done; exact added)
    | (cases done <;> exact latest_key latest)

end FanOut

end EtlCraft
