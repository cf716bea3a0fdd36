import EtlCraft.Successions

/-! Looking for the first item that is not skipped: one after the other, or with a jump at each
skipped item, and when both find the same. -/

namespace Skipping

open Successions

variable {Item Error : Type}

/-- A search up to a horizon, with the item after a time, the jump from a skipped item and the time
up to which the jump passes over everything. -/
structure Search (Item Error : Type) where
  when : Item → Int
  skipped : Item → Bool
  horizon : Int
  next : Int → Except Error Item
  jump : Item → Except Error Item
  bound : Item → Int

inductive Ends (search : Search Item Error) (go : Item → Except Error Item) :
    Except Error Item → Except Error (Option Item) → Prop
  | failed (error : Error) : Ends search go (.error error) (.error error)
  | past {item : Item} (late : search.horizon < search.when item) :
      Ends search go (.ok item) (.ok none)
  | stops {item : Item} (inTime : search.when item ≤ search.horizon)
      (runs : search.skipped item = false) : Ends search go (.ok item) (.ok (some item))
  | skips {item : Item} {result : Except Error (Option Item)}
      (inTime : search.when item ≤ search.horizon) (skip : search.skipped item = true)
      (rest : Ends search go (go item) result) : Ends search go (.ok item) result

namespace Search

variable (search : Search Item Error)

def step (item : Item) : Except Error Item :=
  search.next (search.when item)

def Reaches (time : Int) (visited : List Item) (last : Item) : Prop :=
  Visits search.when search.next time (visited ++ [last])

inductive Clear : Except Error Item → Prop
  | failed (error : Error) : Clear (.error error)
  | past {item : Item} (late : search.horizon < search.when item) : Clear (.ok item)
  | stops {item : Item} (inTime : search.when item ≤ search.horizon)
      (runs : search.skipped item = false) : Clear (.ok item)
  | skips {item : Item} (inTime : search.when item ≤ search.horizon)
      (skip : search.skipped item = true)
      (noneLost : ∀ visited other, search.Reaches (search.when item) visited other →
        search.when other ≤ search.bound item → search.when other ≤ search.horizon →
        search.skipped other = true)
      (goesOn : ∀ error, search.jump item = .error error → ∀ visited other,
        search.Reaches (search.when item) visited other →
        search.when other ≤ search.horizon ∧ search.skipped other = true)
      (rest : Clear (search.jump item)) : Clear (.ok item)

structure Jumps (genuine : Item → Prop) : Prop where
  next_genuine : ∀ {time item}, search.next time = .ok item → genuine item
  next_after : ∀ {time item}, search.next time = .ok item → time < search.when item
  jump_genuine : ∀ {item later}, genuine item → search.skipped item = true →
    search.jump item = .ok later → genuine later
  jump_after : ∀ {item later}, genuine item → search.skipped item = true →
    search.jump item = .ok later → search.bound item < search.when later
  bound_mono : ∀ {item later}, genuine item → search.skipped item = true →
    search.jump item = .ok later → search.bound item ≤ search.bound later
  lands : ∀ {item later}, genuine item → search.skipped item = true →
    search.when item ≤ search.bound item → search.jump item = .ok later →
    ∃ passed, search.Reaches (search.when item) passed later ∧
      ∀ other ∈ passed, search.when other ≤ search.bound item
  stuck : ∀ {item later}, genuine item → search.skipped item = true →
    search.bound item < search.when item → search.jump item = .ok later →
    search.skipped later = true ∧ search.jump later = .ok later ∧
      search.when later ≤ search.when item

end Search

def Same : Except Error (Option Item) → Except Error (Option Item) → Prop
  | .ok first, .ok second => first = second
  | .error _, .error _ => True
  | _, _ => False

def Search.Agrees (search : Search Item Error) (start : Except Error Item) : Prop :=
  ∀ result, Ends search search.step start result →
    ∃ result', Ends search search.jump start result' ∧ Same result result'

variable {search : Search Item Error} {go : Item → Except Error Item}
  {start : Except Error Item} {result : Except Error (Option Item)} {genuine : Item → Prop}
  {time : Int} {visited : List Item} {item last later : Item}

namespace Ends

theorem deterministic {other : Except Error (Option Item)} (first : Ends search go start result)
    (second : Ends search go start other) : result = other := by
  induction first with
  | failed error =>
      cases second
      rfl
  | past late =>
      cases second with
      | past _ => rfl
      | stops inTime _ => omega
      | skips inTime _ _ => omega
  | stops inTime runs =>
      cases second with
      | past late => omega
      | stops _ _ => rfl
      | skips _ skip _ =>
          rw [runs] at skip
          contradiction
  | skips inTime skip rest ih =>
      cases second with
      | past late => omega
      | stops _ runs =>
          rw [runs] at skip
          contradiction
      | skips _ _ rest' => exact ih rest'

theorem rest (inTime : search.when item ≤ search.horizon) (skip : search.skipped item = true)
    (ends : Ends search go (.ok item) result) : Ends search go (go item) result := by
  cases ends with
  | past late => omega
  | stops _ runs =>
      rw [runs] at skip
      contradiction
  | skips _ _ rest => exact rest

theorem total (laws : search.Jumps genuine) (start : Except Error Item) :
    ∃ result, Ends search search.step start result := by
  cases start with
  | error error => exact ⟨_, failed error⟩
  | ok item =>
      induction near : (search.horizon - search.when item + 1).toNat using Nat.strong_induction_on
        generalizing item with
      | h left ih =>
          rcases Int.lt_or_le search.horizon (search.when item) with late | inTime
          · exact ⟨_, past late⟩
          · cases skip : search.skipped item with
            | false => exact ⟨_, stops inTime skip⟩
            | true =>
                cases found : search.step item with
                | error error => exact ⟨_, skips inTime skip (found ▸ failed error)⟩
                | ok next =>
                    have after := laws.next_after found
                    obtain ⟨result, rest⟩ := ih _ (by omega) next rfl
                    exact ⟨result, skips inTime skip (found ▸ rest)⟩

theorem of_reaches (ends : Ends search search.step (search.next time) result)
    (reaches : search.Reaches time visited last) :
    (∃ before item, item ∈ visited ∧ search.Reaches time before item ∧
      ((search.when item ≤ search.horizon ∧ search.skipped item = false ∧
          result = .ok (some item)) ∨
        (search.horizon < search.when item ∧ result = .ok none))) ∨
    Ends search search.step (.ok last) result := by
  induction visited generalizing time with
  | nil =>
      cases reaches with
      | step found _ => exact Or.inr (found ▸ ends)
  | cons first visited ih =>
      cases reaches with
      | step found rest =>
          have one : search.Reaches time [] first := .step found (.stop _)
          rw [found] at ends
          cases ends with
          | past late =>
              exact Or.inl ⟨[], first, List.mem_cons_self, one, Or.inr ⟨late, rfl⟩⟩
          | stops inTime runs =>
              exact Or.inl ⟨[], first, List.mem_cons_self, one, Or.inl ⟨inTime, runs, rfl⟩⟩
          | skips inTime skip goesOn =>
              rcases ih goesOn rest with ⟨before, item, member, reaches, ends⟩ | ends
              · exact Or.inl ⟨first :: before, item, List.mem_cons_of_mem _ member,
                  .step found reaches, ends⟩
              · exact Or.inr ends

theorem reached {outcome : Option Item}
    (ends : Ends search search.step (search.next time) (.ok outcome)) :
    ∃ visited last, search.Reaches time visited last ∧
      (search.horizon < search.when last ∨ search.skipped last = false) := by
  generalize same : search.next time = start at ends
  generalize done : (.ok outcome : Except Error (Option Item)) = result at ends
  induction ends generalizing time with
  | failed error => contradiction
  | past late => exact ⟨[], _, .step same (.stop _), Or.inl late⟩
  | stops inTime runs => exact ⟨[], _, .step same (.stop _), Or.inr runs⟩
  | skips inTime skip rest ih =>
      obtain ⟨visited, last, reaches, ended⟩ := ih rfl done
      exact ⟨_ :: visited, last, .step same reaches, ended⟩

theorem ended (laws : search.Jumps genuine)
    (ends : Ends search search.step (search.next time) result)
    (reaches : search.Reaches time visited last)
    (ended : search.horizon < search.when last ∨ search.skipped last = false) :
    ∃ outcome, result = .ok outcome ∧ (outcome = none → search.horizon < search.when last) ∧
      ∀ item, outcome = some item → search.when item ≤ search.when last := by
  have ordered := Visits.sorted (fun _ _ => laws.next_after) reaches
  rw [List.pairwise_append] at ordered
  have below : ∀ item ∈ visited, search.when item < search.when last :=
    fun item member => ordered.2.2 item member last List.mem_cons_self
  rcases ends.of_reaches reaches with
    ⟨_, item, member, _, ⟨_, _, rfl⟩ | ⟨late, rfl⟩⟩ | ends
  · refine ⟨some item, rfl, by simp, ?_⟩
    rintro _ ⟨⟩
    exact (below item member).le
  · have := below item member
    exact ⟨none, rfl, fun _ => by omega, by simp⟩
  · cases ends with
    | past late => exact ⟨none, rfl, fun _ => late, by simp⟩
    | stops _ _ =>
        refine ⟨some last, rfl, by simp, ?_⟩
        rintro _ ⟨⟩
        exact le_refl _
    | skips inTime skip _ =>
        rcases ended with late | runs
        · omega
        · rw [runs] at skip
          contradiction

theorem beyond (laws : search.Jumps genuine) {bound : Int} {first : Item}
    (isGenuine : genuine first) (after : bound < search.when first)
    (upTo : bound ≤ search.bound first)
    (ends : Ends search search.jump (.ok first) (.ok (some item))) : bound < search.when item := by
  generalize same : (.ok first : Except Error Item) = start at ends
  generalize done : (.ok (some item) : Except Error (Option Item)) = result at ends
  induction ends generalizing first with
  | failed error => contradiction
  | past late => cases done
  | stops inTime runs =>
      cases same
      cases done
      exact after
  | @skips skippedItem result inTime skip rest ih =>
      cases same
      subst done
      cases found : search.jump skippedItem with
      | error error =>
          rw [found] at rest
          cases rest
      | ok next =>
          have := laws.jump_after isGenuine skip found
          have := laws.bound_mono isGenuine skip found
          exact ih (laws.jump_genuine isGenuine skip found) (by omega) (by omega) found.symm rfl

theorem not_loop (inTime : search.when item ≤ search.horizon) (skip : search.skipped item = true)
    (loop : go item = .ok item) : ¬Ends search go (.ok item) result := by
  intro ends
  generalize same : (.ok item : Except Error Item) = start at ends
  induction ends with
  | failed error => contradiction
  | past late =>
      cases same
      omega
  | stops _ runs =>
      cases same
      rw [runs] at skip
      contradiction
  | skips _ _ rest ih =>
      cases same
      exact ih loop.symm

end Ends

theorem Search.Clear.not_loop (inTime : search.when item ≤ search.horizon)
    (skip : search.skipped item = true) (loop : search.jump item = .ok item) :
    ¬search.Clear (.ok item) := by
  intro clear
  generalize same : (.ok item : Except Error Item) = start at clear
  induction clear with
  | failed error => contradiction
  | past late =>
      cases same
      omega
  | stops _ runs =>
      cases same
      rw [runs] at skip
      contradiction
  | skips _ _ _ _ rest ih =>
      cases same
      exact ih loop.symm

theorem Ends.of_jump (laws : search.Jumps genuine) (isGenuine : genuine item)
    (skip : search.skipped item = true) (before : search.when item ≤ search.bound item)
    (found : search.jump item = .ok later)
    (ends : Ends search search.step (search.next (search.when item)) result) :
    (∃ visited other, search.Reaches (search.when item) visited other ∧
      search.when other ≤ search.bound item ∧ search.when other ≤ search.horizon ∧
      search.skipped other = false ∧ result = .ok (some other)) ∨
    (search.horizon < search.when later ∧ result = .ok none) ∨
    Ends search search.step (.ok later) result := by
  obtain ⟨passed, reaches, upTo⟩ := laws.lands isGenuine skip before found
  rcases ends.of_reaches reaches with
    ⟨visited, other, member, reaches, ⟨inTime, runs, done⟩ | ⟨late, done⟩⟩ | ends
  · exact Or.inl ⟨visited, other, reaches, upTo other member, inTime, runs, done⟩
  · have := upTo other member
    have := laws.jump_after isGenuine skip found
    exact Or.inr (Or.inl ⟨by omega, done⟩)
  · exact Or.inr (Or.inr ends)

theorem Search.Clear.agrees (laws : search.Jumps genuine) (clear : search.Clear start)
    (isGenuine : ∀ item, start = .ok item → genuine item) : search.Agrees start := by
  induction clear with
  | failed error =>
      intro result ends
      cases ends
      exact ⟨_, .failed error, trivial⟩
  | past late =>
      intro result ends
      cases ends with
      | past _ => exact ⟨_, .past late, rfl⟩
      | stops inTime _ => omega
      | skips inTime _ _ => omega
  | stops inTime runs =>
      intro result ends
      cases ends with
      | past late => omega
      | stops _ _ => exact ⟨_, .stops inTime runs, rfl⟩
      | skips _ skip _ =>
          rw [runs] at skip
          contradiction
  | @skips item inTime skip noneLost goesOn rest ih =>
      intro result ends
      have genuineItem := isGenuine item rfl
      have next : Ends search search.step (search.next (search.when item)) result :=
        ends.rest inTime skip
      cases found : search.jump item with
      | error error =>
          cases result with
          | ok outcome =>
              obtain ⟨visited, last, reaches, ended⟩ := next.reached
              obtain ⟨upTo, skipped⟩ := goesOn error found visited last reaches
              rcases ended with late | runs
              · omega
              · rw [runs] at skipped
                contradiction
          | error error' => exact ⟨.error error, .skips inTime skip (found ▸ .failed error), trivial⟩
      | ok later =>
          rcases Int.lt_or_le (search.bound item) (search.when item) with fired | before
          · obtain ⟨skipped, loop, upTo⟩ := laws.stuck genuineItem skip fired found
            rw [found] at rest
            exact absurd rest (Clear.not_loop (by omega) skipped loop)
          · rcases next.of_jump laws genuineItem skip before found with
              ⟨visited, other, reaches, passed, upTo, runs, _⟩ | ⟨late, rfl⟩ | ends'
            · have := noneLost visited other reaches passed upTo
              rw [runs] at this
              contradiction
            · exact ⟨.ok none, .skips inTime skip (found ▸ .past late), rfl⟩
            · obtain ⟨result', jumps, same⟩ := ih (fun other same => by
                rw [found] at same
                cases same
                exact laws.jump_genuine genuineItem skip found) result (found ▸ ends')
              exact ⟨result', .skips inTime skip jumps, same⟩

theorem Search.Clear.of_agrees (laws : search.Jumps genuine)
    (isGenuine : ∀ item, start = .ok item → genuine item) (agrees : search.Agrees start) :
    search.Clear start := by
  obtain ⟨whole, plain⟩ := Ends.total laws start
  obtain ⟨result, jumps, same⟩ := agrees whole plain
  clear same plain
  induction jumps with
  | failed error => exact .failed error
  | past late => exact .past late
  | stops inTime runs => exact .stops inTime runs
  | @skips item result inTime skip rest ih =>
      have genuineItem := isGenuine item rfl
      obtain ⟨plainResult, next⟩ := Ends.total laws (search.next (search.when item))
      obtain ⟨result', jumps', same⟩ := agrees plainResult (.skips inTime skip next)
      have rest' := jumps'.rest inTime skip
      have noneLost : ∀ visited other, search.Reaches (search.when item) visited other →
          search.when other ≤ search.bound item → search.when other ≤ search.horizon →
          search.skipped other = true := by
        intro visited other reaches passed upTo
        by_contra runs
        obtain ⟨outcome, rfl, late, found⟩ :=
          next.ended laws reaches (Or.inr (by simpa using runs))
        cases outcome with
        | none =>
            have := late rfl
            omega
        | some chosen =>
            have := found chosen rfl
            cases result' with
            | error error => exact same
            | ok outcome =>
                obtain rfl : some chosen = outcome := same
                cases jumped : search.jump item with
                | error error =>
                    rw [jumped] at rest'
                    cases rest'
                | ok later =>
                    rw [jumped] at rest'
                    have := rest'.beyond laws (laws.jump_genuine genuineItem skip jumped)
                      (laws.jump_after genuineItem skip jumped)
                      (laws.bound_mono genuineItem skip jumped)
                    omega
      have goesOn : ∀ error, search.jump item = .error error → ∀ visited other,
          search.Reaches (search.when item) visited other →
          search.when other ≤ search.horizon ∧ search.skipped other = true := by
        intro error jumped visited other reaches
        by_contra ended
        obtain ⟨outcome, rfl, _, _⟩ := next.ended laws reaches (by
          rcases Int.lt_or_le search.horizon (search.when other) with late | upTo
          · exact Or.inl late
          · exact Or.inr (by simpa [upTo] using ended))
        rw [jumped] at rest'
        cases rest'
        exact same
      refine .skips inTime skip noneLost goesOn (ih
        (fun other => laws.jump_genuine genuineItem skip) fun result₂ ends₂ => ?_)
      cases jumped : search.jump item with
      | error error =>
          rw [jumped] at ends₂
          cases ends₂
          exact ⟨.error error, .failed error, trivial⟩
      | ok later =>
          rw [jumped] at ends₂ rest rest'
          rcases Int.lt_or_le (search.bound item) (search.when item) with fired | before
          · obtain ⟨skipped, loop, upTo⟩ := laws.stuck genuineItem skip fired jumped
            exact absurd rest (Ends.not_loop (by omega) skipped loop)
          · rcases next.of_jump laws genuineItem skip before jumped with
              ⟨visited, other, reaches, passed, upTo, runs, _⟩ | ⟨late, _⟩ | ends'
            · rw [noneLost visited other reaches passed upTo] at runs
              contradiction
            · rw [ends₂.deterministic (.past late)]
              exact ⟨.ok none, .past late, rfl⟩
            · rw [ends₂.deterministic ends']
              exact ⟨result', rest', same⟩

theorem Search.agrees_iff (laws : search.Jumps genuine)
    (isGenuine : ∀ item, start = .ok item → genuine item) :
    search.Agrees start ↔ search.Clear start :=
  ⟨Clear.of_agrees laws isGenuine, fun clear => clear.agrees laws isGenuine⟩

end Skipping
