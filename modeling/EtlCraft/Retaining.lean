import Mathlib

/-! A bounded queue that some items pass by: the order in which the items leave it, and the points of
that order at which no item that has left was overtaking one that has not. -/

namespace Retaining

variable {Item : Type} (prompt : Item → Bool) (count : Nat)

/-- Prompt items leave at once, the others when the queue is full or the items are over. -/
def leaves : List Item → List Item → List Item
  | queue, [] => queue
  | queue, item :: rest =>
      if prompt item then item :: leaves queue rest
      else match queue with
        | [] => leaves [item] rest
        | oldest :: others =>
            if queue.length = count then oldest :: leaves (others ++ [item]) rest
            else leaves (queue ++ [item]) rest

/-- Wherever a prompt item is among the first `cut` to leave, `cut` is past all that came before. -/
def Clear (queued : Nat) (items : List Item) (cut : Nat) : Prop :=
  ∀ before item after, items = before ++ item :: after → prompt item = true →
    queued + before.length < cut + min (queued + before.countP (!prompt ·)) count →
    queued + before.length < cut

instance (queued : Nat) (items : List Item) (cut : Nat) :
    Decidable (Clear prompt count queued items cut) :=
  decidable_of_iff (∀ place : Fin items.length, prompt items[place] = true →
      queued + place < cut + min (queued + (items.take place).countP (!prompt ·)) count →
      queued + place < cut) <| by
    constructor
    · rintro each before item after rfl
      simpa using each ⟨before.length, by simp⟩
    · intro clear place kind left
      have split : items = items.take place ++ items[place] :: items.drop (place + 1) := by simp
      have length : (items.take place).length = place := by simp [place.isLt.le]
      simpa [length] using clear _ _ _ split kind (by simpa [length] using left)

variable {prompt count} {queue items rest : List Item} {item : Item} {queued cut : Nat}

theorem leaves_prompt (kind : prompt item = true) :
    leaves prompt count queue (item :: rest) = item :: leaves prompt count queue rest := by
  cases queue <;> simp [leaves, kind]

theorem leaves_full (positive : 0 < count) (rest : List Item) (stays : prompt item = false)
    (full : queue.length = count) :
    ∃ oldest others, queue = oldest :: others ∧
      leaves prompt count queue (item :: rest) =
        oldest :: leaves prompt count (others ++ [item]) rest := by
  cases queue with
  | nil =>
      rw [List.length_nil] at full
      omega
  | cons oldest others => exact ⟨oldest, others, rfl, by simp [leaves, stays, full]⟩

theorem leaves_room (stays : prompt item = false) (room : queue.length < count) :
    leaves prompt count queue (item :: rest) = leaves prompt count (queue ++ [item]) rest := by
  cases queue with
  | nil => simp [leaves, stays]
  | cons oldest others =>
      rw [leaves, if_neg (by simp [stays]), if_neg room.ne]

theorem leaves_perm (positive : 0 < count) (bounded : queue.length ≤ count) :
    (leaves prompt count queue items).Perm (queue ++ items) := by
  induction items generalizing queue with
  | nil => simp [leaves]
  | cons item rest ih =>
      cases kind : prompt item with
      | true =>
          rw [leaves_prompt kind]
          exact ((ih bounded).cons item).trans List.perm_middle.symm
      | false =>
          rcases bounded.lt_or_eq with room | full
          · rw [leaves_room kind room]
            have grown : (queue ++ [item]).length ≤ count := by simpa using room
            simpa using ih grown
          · obtain ⟨oldest, others, rfl, left⟩ := leaves_full positive rest kind full
            rw [left]
            have same : (others ++ [item]).length ≤ count := by simpa using full.le
            simpa using ih same

namespace Clear

theorem prompt_rest (clear : Clear prompt count queued (item :: rest) (cut + 1))
    (kind : prompt item = true) : Clear prompt count queued rest cut := by
  intro before other after split isPrompt left
  have := clear (item :: before) other after (by rw [split, List.cons_append]) isPrompt
  rw [List.countP_cons_of_neg (by simp [kind]), List.length_cons] at this
  omega

theorem full_rest (clear : Clear prompt count count (item :: rest) (cut + 1))
    (kind : prompt item = false) : Clear prompt count count rest cut := by
  intro before other after split isPrompt left
  have := clear (item :: before) other after (by rw [split, List.cons_append]) isPrompt
  rw [List.countP_cons_of_pos (by simp [kind]), List.length_cons] at this
  omega

theorem room_rest (clear : Clear prompt count queued (item :: rest) cut)
    (kind : prompt item = false) : Clear prompt count (queued + 1) rest cut := by
  intro before other after split isPrompt left
  have := clear (item :: before) other after (by rw [split, List.cons_append]) isPrompt
  rw [List.countP_cons_of_pos (by simp [kind]), List.length_cons] at this
  omega

theorem take_perm (positive : 0 < count) (bounded : queue.length ≤ count)
    (clear : Clear prompt count queue.length items cut) :
    ((leaves prompt count queue items).take cut).Perm ((queue ++ items).take cut) := by
  induction items generalizing queue cut with
  | nil => simp [leaves]
  | cons item rest ih =>
      cases kind : prompt item with
      | true =>
          rw [leaves_prompt kind]
          cases cut with
          | zero => simp
          | succ cut =>
              have past := clear [] item rest rfl kind
              rw [List.countP_nil, List.length_nil] at past
              have upTo : queue.length ≤ cut := by omega
              have left := ih bounded (clear.prompt_rest kind)
              rw [List.take_append, List.take_of_length_le upTo] at left
              have first : (queue ++ item :: rest).take (cut + 1) =
                  queue ++ item :: rest.take (cut - queue.length) := by
                rw [List.take_append, List.take_of_length_le (Nat.le_succ_of_le upTo),
                  Nat.succ_sub upTo, List.take_succ_cons]
              rw [first, List.take_succ_cons]
              exact (left.cons item).trans List.perm_middle.symm
      | false =>
          rcases bounded.lt_or_eq with room | full
          · rw [leaves_room kind room]
            have grown : (queue ++ [item]).length ≤ count := by simpa using room
            have left := ih grown (by simpa using clear.room_rest kind)
            simpa using left
          · obtain ⟨oldest, others, rfl, left⟩ := leaves_full positive rest kind full
            rw [left]
            cases cut with
            | zero => simp
            | succ cut =>
                rw [full] at clear
                have same : (others ++ [item]).length ≤ count := by simpa using full.le
                have later := ih same (by simpa [← full] using clear.full_rest kind)
                simpa using later

end Clear

end Retaining
