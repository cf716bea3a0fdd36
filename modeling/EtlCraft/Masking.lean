import EtlCraft.Occurrences

/-! Texts in which occurrences of words gave way to a marker, and the scan that masks a text from
the left while enough of it is in sight. A word apart from the marker is in the masked text only
where it was in the text. -/

namespace Masking

open Occurrences

variable {Letter : Type}

/-- The second text is the first with some occurrences of the words masked. -/
inductive Masked (words : List (List Letter)) (marker : List Letter) :
    List Letter → List Letter → Prop
  | nil : Masked words marker [] []
  | pass (letter : Letter) {text masked : List Letter} (rest : Masked words marker text masked) :
      Masked words marker (letter :: text) (letter :: masked)
  | word {word text masked : List Letter} (listed : word ∈ words)
      (rest : Masked words marker text masked) :
      Masked words marker (word ++ text) (marker ++ masked)

variable {words others : List (List Letter)} {marker word part text masked final : List Letter}

theorem Masked.refl (words : List (List Letter)) (marker text : List Letter) :
    Masked words marker text text := by
  induction text with
  | nil => exact .nil
  | cons letter text ih => exact .pass letter ih

theorem Masked.mono (mask : Masked words marker text masked)
    (more : ∀ word ∈ words, word ∈ others) : Masked others marker text masked := by
  induction mask with
  | nil => exact .nil
  | pass letter _ ih => exact .pass letter ih
  | word listed _ ih => exact .word (more _ listed) ih

/-- No end of a word apart from the marker is where the marker begins. -/
theorem no_marker (apart : Apart marker word) (ends : part <:+ word) (some_ : part ≠ []) :
    ¬part <+: marker ++ masked := by
  intro starts
  rcases List.prefix_or_prefix_of_prefix starts (List.prefix_append marker masked) with
    inside | around
  · exact apart.front part some_ ends inside
  · exact apart.around (around.isInfix.trans ends.isInfix)

theorem Masked.starts (mask : Masked words marker text masked) (apart : Apart marker word)
    (ends : part <:+ word) (starts : part <+: masked) : part <+: text := by
  induction mask generalizing part with
  | nil => exact starts
  | pass letter _ ih =>
      cases part with
      | nil => exact List.nil_prefix
      | cons first part =>
          obtain ⟨rfl, rest⟩ := List.cons_prefix_cons.mp starts
          exact List.cons_prefix_cons.mpr ⟨rfl, ih ((List.suffix_cons first part).trans ends) rest⟩
  | word _ _ _ =>
      by_cases none : part = []
      · exact none ▸ List.nil_prefix
      · exact absurd starts (no_marker apart ends none)

theorem Masked.occurs (mask : Masked words marker text masked) (apart : Apart marker word)
    (occurs : word <:+: masked) : word <:+: text := by
  induction mask with
  | nil => exact occurs
  | @pass letter text masked rest ih =>
      rcases List.infix_cons_iff.mp occurs with starts | later
      · exact ((Masked.pass letter rest).starts apart List.suffix_rfl starts).isInfix
      · exact (ih later).trans (List.suffix_cons letter text).isInfix
  | @word replaced text masked _ _ ih =>
      have beside : word <:+: [] ∨ word <:+: _ := apart.beside occurs
      rcases beside with none | later
      · exact absurd (List.infix_nil.mp none) apart.nonempty
      · exact (ih later).trans (List.suffix_append replaced text).isInfix

theorem Masked.behind (apart : Apart marker word) (ends : part <:+ word)
    (mask : Masked words marker text (part ++ masked)) :
    ∃ rest, text = part ++ rest ∧ Masked words marker rest masked := by
  induction part generalizing text with
  | nil => exact ⟨text, rfl, mask⟩
  | cons letter part ih =>
      generalize whole : letter :: part ++ masked = full at mask
      cases mask with
      | nil => cases whole
      | pass next rest =>
          obtain ⟨rfl, rfl⟩ := List.cons.inj whole
          obtain ⟨left, rfl, mask⟩ := ih ((List.suffix_cons letter part).trans ends) rest
          exact ⟨left, rfl, mask⟩
      | @word _ _ after listed rest =>
          have starts : letter :: part <+: marker ++ after := ⟨masked, whole⟩
          exact absurd starts (no_marker apart ends (List.cons_ne_nil letter part))

theorem Masked.marker_stays (apart : ∀ word ∈ words, Apart marker word) (ends : part <:+ marker)
    (mask : Masked words marker (part ++ text) final) :
    ∃ masked, final = part ++ masked ∧ Masked words marker text masked := by
  induction part generalizing final with
  | nil => exact ⟨final, rfl, mask⟩
  | cons letter part ih =>
      generalize whole : letter :: part ++ text = full at mask
      cases mask with
      | nil => cases whole
      | pass next rest =>
          obtain ⟨rfl, rfl⟩ := List.cons.inj whole
          obtain ⟨masked, rfl, mask⟩ := ih ((List.suffix_cons letter part).trans ends) rest
          exact ⟨masked, rfl, mask⟩
      | @word word after maskedAfter listed rest =>
          have starts : word <+: letter :: part ++ text := ⟨after, whole.symm⟩
          rcases List.prefix_or_prefix_of_prefix starts (List.prefix_append _ text) with
            inside | around
          · exact absurd (inside.isInfix.trans ends.isInfix) (apart word listed).inside
          · exact absurd ends ((apart word listed).back _ (List.cons_ne_nil letter part) around)

theorem Masked.trans (someMarker : marker ≠ []) (apart : ∀ word ∈ others, Apart marker word)
    (first : Masked words marker text masked) (second : Masked others marker masked final) :
    Masked (words ++ others) marker text final := by
  induction size : masked.length using Nat.strongRecOn generalizing text masked final with
  | _ size ih =>
      subst size
      cases first with
      | nil => exact second.mono fun _ => List.mem_append_right words
      | @pass letter text masked rest =>
          generalize whole : letter :: masked = full at second
          cases second with
          | nil => cases whole
          | pass next after =>
              obtain ⟨rfl, rfl⟩ := List.cons.inj whole
              exact .pass letter (ih _ (by simp) rest after rfl)
          | @word word after final listed behind =>
              have mask : Masked words marker (letter :: text) (word ++ after) :=
                whole ▸ Masked.pass letter rest
              obtain ⟨left, isLeft, mask⟩ := mask.behind (apart word listed) List.suffix_rfl
              rw [isLeft]
              refine .word (List.mem_append_right words listed) (ih _ ?_ mask behind rfl)
              have := List.length_pos_of_ne_nil (apart word listed).nonempty
              rw [whole, List.length_append]
              omega
      | word listed rest =>
          obtain ⟨left, rfl, mask⟩ := second.marker_stays apart List.suffix_rfl
          refine .word (List.mem_append_left others listed) (ih _ ?_ rest mask rfl)
          have := List.length_pos_of_ne_nil someMarker
          rw [List.length_append]
          omega

/-! ## The scan -/

/-- The scan of a text while `width` letters are in sight: at each place the longest word that
begins there is masked, or the letter passes. It ends with the rest that is too short to judge. -/
inductive Scans (words : List (List Letter)) (marker : List Letter) (width : Nat) :
    List Letter → List Letter → List Letter → Prop
  | stop {text : List Letter} (short : text.length < width) : Scans words marker width text [] text
  | pass {letter : Letter} {text out rest : List Letter} (wide : width ≤ text.length + 1)
      (absent : ∀ word ∈ words, ¬word <+: letter :: text)
      (after : Scans words marker width text out rest) :
      Scans words marker width (letter :: text) (letter :: out) rest
  | word {word text out rest : List Letter} (wide : width ≤ (word ++ text).length)
      (listed : word ∈ words)
      (longest : ∀ other ∈ words, other <+: word ++ text → other.length ≤ word.length)
      (after : Scans words marker width text out rest) :
      Scans words marker width (word ++ text) (marker ++ out) rest

variable {width : Nat} {out rest : List Letter}

theorem Scans.short (scan : Scans words marker width text out rest) : rest.length < width := by
  induction scan with
  | stop short => exact short
  | pass _ _ _ ih => exact ih
  | word _ _ _ _ ih => exact ih

theorem Scans.masks (scan : Scans words marker width text out rest) {last : List Letter}
    (mask : Masked words marker rest last) : Masked words marker text (out ++ last) := by
  induction scan with
  | stop => exact mask
  | pass _ _ _ ih => exact .pass _ (ih mask)
  | word _ listed _ _ ih =>
      rw [List.append_assoc]
      exact .word listed (ih mask)

/-- A word that is not in the rest's mask is not in the whole, were it to begin in the scanned
part. -/
theorem Scans.hides (scan : Scans words marker width text out rest) {last : List Letter}
    (mask : Masked words marker rest last) (listed : word ∈ words) (apart : Apart marker word)
    (absent : ¬word <:+: last) : ¬word <:+: out ++ last := by
  induction scan with
  | stop => exact absent
  | @pass letter text out rest wide none after ih =>
      intro occurs
      rcases List.infix_cons_iff.mp occurs with starts | later
      · have whole : Masked words marker (letter :: text) (letter :: (out ++ last)) :=
          .pass letter (after.masks mask)
        exact none word listed (whole.starts apart List.suffix_rfl starts)
      · exact ih mask later
  | word _ _ _ after ih =>
      intro occurs
      rw [List.append_assoc] at occurs
      have beside : word <:+: [] ∨ word <:+: _ := apart.beside occurs
      rcases beside with none | later
      · exact absurd (List.infix_nil.mp none) apart.nonempty
      · exact ih mask later

theorem prefix_wide {word text more : List Letter} (fits : word.length ≤ text.length) :
    word <+: text ++ more ↔ word <+: text := by
  constructor
  · intro starts
    exact List.prefix_of_prefix_length_le starts (List.prefix_append text more) fits
  · intro starts
    exact starts.trans (List.prefix_append text more)

theorem Scans.extend (fits : ∀ word ∈ words, word.length ≤ width)
    (scan : Scans words marker width text out rest) {more final : List Letter} {outMore : List Letter}
    (next : Scans words marker width (rest ++ more) outMore final) :
    Scans words marker width (text ++ more) (out ++ outMore) final := by
  induction scan with
  | stop => exact next
  | @pass letter text _ _ wide absent _ ih =>
      refine .pass (by simp; omega) (fun word listed starts => ?_) (ih next)
      have inside : word <+: letter :: text ++ more := starts
      refine absent word listed ((prefix_wide ?_).mp inside)
      exact Nat.le_trans (fits word listed) wide
  | @word word text _ _ wide listed longest _ ih =>
      rw [List.append_assoc, List.append_assoc]
      refine .word (by simp at wide ⊢; omega) listed (fun other isOther starts => ?_) (ih next)
      rw [← List.append_assoc] at starts
      refine longest other isOther ((prefix_wide ?_).mp starts)
      exact Nat.le_trans (fits other isOther) wide

theorem Scans.passes (count : Nat) (wide : ∀ place < count, place < text.length ∧
      width ≤ (text.drop place).length)
    (absent : ∀ place < count, ∀ word ∈ words, ¬word <+: text.drop place)
    (after : Scans words marker width (text.drop count) out rest) :
    Scans words marker width text (text.take count ++ out) rest := by
  induction count generalizing text with
  | zero => exact after
  | succ count ih =>
      cases text with
      | nil => exact absurd (wide 0 (Nat.succ_pos count)).1 (by simp)
      | cons letter text =>
          have here := (wide 0 (Nat.succ_pos count)).2
          refine .pass (by simpa using here) (absent 0 (Nat.succ_pos count)) (ih ?_ ?_ after)
          · intro place before
            have next := wide (place + 1) (Nat.succ_lt_succ before)
            simp only [List.length_cons, List.drop_succ_cons] at next
            exact ⟨by omega, next.2⟩
          · intro place before
            exact absent (place + 1) (Nat.succ_lt_succ before)

theorem Scans.unique (scan : Scans words marker width text out rest) {out' rest' : List Letter}
    (other : Scans words marker width text out' rest') : out' = out ∧ rest' = rest := by
  induction scan generalizing out' rest' with
  | stop short =>
      cases other with
      | stop => exact ⟨rfl, rfl⟩
      | pass wide =>
          rw [List.length_cons] at short
          omega
      | word wide => omega
  | @pass letter text _ _ wide absent _ ih =>
      generalize whole : letter :: text = full at other
      cases other with
      | stop short =>
          rw [← whole, List.length_cons] at short
          omega
      | pass _ _ after =>
          obtain ⟨rfl, rfl⟩ := List.cons.inj whole
          obtain ⟨rfl, rfl⟩ := ih after
          exact ⟨rfl, rfl⟩
      | @word word behind _ _ _ listed =>
          exact absurd ⟨behind, whole.symm⟩ (absent word listed)
  | @word word text _ _ wide listed longest _ ih =>
      generalize whole : word ++ text = full at other
      cases other with
      | stop short =>
          rw [← whole] at short
          omega
      | pass _ absent _ => exact absurd ⟨text, whole⟩ (absent word listed)
      | @word second behind _ _ _ isListed isLongest after =>
          have below := longest second isListed ⟨behind, whole.symm⟩
          have above := isLongest word listed ⟨text, whole⟩
          obtain ⟨rfl, rfl⟩ := List.append_inj whole (Nat.le_antisymm above below)
          obtain ⟨rfl, rfl⟩ := ih after
          exact ⟨rfl, rfl⟩

end Masking
