import Mathlib.Data.List.Chain
import EtlCraft.SqlLexemes

/-! The scanner reads a text as lexemes, and its parts are their grouping. A reading is cut where
code stands before a separator, and continued by a separator after a part that is closed. -/

namespace EtlCraft

namespace SqlTexts

variable {alphabet : Alphabet} {isToken : List Char → List Char → Option Nat → Bool}
variable {previous : Option Char} {text rest : List Char} {lexemes : List Part}

def flat (lexemes : List Part) : List Char := lexemes.flatMap Prod.fst

/-- One step of the scan before `rest`: a protected part, or a character of code. -/
structure Lexeme (alphabet : Alphabet) (isToken : List Char → List Char → Option Nat → Bool)
    (previous : Option Char) (part : Part) (rest : List Char) : Prop where
  some_ : part.1 ≠ []
  length : protectedLength alphabet isToken previous (part.1 ++ rest) =
    if part.2 then part.1.length else 0
  single : part.2 = false → part.1.length = 1

def Reads (alphabet : Alphabet) (isToken : List Char → List Char → Option Nat → Bool) :
    Option Char → List Part → List Char → Prop
  | _, [], _ => True
  | previous, part :: lexemes, rest =>
      Lexeme alphabet isToken previous part (flat lexemes ++ rest) ∧
        Reads alphabet isToken part.1.getLast? lexemes rest

@[simp] theorem flat_nil : flat [] = [] := rfl

@[simp] theorem flat_cons (part : Part) (lexemes : List Part) :
    flat (part :: lexemes) = part.1 ++ flat lexemes := rfl

@[simp] theorem flat_append (first second : List Part) :
    flat (first ++ second) = flat first ++ flat second := List.flatMap_append

def after (previous : Option Char) (lexemes : List Part) : Option Char :=
  (flat lexemes).getLast?.or previous

theorem after_cons {part : Part} (some_ : part.1 ≠ []) :
    after previous (part :: lexemes) = after part.1.getLast? lexemes := by
  obtain ⟨last, isLast⟩ := Option.isSome_iff_exists.mp (List.getLast?_isSome.mpr some_)
  simp [after, List.getLast?_append, isLast]

theorem reads_append {first second : List Part} : Reads alphabet isToken previous (first ++ second) rest ↔
    Reads alphabet isToken previous first (flat second ++ rest) ∧
      Reads alphabet isToken (after previous first) second rest := by
  induction first generalizing previous with
  | nil => simp [Reads, after]
  | cons part first ih =>
      simp only [List.cons_append, Reads, flat_append, ih, List.append_assoc, and_assoc]
      refine and_congr_right fun lexeme => ?_
      rw [after_cons lexeme.some_]

theorem exists_reading (isToken : List Char → List Char → Option Nat → Bool)
    (previous : Option Char) (text : List Char) :
    ∃ lexemes, flat lexemes = text ∧ Reads alphabet isToken previous lexemes [] := by
  induction size : text.length using Nat.strong_induction_on generalizing previous text with
  | _ count ih =>
    cases text with
    | nil => exact ⟨[], rfl, trivial⟩
    | cons char text =>
        rw [List.length_cons] at size
        have fits := @protectedLength_le alphabet isToken previous (char :: text)
        cases isPart : protectedLength alphabet isToken previous (char :: text) with
        | zero =>
            obtain ⟨lexemes, same, reads⟩ := ih text.length (by omega) (some char) text rfl
            refine ⟨([char], false) :: lexemes, by rw [flat_cons, same]; rfl, ⟨by simp, ?_, by simp⟩,
              reads⟩
            rw [same, List.append_nil]
            exact isPart
        | succ length =>
            rw [isPart, List.length_cons] at fits
            have whole := List.take_append_drop (length + 1) (char :: text)
            have taken : ((char :: text).take (length + 1)).length = length + 1 := by
              rw [List.length_take, List.length_cons]
              omega
            obtain ⟨lexemes, same, reads⟩ := ih ((char :: text).drop (length + 1)).length
              (by rw [List.length_drop, List.length_cons]; omega)
              ((char :: text).take (length + 1)).getLast? _ rfl
            refine ⟨((char :: text).take (length + 1), true) :: lexemes, by rw [flat_cons, same, whole],
              ⟨?_, ?_, by simp⟩, reads⟩
            · exact List.ne_nil_of_length_eq_add_one taken
            · rw [same, List.append_nil, whole, isPart, if_pos rfl, taken]

def grouped : List Char → List Part → List Part
  | code, [] => codePart code
  | code, (part, false) :: lexemes => grouped (code ++ part) lexemes
  | code, (part, true) :: lexemes => codePart code ++ (part, true) :: grouped [] lexemes

theorem partsLoop_reads {turns : Nat} {code : List Char}
    (reads : Reads alphabet isToken previous lexemes []) (enough : (flat lexemes).length ≤ turns) :
    partsLoop alphabet isToken turns previous code (flat lexemes) = grouped code lexemes := by
  induction lexemes generalizing turns previous code with
  | nil => cases turns <;> rfl
  | cons part lexemes ih =>
      obtain ⟨lexeme, more⟩ := reads
      obtain ⟨part, isPart⟩ := part
      obtain ⟨char, others, rfl⟩ := List.exists_cons_of_ne_nil lexeme.some_
      have length := lexeme.length
      rw [List.append_nil] at length
      simp only [flat_cons, List.cons_append, List.length_cons, List.length_append] at enough length
      cases turns with
      | zero => omega
      | succ turns =>
          simp only [flat_cons, List.cons_append]
          rw [partsLoop, length]
          cases isPart with
          | false =>
              have single := lexeme.single rfl
              rw [List.length_cons] at single
              obtain rfl := List.length_eq_zero_iff.mp (by omega : others.length = 0)
              exact ih more (by omega)
          | true =>
              rw [if_pos rfl]
              dsimp only
              rw [← List.cons_append, ← List.length_cons (a := char), List.take_left, List.drop_left,
                ih more (by omega)]
              rfl

theorem grouped_flat (code : List Char) (lexemes : List Part) :
    flat (grouped code lexemes) = code ++ flat lexemes := by
  fun_induction grouped code lexemes with
  | case1 code => cases code <;> simp [codePart]
  | case2 code part lexemes ih => simp [ih]
  | case3 code part lexemes ih => cases code <;> simp [codePart, ih]

theorem grouped_some {code : List Char} (some_ : ∀ part ∈ lexemes, part.1 ≠ []) :
    ∀ part ∈ grouped code lexemes, part.1 ≠ [] := by
  have codes : ∀ code : List Char, ∀ part ∈ codePart code, part.1 ≠ [] := by
    intro code part member
    cases code with
    | nil => cases member
    | cons char code =>
        rw [List.mem_singleton.mp member]
        exact List.cons_ne_nil char code
  fun_induction grouped code lexemes with
  | case1 code => exact codes code
  | case2 code part lexemes ih => exact ih fun other member => some_ other (List.mem_cons_of_mem _ member)
  | case3 code part lexemes ih =>
      intro other member
      rcases List.mem_append.mp member with inCode | inRest
      · exact codes code other inCode
      · rcases List.mem_cons.mp inRest with rfl | further
        · exact some_ _ List.mem_cons_self
        · exact ih (fun more isMore => some_ more (List.mem_cons_of_mem _ isMore)) other further

def Apart (first second : Part) : Prop := first.2 = true ∨ second.2 = true

theorem grouped_apart (code : List Char) (lexemes : List Part) :
    (grouped code lexemes).IsChain Apart := by
  fun_induction grouped code lexemes with
  | case1 code => cases code <;> simp [codePart]
  | case2 code part lexemes ih => exact ih
  | case3 code part lexemes ih =>
      have chained : ((part, true) :: grouped [] lexemes).IsChain Apart := by
        rw [List.isChain_cons]
        exact ⟨fun _ _ => Or.inl rfl, ih⟩
      cases code with
      | nil => exact chained
      | cons char code =>
          rw [codePart, if_neg (List.cons_ne_nil char code), List.singleton_append, List.isChain_cons]
          refine ⟨?_, chained⟩
          rintro other ⟨⟩
          exact Or.inr rfl

theorem reads_some (reads : Reads alphabet isToken previous lexemes rest) :
    ∀ part ∈ lexemes, part.1 ≠ [] := by
  induction lexemes generalizing previous with
  | nil => exact fun _ member => nomatch member
  | cons part lexemes ih =>
      obtain ⟨lexeme, more⟩ := reads
      intro other member
      rcases List.mem_cons.mp member with rfl | further
      · exact lexeme.some_
      · exact ih more other further

theorem sqlParts_whole (alphabet : Alphabet) (placeholders : Bool) (sql : List Char) :
    flat (sqlParts alphabet placeholders sql) = sql ∧
      (∀ part ∈ sqlParts alphabet placeholders sql, part.1 ≠ []) ∧
      (sqlParts alphabet placeholders sql).IsChain Apart ∧
      ∀ turns, sql.length ≤ turns → partsLoop alphabet
        (if placeholders then placeholder alphabet else fun _ _ _ => false) turns none [] sql =
          sqlParts alphabet placeholders sql := by
  obtain ⟨lexemes, rfl, reads⟩ := @exists_reading alphabet
    (if placeholders then placeholder alphabet else fun _ _ _ => false) none sql
  have parts : ∀ turns, (flat lexemes).length ≤ turns → partsLoop alphabet
      (if placeholders then placeholder alphabet else fun _ _ _ => false) turns none []
        (flat lexemes) = grouped [] lexemes := fun turns enough => partsLoop_reads reads enough
  have same : sqlParts alphabet placeholders (flat lexemes) = grouped [] lexemes := by
    rw [← parts _ le_rfl]
    unfold sqlParts plainParts
    cases placeholders <;> rfl
  rw [same]
  exact ⟨grouped_flat [] lexemes, grouped_some (reads_some reads), grouped_apart [] lexemes, parts⟩

/-! Readings without placeholders. -/

abbrev plain : List Char → List Char → Option Nat → Bool := fun _ _ _ => false

theorem Lexeme.guarded {part : Part} (lexeme : Lexeme alphabet plain previous part rest) :
    guarded alphabet previous (part.1 ++ rest) = if part.2 then part.1.length else 0 := lexeme.length

theorem Lexeme.within {part : Part} (lexeme : Lexeme alphabet plain previous part rest) :
    SqlTexts.guarded alphabet previous (part.1 ++ rest) ≤ part.1.length := by
  rw [lexeme.guarded]
  split <;> omega

theorem Reads.cut (reads : Reads alphabet plain previous lexemes rest)
    (separated : Separated alphabet rest) : Reads alphabet plain previous lexemes [] := by
  induction lexemes generalizing previous with
  | nil => trivial
  | cons part lexemes ih =>
      obtain ⟨lexeme, more⟩ := reads
      refine ⟨⟨lexeme.some_, ?_, lexeme.single⟩, ih more⟩
      rw [← lexeme.length, List.append_nil, ← List.append_assoc]
      have within := lexeme.within
      rw [← List.append_assoc] at within
      have some_ : part.1 ++ flat lexemes ≠ [] := by simp [lexeme.some_]
      have longer : part.1.length ≤ (part.1 ++ flat lexemes).length := by simp
      rcases @guarded_append alphabet previous _ some_ with shut | commented | ⟨_, unclosed⟩
      · exact (shut rest separated).symm
      · have whole := @commented_append alphabet previous _ commented []
        have further := @commented_append alphabet previous _ commented rest
        rw [List.append_nil] at whole
        simp only [List.takeWhile_nil, List.length_nil] at whole
        have same : SqlTexts.guarded alphabet previous (part.1 ++ flat lexemes) =
            SqlTexts.guarded alphabet previous (part.1 ++ flat lexemes ++ rest) := by omega
        exact same
      · by_cases none_ : rest = []
        · rw [none_, List.append_nil]
        · have := unclosed rest separated none_
          omega

theorem Reads.continue (reads : Reads alphabet plain previous lexemes [])
    (separated : Separated alphabet rest) :
    Reads alphabet plain previous lexemes rest ∨
    ∃ front last, lexemes = front ++ [(last, true)] ∧
      Reads alphabet plain previous front (last ++ rest) ∧
      last.length < guarded alphabet (after previous front) (last ++ rest) ∧
      (Commented last ∨ Unclosed alphabet (after previous front) last) := by
  induction lexemes generalizing previous with
  | nil => exact Or.inl trivial
  | cons part lexemes ih =>
      obtain ⟨lexeme, more⟩ := reads
      have length := lexeme.guarded
      rw [List.append_nil] at length
      have some_ : part.1 ++ flat lexemes ≠ [] := by simp [lexeme.some_]
      -- a part that reaches the end of the text is the only lexeme
      have only : guarded alphabet previous (part.1 ++ flat lexemes) =
          (part.1 ++ flat lexemes).length → part.2 = true ∧ lexemes = [] := by
        intro whole
        rw [whole, List.length_append] at length
        have positive := List.length_pos_iff.mpr lexeme.some_
        cases isPart : part.2 with
        | false =>
            rw [isPart, if_neg Bool.false_ne_true] at length
            omega
        | true =>
            rw [isPart, if_pos rfl] at length
            refine ⟨rfl, List.eq_nil_iff_forall_not_mem.mpr fun other member => ?_⟩
            have empty : flat lexemes = [] := List.length_eq_zero_iff.mp (by omega)
            exact reads_some more other member (List.flatMap_eq_nil_iff.mp empty other member)
      have atEnd : ∀ whole : guarded alphabet previous (part.1 ++ flat lexemes) =
          (part.1 ++ flat lexemes).length,
          (Commented (part.1 ++ flat lexemes) ∨
            Unclosed alphabet previous (part.1 ++ flat lexemes)) →
          Reads alphabet plain previous (part :: lexemes) rest ∨
          ∃ front last, part :: lexemes = front ++ [(last, true)] ∧
            Reads alphabet plain previous front (last ++ rest) ∧
            last.length < guarded alphabet (after previous front) (last ++ rest) ∧
            (Commented last ∨ Unclosed alphabet (after previous front) last) := by
        intro whole kind
        obtain ⟨isPart, rfl⟩ := only whole
        rw [flat_nil, List.append_nil] at kind whole
        obtain ⟨text, flag⟩ := part
        obtain rfl : flag = true := isPart
        dsimp only at kind whole
        by_cases beyond : text.length < guarded alphabet previous (text ++ rest)
        · exact Or.inr ⟨[], text, rfl, trivial, beyond, kind⟩
        · refine Or.inl ⟨⟨lexeme.some_, ?_, lexeme.single⟩, trivial⟩
          have reached : text.length ≤ guarded alphabet previous (text ++ rest) := by
            rcases kind with commented | unclosed
            · rw [commented_append commented]
              omega
            · by_cases none_ : rest = []
              · rw [none_, List.append_nil, whole]
              · exact (unclosed.2 rest separated none_).le
          have same : guarded alphabet previous (text ++ rest) = text.length := by omega
          exact same
      rcases @guarded_append alphabet previous _ some_ with shut | commented | unclosed
      · have here : Lexeme alphabet plain previous part (flat lexemes ++ rest) := by
          refine ⟨lexeme.some_, ?_, lexeme.single⟩
          rw [← length, ← List.append_assoc]
          exact shut rest separated
        rcases ih more with continued | ⟨front, last, rfl, before, beyond, kind⟩
        · exact Or.inl ⟨here, continued⟩
        · refine Or.inr ⟨part :: front, last, rfl, ⟨?_, before⟩, ?_, ?_⟩
          · simpa using here
          · rwa [after_cons lexeme.some_]
          · rwa [after_cons lexeme.some_]
      · have whole := @commented_append alphabet previous _ commented []
        rw [List.append_nil] at whole
        exact atEnd (by simpa using whole) (Or.inl commented)
      · exact atEnd unclosed.1 (Or.inr unclosed)

theorem Reads.unique {others : List Part} (first : Reads alphabet isToken previous lexemes rest)
    (second : Reads alphabet isToken previous others rest) (same : flat lexemes = flat others) :
    lexemes = others := by
  induction lexemes generalizing previous others with
  | nil =>
      cases others with
      | nil => rfl
      | cons part others =>
          simp only [flat_nil, flat_cons, List.nil_eq, List.append_eq_nil_iff] at same
          exact absurd same.1 second.1.some_
  | cons part lexemes ih =>
      cases others with
      | nil =>
          simp only [flat_nil, flat_cons, List.append_eq_nil_iff] at same
          exact absurd same.1 first.1.some_
      | cons other others =>
          obtain ⟨here, more⟩ := first
          obtain ⟨there, further⟩ := second
          simp only [flat_cons] at same
          have lengths := here.length
          rw [← List.append_assoc, same, List.append_assoc, there.length] at lengths
          have herePositive := List.length_pos_iff.mpr here.some_
          have therePositive := List.length_pos_iff.mpr there.some_
          have hereSingle := here.single
          have thereSingle := there.single
          obtain ⟨part, isPart⟩ := part
          obtain ⟨other, isOther⟩ := other
          have equal : isPart = isOther ∧ part.length = other.length := by
            cases isPart <;> cases isOther <;> simp_all
          obtain ⟨rfl, size⟩ := equal
          obtain ⟨rfl, flats⟩ := List.append_inj same size
          rw [ih more further flats]

end SqlTexts

end EtlCraft
