import EtlCraft.SqlReadings

/-! A script split into statements: each is scanned as it was in the script, nothing quoted is lost,
and splitting what was split and joined again returns the same statements. -/

namespace EtlCraft

namespace SqlTexts

def isComment (part : List Char) : Bool :=
  [['-', '-'], ['/', '*']].any (·.isPrefixOf part)

def isOnlyComments (alphabet : Alphabet) (statement : List Char) : Bool :=
  (plainParts alphabet statement).all fun part =>
    (part.2 && isComment part.1) || (strip alphabet part.1).isEmpty

/-- A turn of `split_statements`: the statements so far and the current one. -/
def takePart (state : List (List Char) × List Char) (part : Part) : List (List Char) × List Char :=
  if part.2 then (state.1, state.2 ++ part.1)
  else
    match part.1.splitOn ';' with
    | [] => state
    | first :: pieces =>
        pieces.foldl (fun state piece => (state.1 ++ [state.2], piece)) (state.1, state.2 ++ first)

def splitStatements (alphabet : Alphabet) (sqlText : List Char) : List (List Char) :=
  let state := (plainParts alphabet sqlText).foldl takePart ([], [])
  ((state.1 ++ [state.2]).filter fun statement => !isOnlyComments alphabet statement).map
    (strip alphabet)

variable {alphabet : Alphabet} {previous : Option Char} {text rest : List Char}
variable {lexemes : List Part}

/-! Statements are the pieces between the semicolons of the code. -/

def marked (parts : List Part) : List (Char × Bool) :=
  parts.flatMap fun part => part.1.map (·, part.2)

def pieces : List Char → List (Char × Bool) → List (List Char)
  | current, [] => [current]
  | current, (char, isPart) :: more =>
      if char = ';' ∧ isPart = false then current :: pieces [] more
      else pieces (current ++ [char]) more

theorem pieces_part (current part : List Char) (more : List (Char × Bool)) :
    pieces current (part.map (·, true) ++ more) = pieces (current ++ part) more := by
  induction part generalizing current with
  | nil => simp
  | cons char part ih =>
      rw [List.map_cons, List.cons_append, pieces, if_neg (by simp), ih, List.append_assoc]
      rfl

theorem takePart_code (done : List (List Char)) (current code : List Char)
    (more : List (Char × Bool)) :
    (takePart (done, current) (code, false)).1 ++
        pieces (takePart (done, current) (code, false)).2 more =
      done ++ pieces current (code.map (·, false) ++ more) := by
  unfold takePart
  rw [if_neg Bool.false_ne_true]
  induction code generalizing done current with
  | nil => simp [List.splitOn]
  | cons char code ih =>
      obtain ⟨first, others, parts⟩ := List.exists_cons_of_ne_nil (List.splitOn_ne_nil ';' code)
      rw [parts] at ih
      rw [List.map_cons, List.cons_append, pieces]
      by_cases semicolon : char = ';'
      · have split : (char :: code).splitOn ';' = [] :: first :: others := by
          rw [← parts]
          simp [List.splitOn, List.splitOnP_cons_eq_if_modifyHead, semicolon]
        rw [split, if_pos ⟨semicolon, rfl⟩]
        have step := ih (done ++ [current]) []
        simp only [List.nil_append, List.append_assoc, List.cons_append, List.foldl_cons,
          List.append_nil] at step ⊢
        exact step
      · have split : (char :: code).splitOn ';' = (char :: first) :: others := by
          have modified : (char :: code).splitOn ';' = (code.splitOn ';').modifyHead (char :: ·) := by
            simp [List.splitOn, List.splitOnP_cons_eq_if_modifyHead, semicolon]
          rw [modified, parts]
          rfl
        rw [split, if_neg fun both => semicolon both.1]
        have step := ih done (current ++ [char])
        simp only [List.append_assoc, List.cons_append, List.nil_append] at step ⊢
        exact step

theorem takePart_pieces (done : List (List Char)) (current : List Char) (parts : List Part) :
    (parts.foldl takePart (done, current)).1 ++ [(parts.foldl takePart (done, current)).2] =
      done ++ pieces current (marked parts) := by
  induction parts generalizing done current with
  | nil => rfl
  | cons part parts ih =>
      obtain ⟨part, isPart⟩ := part
      rw [List.foldl_cons, ih]
      cases isPart with
      | false => exact takePart_code done current part (marked parts)
      | true =>
          have step := pieces_part current part (marked parts)
          exact congrArg (done ++ ·) step.symm

theorem grouped_marked (code : List Char) (lexemes : List Part) :
    marked (grouped code lexemes) = code.map (·, false) ++ marked lexemes := by
  fun_induction grouped code lexemes with
  | case1 code => cases code <;> simp [codePart, marked]
  | case2 code part lexemes ih =>
      rw [ih, List.map_append, List.append_assoc]
      rfl
  | case3 code part lexemes ih =>
      simp only [marked] at ih
      cases code <;> simp [codePart, marked, ih]

theorem plainParts_reads (reads : Reads alphabet plain none lexemes []) :
    plainParts alphabet (flat lexemes) = grouped [] lexemes :=
  partsLoop_reads reads le_rfl

theorem splitStatements_reads (reads : Reads alphabet plain none lexemes []) :
    splitStatements alphabet (flat lexemes) =
      ((pieces [] (marked lexemes)).filter fun statement => !isOnlyComments alphabet statement).map
        (strip alphabet) := by
  have split := takePart_pieces [] [] (grouped [] lexemes)
  rw [grouped_marked] at split
  simp only [List.map_nil, List.nil_append] at split
  unfold splitStatements
  rw [plainParts_reads reads, ← split]

/-! The lexemes of a piece. -/

abbrev semi : Part := ([';'], false)

def groups : List Part → List Part → List (List Part)
  | group, [] => [group]
  | group, part :: lexemes =>
      if part = semi then group :: groups [] lexemes else groups (group ++ [part]) lexemes

theorem groups_some (group lexemes : List Part) : groups group lexemes ≠ [] := by
  fun_induction groups group lexemes with
  | case1 => exact List.cons_ne_nil _ _
  | case2 => exact List.cons_ne_nil _ _
  | case3 group part lexemes _ ih => exact ih

theorem pieces_groups (group : List Part)
    (single : ∀ part ∈ lexemes, part.2 = false → part.1.length = 1) :
    pieces (flat group) (marked lexemes) = (groups group lexemes).map flat := by
  induction lexemes generalizing group with
  | nil => rfl
  | cons part lexemes ih =>
      have more := fun group => ih group fun other member => single other (List.mem_cons_of_mem _ member)
      obtain ⟨part, isPart⟩ := part
      rw [groups]
      cases isPart with
      | true =>
          rw [if_neg (by simp)]
          have step := pieces_part (flat group) part (marked lexemes)
          have next := more (group ++ [(part, true)])
          simp only [flat_append, flat_cons, flat_nil, List.append_nil] at next
          rw [← next, ← step]
          rfl
      | false =>
          obtain ⟨char, rfl⟩ := List.length_eq_one_iff.mp
            (single (part, false) List.mem_cons_self rfl)
          have step : pieces (flat group) (marked (([char], false) :: lexemes)) =
              if char = ';' then flat group :: pieces [] (marked lexemes)
              else pieces (flat group ++ [char]) (marked lexemes) := by
            simp [marked, pieces]
          rw [step]
          by_cases semicolon : char = ';'
          · rw [if_pos semicolon, if_pos (by rw [semicolon]), List.map_cons]
            have next := more []
            rw [flat_nil] at next
            rw [next]
          · rw [if_neg semicolon, if_neg (by simp [semicolon])]
            have next := more (group ++ [([char], false)])
            simp only [flat_append, flat_cons, flat_nil, List.append_nil] at next
            exact next

/-! White space and semicolons are code, and what comes before a text hardly matters to it. -/

theorem guarded_separator {char : Char} (separator : char = ';' ∨ alphabet.isSpace char = true)
    (text : List Char) : guarded alphabet previous (char :: text) = 0 := by
  have marks := (separated_marks separator).1
  refine guarded_code ?_ (fun same => marks (by simp [same])) ?_ ?_
  · rintro (same | same | same) <;> exact marks (by simp [same])
  · rintro _ same _
    exact marks (by simp [same])
  · rintro _ same _
    exact marks (by simp [same])

def Mild (previous : Option Char) : Prop := previous ≠ some 'E' ∧ previous ≠ some 'e'

theorem guarded_mild (mild : Mild previous) (text : List Char) :
    guarded alphabet previous text = guarded alphabet none text := by
  have same : ∀ quote rest, endOfStringLiteral previous quote rest =
      endOfStringLiteral none quote rest := by
    intro quote rest
    simp [endOfStringLiteral, mild.1, mild.2]
  unfold guarded protectedLength
  simp only [same]

theorem reads_mild (mild : Mild previous) :
    Reads alphabet plain previous lexemes rest ↔ Reads alphabet plain none lexemes rest := by
  cases lexemes with
  | nil => exact Iff.rfl
  | cons part lexemes =>
      refine and_congr_left fun _ => ?_
      constructor
      · intro lexeme
        refine ⟨lexeme.some_, ?_, lexeme.single⟩
        have length := lexeme.guarded
        rwa [guarded_mild mild] at length
      · intro lexeme
        refine ⟨lexeme.some_, ?_, lexeme.single⟩
        have length := lexeme.guarded
        rwa [← guarded_mild mild] at length

theorem mild_separator {char : Char} (separator : char = ';' ∨ alphabet.isSpace char = true) :
    Mild (some char) := by
  have marks := (separated_marks separator).1
  constructor
  · exact fun same => marks (by simp [Option.some.inj same])
  · exact fun same => marks (by simp [Option.some.inj same])

def codes (code : List Char) : List Part := code.map fun char => ([char], false)

@[simp] theorem flat_codes (code : List Char) : flat (codes code) = code := by
  induction code with
  | nil => rfl
  | cons char code ih => exact congrArg (char :: ·) ih

theorem reads_codes {code : List Char}
    (separators : ∀ char ∈ code, char = ';' ∨ alphabet.isSpace char = true) (mild : Mild previous) :
    Reads alphabet plain previous (codes code ++ lexemes) rest ↔
      Reads alphabet plain none lexemes rest := by
  induction code generalizing previous with
  | nil => exact reads_mild mild
  | cons char code ih =>
      have separator := separators char List.mem_cons_self
      have lexeme : Lexeme alphabet plain previous ([char], false)
          (flat (codes code ++ lexemes) ++ rest) :=
        ⟨by simp, guarded_separator separator _, fun _ => rfl⟩
      have more := @ih (some char)
        (fun other member => separators other (List.mem_cons_of_mem char member))
        (mild_separator separator)
      exact (and_iff_right lexeme).trans more

theorem reads_separators {code : List Char}
    (separators : ∀ char ∈ code, char = ';' ∨ alphabet.isSpace char = true) :
    Reads alphabet plain previous (codes code) rest := by
  induction code generalizing previous with
  | nil => trivial
  | cons char code ih =>
      refine ⟨⟨by simp, guarded_separator (separators char List.mem_cons_self) _, fun _ => rfl⟩, ?_⟩
      exact ih fun other member => separators other (List.mem_cons_of_mem char member)

theorem reads_codes_cons {char : Char} {code : List Char}
    (separators : ∀ other ∈ char :: code, other = ';' ∨ alphabet.isSpace other = true) :
    Reads alphabet plain previous (codes (char :: code) ++ lexemes) rest ↔
      Reads alphabet plain none lexemes rest := by
  have separator := separators char List.mem_cons_self
  have lexeme : Lexeme alphabet plain previous ([char], false)
      (flat (codes code ++ lexemes) ++ rest) :=
    ⟨by simp, guarded_separator separator _, fun _ => rfl⟩
  have more := @reads_codes alphabet (some char) rest lexemes code
    (fun other member => separators other (List.mem_cons_of_mem char member))
    (mild_separator separator)
  exact (and_iff_right lexeme).trans more

theorem mild_none : Mild none := ⟨nofun, nofun⟩

def SemiFree (lexemes : List Part) : Prop := semi ∉ lexemes

def Grouped (alphabet : Alphabet) : List (List Part) → Prop
  | [] => True
  | group :: more =>
      (if more = [] then Reads alphabet plain none group []
        else ∃ rest, Reads alphabet plain none group (';' :: rest)) ∧
      SemiFree group ∧ Grouped alphabet more

theorem groups_grouped {group : List Part} (before : Reads alphabet plain none group (flat lexemes))
    (semiFree : SemiFree group) (reads : Reads alphabet plain (after none group) lexemes []) :
    Grouped alphabet (groups group lexemes) := by
  induction lexemes generalizing group with
  | nil => exact ⟨before, semiFree, trivial⟩
  | cons part lexemes ih =>
      rw [groups]
      split
      · rename_i isSemi
        subst isSemi
        refine ⟨?_, semiFree, ih trivial List.not_mem_nil ?_⟩
        · rw [if_neg (groups_some [] lexemes)]
          exact ⟨flat lexemes, before⟩
        · exact (reads_mild (@mild_separator alphabet _ (Or.inl rfl))).mp reads.2
      · rename_i notSemi
        obtain ⟨lexeme, more⟩ := reads
        refine ih ?_ ?_ ?_
        · rw [reads_append]
          refine ⟨?_, ⟨by simpa using lexeme, trivial⟩⟩
          simpa using before
        · intro member
          rcases List.mem_append.mp member with old | new
          · exact semiFree old
          · exact notSemi (List.mem_singleton.mp new).symm
        · have same : after none (group ++ [part]) = part.1.getLast? := by
            obtain ⟨last, isLast⟩ := Option.isSome_iff_exists.mp
              (List.getLast?_isSome.mpr lexeme.some_)
            simp [after, List.getLast?_append, isLast]
          rw [same]
          exact more

/-! A piece and its statement: white space around it is code, but its last part may reach into the
white space behind. -/

inductive Trimmed (alphabet : Alphabet) : List Part → List Part → Prop
  | whole (before behind : List Char) (lexemes : List Part)
      (spaces : ∀ char ∈ before ++ behind, alphabet.isSpace char = true) :
      Trimmed alphabet (codes before ++ (lexemes ++ codes behind)) lexemes
  | cut (before behind last extra : List Char) (front : List Part) (some_ : extra ≠ [])
      (spaces : ∀ char ∈ before ++ (extra ++ behind), alphabet.isSpace char = true) :
      Trimmed alphabet (codes before ++ (front ++ (last ++ extra, true) :: codes behind))
        (front ++ [(last, true)])

theorem strip_spaces (alphabet : Alphabet) (text : List Char) :
    ∃ before behind, text = before ++ (strip alphabet text ++ behind) ∧
      (∀ char ∈ before, alphabet.isSpace char = true) ∧
      ∀ char ∈ behind, alphabet.isSpace char = true := by
  refine ⟨text.takeWhile alphabet.isSpace,
    (text.dropWhile alphabet.isSpace).rtakeWhile alphabet.isSpace, ?_, ?_, ?_⟩
  · rw [strip, List.rdropWhile_append_rtakeWhile, List.takeWhile_append_dropWhile]
  · exact fun char member => List.mem_takeWhile_imp member
  · exact fun char member => List.mem_rtakeWhile_imp member

theorem trim_reading (reads : Reads alphabet plain none lexemes []) :
    ∃ trimmed, flat trimmed = strip alphabet (flat lexemes) ∧
      Reads alphabet plain none trimmed [] ∧ Trimmed alphabet lexemes trimmed := by
  obtain ⟨before, behind, parts, beforeSpaces, behindSpaces⟩ := strip_spaces alphabet (flat lexemes)
  obtain ⟨trimmed, same, reading⟩ :=
    @exists_reading alphabet plain none (strip alphabet (flat lexemes))
  have separators : ∀ {space : List Char}, (∀ char ∈ space, alphabet.isSpace char = true) →
      ∀ char ∈ space, char = ';' ∨ alphabet.isSpace char = true :=
    fun spaces char member => Or.inr (spaces char member)
  have separated : Separated alphabet behind := by
    have alone := @separated_space alphabet [] behind behindSpaces nofun
    rwa [List.append_nil] at alone
  refine ⟨trimmed, same, reading, ?_⟩
  rw [← same] at parts
  rcases reading.continue separated with continued | ⟨front, last, rfl, frontReads, beyond, _⟩
  · have whole : Reads alphabet plain none (codes before ++ (trimmed ++ codes behind)) [] := by
      rw [reads_codes (separators beforeSpaces) mild_none, reads_append]
      exact ⟨by simpa using continued, reads_separators (separators behindSpaces)⟩
    have equal := reads.unique whole (by rw [parts]; simp)
    rw [equal]
    exact Trimmed.whole before behind trimmed fun char member =>
      (List.mem_append.mp member).elim (beforeSpaces char) (behindSpaces char)
  · have within := @protectedLength_le alphabet plain (after none front) (last ++ behind)
    obtain ⟨count, isCount⟩ : ∃ count, guarded alphabet (after none front) (last ++ behind) =
        last.length + count := ⟨_, (Nat.add_sub_cancel' beyond.le).symm⟩
    have fits : count ≤ behind.length := by
      rw [List.length_append] at within
      have same : guarded alphabet (after none front) (last ++ behind) ≤
          last.length + behind.length := within
      omega
    have parted := List.take_append_drop count behind
    have extraLength : (behind.take count).length = count := List.length_take_of_le fits
    have some_ : behind.take count ≠ [] := by
      intro empty
      rw [empty] at extraLength
      simp only [List.length_nil] at extraLength
      omega
    generalize behind.take count = extra at *
    generalize behind.drop count = others at *
    subst parted
    have trailing : ∀ char ∈ others, alphabet.isSpace char = true :=
      fun char member => behindSpaces char (List.mem_append_right extra member)
    have whole : Reads alphabet plain none
        (codes before ++ (front ++ (last ++ extra, true) :: codes others)) [] := by
      rw [reads_codes (separators beforeSpaces) mild_none, reads_append]
      refine ⟨by simpa using frontReads, ⟨by simp [some_], ?_, nofun⟩,
        reads_separators (separators trailing)⟩
      simp only [flat_codes, List.append_nil, List.append_assoc, if_true, List.length_append,
        extraLength]
      exact isCount
    have equal := reads.unique whole (by rw [parts]; simp)
    rw [equal]
    exact Trimmed.cut before others last extra front some_ fun char member =>
      (List.mem_append.mp member).elim (beforeSpaces char) (behindSpaces char)

/-! What is said of a piece is said of its statement. -/

def remark (alphabet : Alphabet) (part : Part) : Bool :=
  (part.2 && isComment part.1) || part.1.all alphabet.isSpace

theorem strip_isEmpty (alphabet : Alphabet) (text : List Char) :
    (strip alphabet text).isEmpty = text.all alphabet.isSpace := by
  obtain ⟨before, behind, parts, beforeSpaces, behindSpaces⟩ := strip_spaces alphabet text
  rw [Bool.eq_iff_iff, List.isEmpty_iff, List.all_eq_true]
  constructor
  · intro empty char member
    rw [parts, empty, List.nil_append] at member
    exact (List.mem_append.mp member).elim (beforeSpaces char) (behindSpaces char)
  · intro spaces
    rw [strip, List.dropWhile_eq_nil_iff.mpr spaces]
    rfl

theorem grouped_remarks (code : List Char) (lexemes : List Part) :
    (grouped code lexemes).all (remark alphabet) =
      (code.all alphabet.isSpace && lexemes.all (remark alphabet)) := by
  fun_induction grouped code lexemes with
  | case1 code => cases code <;> simp [codePart, remark]
  | case2 code part lexemes ih => simp [ih, remark, Bool.and_assoc]
  | case3 code part lexemes ih => cases code <;> simp [codePart, remark, ih, Bool.and_assoc]

theorem isOnlyComments_reads (reads : Reads alphabet plain none lexemes []) :
    isOnlyComments alphabet (flat lexemes) = lexemes.all (remark alphabet) := by
  unfold isOnlyComments
  rw [plainParts_reads reads]
  simp only [strip_isEmpty]
  have all := @grouped_remarks alphabet [] lexemes
  rw [List.all_nil, Bool.true_and] at all
  exact all

def quoted (parts : List Part) : List (List Char) :=
  (parts.filter fun part => part.2 && !isComment part.1).map Prod.fst

theorem quoted_append (first second : List Part) :
    quoted (first ++ second) = quoted first ++ quoted second := by
  simp [quoted]

theorem quoted_grouped (code : List Char) (lexemes : List Part) :
    quoted (grouped code lexemes) = quoted lexemes := by
  have ofCode : ∀ code, quoted (codePart code) = [] := by
    intro code
    cases code <;> simp [codePart, quoted]
  fun_induction grouped code lexemes with
  | case1 code => exact ofCode code
  | case2 code part lexemes ih =>
      rw [ih]
      simp [quoted]
  | case3 code part lexemes ih =>
      rw [quoted_append, ofCode, List.nil_append, ← List.singleton_append, quoted_append, ih,
        ← quoted_append]
      rfl

theorem quoted_codes (code : List Char) : quoted (codes code) = [] := by
  simp [quoted, codes]

theorem lexeme_head {part : List Char} (lexeme : Lexeme alphabet plain previous (part, true) rest) :
    ∃ char more, part = char :: more ∧ ¬(char = ';' ∨ alphabet.isSpace char = true) := by
  obtain ⟨char, more, rfl⟩ := List.exists_cons_of_ne_nil lexeme.some_
  refine ⟨char, more, rfl, fun separator => ?_⟩
  have length := lexeme.guarded
  rw [List.cons_append, guarded_separator separator] at length
  cases length

theorem isComment_append {part extra : List Char} (some_ : part ≠ [])
    (spaces : ∀ char ∈ extra, alphabet.isSpace char = true) :
    isComment (part ++ extra) = isComment part := by
  obtain ⟨first, more, rfl⟩ := List.exists_cons_of_ne_nil some_
  cases more with
  | cons second more => simp [isComment, List.isPrefixOf]
  | nil =>
      cases extra with
      | nil => rfl
      | cons head extra =>
          have marks := (separated_marks (Or.inr (spaces head List.mem_cons_self))).1
          have notDash : head ≠ '-' := fun same => marks (by simp [same])
          have notStar : head ≠ '*' := fun same => marks (by simp [same])
          simp [isComment, List.isPrefixOf, notDash.symm, notStar.symm]

theorem remark_append {part extra : List Char}
    (lexeme : Lexeme alphabet plain previous (part, true) rest)
    (spaces : ∀ char ∈ extra, alphabet.isSpace char = true) :
    remark alphabet (part ++ extra, true) = remark alphabet (part, true) := by
  obtain ⟨char, more, rfl, apart⟩ := lexeme_head lexeme
  have notSpace : alphabet.isSpace char = false := by simpa using (not_or.mp apart).2
  unfold remark
  rw [isComment_append (List.cons_ne_nil char more) spaces]
  simp [notSpace]

theorem spaced_line {part extra : List Char} (some_ : part ≠ [])
    (lexeme : Lexeme alphabet plain previous (part ++ extra, true) rest) (follows : rest ≠ [])
    (wide : extra ≠ []) (spaces : ∀ char ∈ extra, alphabet.isSpace char = true) :
    ∃ more, part = '-' :: '-' :: more := by
  have length := lexeme.guarded
  rw [if_pos rfl] at length
  have positive := List.length_pos_iff.mpr lexeme.some_
  have followed := List.length_pos_iff.mpr follows
  dsimp only at length positive
  have some' : guarded alphabet previous (part ++ extra ++ rest) ≠ 0 := by omega
  have ends : guarded alphabet previous (part ++ extra ++ rest) < (part ++ extra ++ rest).length := by
    rw [length]
    simp only [List.length_append] at positive followed ⊢
    omega
  obtain ⟨last, isLast⟩ := Option.isSome_iff_exists.mp (List.getLast?_isSome.mpr wide)
  have lastSpace := spaces last (List.mem_of_getLast? isLast)
  rcases guarded_closer some' ends with ⟨more, dashes⟩ | ⟨mark, isMark, closes⟩
  · obtain ⟨first, others, rfl⟩ := List.exists_cons_of_ne_nil some_
    cases others with
    | cons second others =>
        simp only [List.cons_append, List.cons.injEq] at dashes
        exact ⟨others, by rw [dashes.1, dashes.2.1]⟩
    | nil =>
        obtain ⟨head, extra, rfl⟩ := List.exists_cons_of_ne_nil wide
        simp only [List.cons_append, List.nil_append, List.cons.injEq] at dashes
        have marks := (separated_marks (Or.inr (spaces head List.mem_cons_self))).1
        exact absurd (by simp [dashes.2.1]) marks
  · rw [length, List.take_left, List.getLast?_append, isLast, Option.some_or,
      Option.some.injEq] at closes
    have marks := (separated_marks (Or.inr lastSpace)).1
    refine absurd ?_ marks
    rw [closes]
    simp only [List.mem_cons, List.not_mem_nil, or_false] at isMark ⊢
    tauto

theorem Trimmed.remarks {group lexemes : List Part} (trimmed : Trimmed alphabet group lexemes)
    (reads : Reads alphabet plain none lexemes []) :
    group.all (remark alphabet) = lexemes.all (remark alphabet) := by
  have spaced : ∀ code : List Char, (∀ char ∈ code, alphabet.isSpace char = true) →
      (codes code).all (remark alphabet) = true := by
    intro code spaces
    simp [codes, remark]
    exact spaces
  cases trimmed with
  | whole before behind lexemes spaces =>
      rw [List.all_append, List.all_append,
        spaced before fun char member => spaces char (List.mem_append_left _ member),
        spaced behind fun char member => spaces char (List.mem_append_right _ member),
        Bool.true_and, Bool.and_true]
  | cut before behind last extra front some_ spaces =>
      obtain ⟨_, lexeme, _⟩ := reads_append.mp reads
      rw [List.all_append, List.all_append, List.all_cons, List.all_append, List.all_cons,
        spaced before fun char member => spaces char (by simp [member]),
        spaced behind fun char member => spaces char (by simp [member]),
        remark_append lexeme fun char member => spaces char (by simp [member])]
      simp

theorem Trimmed.semiFree {group lexemes : List Part} (trimmed : Trimmed alphabet group lexemes)
    (free : SemiFree group) : SemiFree lexemes := by
  intro member
  cases trimmed with
  | whole => exact free (by simp [member])
  | cut =>
      refine free ?_
      simp only [List.mem_append, List.mem_singleton, Prod.mk.injEq, Bool.false_eq_true, and_false,
        or_false] at member
      simp [member]

theorem cut_lexeme {before behind last extra : List Char} {front : List Part}
    (spaces : ∀ char ∈ before ++ (extra ++ behind), alphabet.isSpace char = true)
    (reads : Reads alphabet plain none
      (codes before ++ (front ++ (last ++ extra, true) :: codes behind)) rest) :
    Lexeme alphabet plain (after none front) (last ++ extra, true) (behind ++ rest) := by
  rw [reads_codes (fun char member => Or.inr (spaces char (by simp [member]))) mild_none,
    reads_append] at reads
  simpa using reads.2.1

theorem quoted_cut (before behind last : List Char) (front : List Part) :
    quoted (codes before ++ (front ++ (last, true) :: codes behind)) =
      quoted front ++ if isComment last then [] else [last] := by
  rw [quoted_append, quoted_append, ← List.singleton_append, quoted_append, quoted_codes,
    quoted_codes, List.nil_append, List.append_nil]
  cases isLast : isComment last <;> simp [quoted, isLast]

theorem Trimmed.quoted_inner {group lexemes : List Part} (trimmed : Trimmed alphabet group lexemes)
    (reads : Reads alphabet plain none lexemes [])
    (groupReads : Reads alphabet plain none group (';' :: rest)) :
    quoted group = quoted lexemes := by
  cases trimmed with
  | whole => simp [quoted_append, quoted_codes]
  | cut before behind last extra front some_ spaces =>
      obtain ⟨_, lexeme, _⟩ := reads_append.mp reads
      have extraSpaces : ∀ char ∈ extra, alphabet.isSpace char = true :=
        fun char member => spaces char (by simp [member])
      obtain ⟨more, rfl⟩ := spaced_line lexeme.some_ (cut_lexeme spaces groupReads) (by simp) some_
        extraSpaces
      have alone := quoted_cut [] [] ('-' :: '-' :: more) front
      have comment : isComment ('-' :: '-' :: more) = true := by simp [isComment, List.isPrefixOf]
      rw [quoted_cut, isComment_append (List.cons_ne_nil _ _) extraSpaces, comment, if_pos rfl]
      rw [comment, if_pos rfl] at alone
      exact alone.symm

theorem Trimmed.quoted_last {group lexemes : List Part} (trimmed : Trimmed alphabet group lexemes)
    (reads : Reads alphabet plain none lexemes []) (groupReads : Reads alphabet plain none group []) :
    quoted group = quoted lexemes ∨ ∃ front last extra, quoted group = front ++ [last ++ extra] ∧
      quoted lexemes = front ++ [last] ∧ (∀ char ∈ extra, alphabet.isSpace char = true) ∧
      last ++ extra <:+ flat group := by
  cases trimmed with
  | whole => exact Or.inl (by simp [quoted_append, quoted_codes])
  | cut before behind last extra front some_ spaces =>
      obtain ⟨_, lexeme, _⟩ := reads_append.mp reads
      have extraSpaces : ∀ char ∈ extra, alphabet.isSpace char = true :=
        fun char member => spaces char (by simp [member])
      have same : isComment (last ++ extra) = isComment last :=
        isComment_append lexeme.some_ extraSpaces
      have alone := quoted_cut [] [] last front
      have group' := quoted_cut before behind (last ++ extra) front
      rw [same] at group'
      cases comment : isComment last with
      | true =>
          rw [comment, if_pos rfl] at alone group'
          exact Or.inl (group'.trans alone.symm)
      | false =>
          rw [comment, if_neg Bool.false_ne_true] at alone group'
          refine Or.inr ⟨quoted front, last, extra, group', alone, extraSpaces, ?_⟩
          have ends : behind = [] := by
            by_contra follows
            obtain ⟨more, rfl⟩ := spaced_line lexeme.some_ (cut_lexeme spaces groupReads)
              (by simpa using follows) some_ extraSpaces
            simp [isComment, List.isPrefixOf] at comment
          rw [ends]
          exact ⟨before ++ flat front, by simp⟩

theorem Trimmed.shut {group lexemes : List Part} (trimmed : Trimmed alphabet group lexemes)
    (reads : Reads alphabet plain none lexemes [])
    (groupReads : Reads alphabet plain none group (';' :: rest)) (more : List Char) :
    Reads alphabet plain none lexemes ('\n' :: more) := by
  have lineEnd : Separated alphabet ('\n' :: more) := by
    rintro head ⟨⟩
    refine Or.inr ?_
    rw [alphabet.space_ascii _ (by decide)]
    decide
  rcases reads.continue lineEnd with continued | ⟨front, last, same, _, beyond, kind⟩
  · exact continued
  · exfalso
    have notCommented : ¬Commented last := by
      intro commented
      rw [commented_append commented] at beyond
      simp at beyond
    have unclosed := kind.resolve_left notCommented
    cases trimmed with
    | whole before behind _ spaces =>
        rw [reads_codes (fun char member => Or.inr (spaces char (by simp [member]))) mild_none,
          same, List.append_assoc, reads_append] at groupReads
        have lexeme := groupReads.2.1
        have length := lexeme.guarded
        simp only [List.append_eq, List.nil_append, flat_codes, if_true] at length
        have further := unclosed.2 (behind ++ ';' :: rest)
          (separated_space (fun char member => spaces char (by simp [member])) fun head isHead =>
            Or.inl (Option.some.inj isHead).symm) (by simp)
        omega
    | cut before behind last' extra front' some_ spaces =>
        obtain ⟨rfl, equal⟩ := List.append_inj' same rfl
        obtain rfl : last' = last := by simpa using equal
        obtain ⟨_, lexeme, _⟩ := reads_append.mp reads
        obtain ⟨dashed, rfl⟩ := spaced_line lexeme.some_ (cut_lexeme spaces groupReads) (by simp)
          some_ fun char member => spaces char (by simp [member])
        refine notCommented ⟨dashed, rfl, fun ended => ?_⟩
        have whole := unclosed.1
        have short := takeWhile_length ended
        rw [guarded_line] at whole
        simp only [List.length_cons] at whole
        omega

/-! The statements of a script, and of the script that they make. -/

theorem reads_lexeme (reads : Reads alphabet plain previous lexemes rest) {part : Part}
    (member : part ∈ lexemes) : ∃ before behind, Lexeme alphabet plain before part behind := by
  induction lexemes generalizing previous with
  | nil => cases member
  | cons first lexemes ih =>
      obtain ⟨lexeme, more⟩ := reads
      rcases List.mem_cons.mp member with rfl | further
      · exact ⟨_, _, lexeme⟩
      · exact ih more further

theorem quoted_remarks (reads : Reads alphabet plain none lexemes [])
    (remarks : lexemes.all (remark alphabet) = true) : quoted lexemes = [] := by
  unfold quoted
  rw [List.map_eq_nil_iff, List.filter_eq_nil_iff]
  intro part member isQuoted
  obtain ⟨part, isPart⟩ := part
  rw [Bool.and_eq_true, Bool.not_eq_true'] at isQuoted
  obtain rfl : isPart = true := isQuoted.1
  obtain ⟨before, behind, lexeme⟩ := reads_lexeme reads member
  obtain ⟨char, more, rfl, apart⟩ := lexeme_head lexeme
  have isRemark := List.all_eq_true.mp remarks _ member
  rw [remark, isQuoted.2] at isRemark
  simp [(not_or.mp apart).2] at isRemark

theorem strip_strip (alphabet : Alphabet) (text : List Char) :
    strip alphabet (strip alphabet text) = strip alphabet text := by
  have front : (strip alphabet text).dropWhile alphabet.isSpace = strip alphabet text := by
    cases same : strip alphabet text with
    | nil => rfl
    | cons char more =>
        obtain ⟨others, behind⟩ : strip alphabet text <+: text.dropWhile alphabet.isSpace :=
          List.rdropWhile_prefix _ _
        have head := List.head?_dropWhile_not alphabet.isSpace text
        rw [← behind, same] at head
        simp only [List.cons_append, List.head?_cons] at head
        exact List.dropWhile_cons_of_neg (by simpa using head)
  rw [strip, front]
  exact List.rdropWhile_idempotent alphabet.isSpace _

theorem strip_padded {before behind : List Char} (stripped : strip alphabet text = text)
    (some_ : text ≠ []) (beforeSpaces : ∀ char ∈ before, alphabet.isSpace char = true)
    (behindSpaces : ∀ char ∈ behind, alphabet.isSpace char = true) :
    strip alphabet (before ++ (text ++ behind)) = text := by
  have front : text.dropWhile alphabet.isSpace = text := by
    have prefix_ : text <+: text.dropWhile alphabet.isSpace := by
      have kept : strip alphabet text <+: text.dropWhile alphabet.isSpace :=
        List.rdropWhile_prefix _ _
      rwa [stripped] at kept
    exact (List.dropWhile_suffix alphabet.isSpace).eq_of_length
      (le_antisymm (List.dropWhile_suffix alphabet.isSpace).length_le prefix_.length_le)
  have end_ : text.rdropWhile alphabet.isSpace = text := by
    have kept := stripped
    rw [strip, front] at kept
    exact kept
  obtain ⟨char, more, rfl⟩ := List.exists_cons_of_ne_nil some_
  have notSpace : ¬alphabet.isSpace char = true := by
    intro isSpace
    have short := (List.dropWhile_suffix alphabet.isSpace (l := more)).length_le
    rw [List.dropWhile_cons_of_pos isSpace] at front
    rw [front, List.length_cons] at short
    omega
  rw [strip, List.dropWhile_append_of_pos beforeSpaces, List.cons_append,
    List.dropWhile_cons_of_neg notSpace, ← List.cons_append]
  rw [List.rdropWhile, List.reverse_append, List.dropWhile_append_of_pos
    fun other member => behindSpaces other (List.mem_reverse.mp member)]
  exact end_

structure Statement (alphabet : Alphabet) (lexemes : List Part) : Prop where
  reads : Reads alphabet plain none lexemes []
  free : SemiFree lexemes
  kept : lexemes.all (remark alphabet) = false
  stripped : strip alphabet (flat lexemes) = flat lexemes

def Statements (alphabet : Alphabet) : List (List Part) → Prop
  | [] => True
  | lexemes :: more => Statement alphabet lexemes ∧
      (more ≠ [] → ∀ rest, Reads alphabet plain none lexemes ('\n' :: rest)) ∧
      Statements alphabet more

/-- The quoted parts are kept, up to white space at the end of an unterminated one, which reaches to
the end of the text. -/
def QuotedKept (alphabet : Alphabet) (text : List Char) (parts kept : List (List Char)) : Prop :=
  parts = kept ∨ ∃ front last extra, parts = front ++ [last ++ extra] ∧ kept = front ++ [last] ∧
    (∀ char ∈ extra, alphabet.isSpace char = true) ∧ last ++ extra <:+ text

theorem QuotedKept.append {first parts kept : List (List Char)}
    (quotedKept : QuotedKept alphabet text parts kept) {longer : List Char}
    (suffix : text <:+ longer) : QuotedKept alphabet longer (first ++ parts) (first ++ kept) := by
  rcases quotedKept with rfl | ⟨front, last, extra, rfl, rfl, spaces, ends⟩
  · exact Or.inl rfl
  · exact Or.inr ⟨first ++ front, last, extra, by simp, by simp, spaces, ends.trans suffix⟩

theorem group_statement {group : List Part} (reads : Reads alphabet plain none group [])
    (free : SemiFree group) (kept : group.all (remark alphabet) = false) :
    ∃ lexemes, flat lexemes = strip alphabet (flat group) ∧ Statement alphabet lexemes ∧
      Trimmed alphabet group lexemes := by
  obtain ⟨lexemes, same, reading, trimmed⟩ := trim_reading reads
  refine ⟨lexemes, same, ⟨reading, trimmed.semiFree free, ?_, ?_⟩, trimmed⟩
  · rw [← trimmed.remarks reading, kept]
  · rw [same, strip_strip]

theorem separated_semicolon (text : List Char) : Separated alphabet (';' :: text) :=
  fun _ isHead => Or.inl (Option.some.inj isHead).symm

theorem groups_statements {list : List (List Part)} (grouped : Grouped alphabet list) :
    ∃ statements, ((list.map flat).filter fun piece => !isOnlyComments alphabet piece).map
        (strip alphabet) = statements.map flat ∧ Statements alphabet statements ∧
      QuotedKept alphabet ((list.map flat).getLast?.getD []) (list.flatMap quoted)
        (statements.flatMap quoted) := by
  induction list with
  | nil => exact ⟨[], rfl, trivial, Or.inl rfl⟩
  | cons group more ih =>
      obtain ⟨read, free, others⟩ := grouped
      obtain ⟨statements, texts, proper, kept⟩ := ih others
      have reads : Reads alphabet plain none group [] := by
        split at read
        · exact read
        · obtain ⟨rest, before⟩ := read
          exact before.cut (separated_semicolon rest)
      have last : more ≠ [] → (((group :: more).map flat).getLast?.getD []) =
          ((more.map flat).getLast?.getD []) := by
        intro some_
        obtain ⟨next, rest, rfl⟩ := List.exists_cons_of_ne_nil some_
        rfl
      rw [List.map_cons, List.flatMap_cons]
      cases isRemark : group.all (remark alphabet) with
      | true =>
          have dropped : isOnlyComments alphabet (flat group) = true := by
            rw [isOnlyComments_reads reads, isRemark]
          refine ⟨statements, ?_, proper, ?_⟩
          · rw [List.filter_cons_of_neg (by simp [dropped])]
            exact texts
          · rw [quoted_remarks reads isRemark, List.nil_append]
            by_cases none_ : more = []
            · subst none_
              have empty : statements = [] := by simpa using texts.symm
              subst empty
              exact Or.inl rfl
            · have same := last none_
              rw [List.map_cons] at same
              rw [same]
              exact kept
      | false =>
          obtain ⟨lexemes, same, statement, trimmed⟩ := group_statement reads free isRemark
          have stays : isOnlyComments alphabet (flat group) = false := by
            rw [isOnlyComments_reads reads, isRemark]
          refine ⟨lexemes :: statements, ?_, ⟨statement, ?_, proper⟩, ?_⟩
          · rw [List.filter_cons_of_pos (by simp [stays]), List.map_cons, List.map_cons, texts, same]
          · intro follows rest
            have some_ : more ≠ [] := by
              rintro rfl
              exact follows (by simpa using texts.symm)
            rw [if_neg some_] at read
            obtain ⟨behind, before⟩ := read
            exact trimmed.shut statement.reads before rest
          · rw [List.flatMap_cons]
            by_cases none_ : more = []
            · subst none_
              have empty : statements = [] := by simpa using texts.symm
              subst empty
              rw [List.flatMap_nil, List.append_nil, List.append_nil]
              exact trimmed.quoted_last statement.reads reads
            · rw [if_neg none_] at read
              obtain ⟨behind, before⟩ := read
              rw [trimmed.quoted_inner statement.reads before]
              have same := last none_
              rw [List.map_cons] at same
              rw [same]
              exact kept.append (List.suffix_refl _)

/-! Statements joined by a line end, a semicolon and a line end. -/

def joined : List (List Part) → List Part
  | [] => []
  | [lexemes] => lexemes
  | lexemes :: next :: more => lexemes ++ (codes ['\n', ';', '\n'] ++ joined (next :: more))

theorem joined_flat (list : List (List Part)) :
    flat (joined list) = ['\n', ';', '\n'].intercalate (list.map flat) := by
  fun_induction joined list with
  | case1 => rfl
  | case2 lexemes => simp
  | case3 lexemes next more ih =>
      rw [flat_append, flat_append, ih, flat_codes]
      simp

theorem joint_separators : ∀ char ∈ ['\n', ';', '\n'], char = ';' ∨ alphabet.isSpace char = true := by
  have lineEnd : alphabet.isSpace '\n' = true := by
    rw [alphabet.space_ascii _ (by decide)]
    decide
  intro char member
  simp only [List.mem_cons, List.not_mem_nil, or_false] at member
  rcases member with rfl | rfl | rfl
  · exact Or.inr lineEnd
  · exact Or.inl rfl
  · exact Or.inr lineEnd

theorem joined_reads {list : List (List Part)} (statements : Statements alphabet list) :
    Reads alphabet plain none (joined list) [] := by
  fun_induction joined list with
  | case1 => trivial
  | case2 lexemes => exact statements.1.reads
  | case3 lexemes next more ih =>
      rw [reads_append]
      refine ⟨?_, (reads_codes_cons joint_separators).mpr (ih statements.2.2)⟩
      have shut := statements.2.1 (List.cons_ne_nil next more)
      simpa using shut _

theorem reads_single (reads : Reads alphabet plain previous lexemes rest) :
    ∀ part ∈ lexemes, part.2 = false → part.1.length = 1 := by
  intro part member
  obtain ⟨_, _, lexeme⟩ := reads_lexeme reads member
  exact lexeme.single

theorem pieces_free (current : List Char) (more : List (Char × Bool)) (free : SemiFree lexemes)
    (single : ∀ part ∈ lexemes, part.2 = false → part.1.length = 1) :
    pieces current (marked lexemes ++ more) = pieces (current ++ flat lexemes) more := by
  induction lexemes generalizing current with
  | nil => simp [marked]
  | cons part lexemes ih =>
      have further := fun current => ih current (fun member => free (List.mem_cons_of_mem _ member))
        fun other member => single other (List.mem_cons_of_mem _ member)
      obtain ⟨part, isPart⟩ := part
      have split : marked ((part, isPart) :: lexemes) ++ more =
          part.map (·, isPart) ++ (marked lexemes ++ more) := by
        simp [marked]
      rw [split, flat_cons, ← List.append_assoc current, ← further]
      cases isPart with
      | true => exact pieces_part current part _
      | false =>
          obtain ⟨char, rfl⟩ := List.length_eq_one_iff.mp
            (single (part, false) List.mem_cons_self rfl)
          have notSemi : char ≠ ';' := fun same => free (by simp [same])
          rw [List.map_cons, List.map_nil, List.cons_append, pieces, if_neg fun both => notSemi both.1]
          rfl

def padded : List Char → List (List Part) → List (List Char)
  | current, [] => [current]
  | current, [lexemes] => [current ++ flat lexemes]
  | current, lexemes :: next :: more =>
      (current ++ (flat lexemes ++ ['\n'])) :: padded ['\n'] (next :: more)

theorem pieces_joined {list : List (List Part)} (current : List Char)
    (statements : Statements alphabet list) :
    pieces current (marked (joined list)) = padded current list := by
  fun_induction padded current list with
  | case1 => rfl
  | case2 current lexemes =>
      have all := pieces_free current [] statements.1.free (reads_single statements.1.reads)
      rw [List.append_nil] at all
      exact all
  | case3 current lexemes next more ih =>
      have split : marked (joined (lexemes :: next :: more)) = marked lexemes ++
          (('\n', false) :: (';', false) :: ('\n', false) :: marked (joined (next :: more))) := by
        simp [joined, marked, codes]
      rw [split, pieces_free current _ statements.1.free (reads_single statements.1.reads), pieces,
        if_neg (by decide), pieces, if_pos (by decide), pieces, if_neg (by decide),
        List.append_assoc]
      exact congrArg _ (ih statements.2.2)

theorem padded_kept (statement : Statement alphabet lexemes) {before behind : List Char}
    (beforeSpaces : ∀ char ∈ before, alphabet.isSpace char = true)
    (behindSpaces : ∀ char ∈ behind, alphabet.isSpace char = true) :
    isOnlyComments alphabet (before ++ (flat lexemes ++ behind)) = false ∧
      strip alphabet (before ++ (flat lexemes ++ behind)) = flat lexemes := by
  have some_ : flat lexemes ≠ [] := by
    intro empty
    have none_ : lexemes = [] := List.eq_nil_iff_forall_not_mem.mpr fun part member =>
      reads_some statement.reads part member (List.flatMap_eq_nil_iff.mp empty part member)
    have kept := statement.kept
    rw [none_] at kept
    cases kept
  have bare := strip_padded statement.stripped some_ beforeSpaces behindSpaces
  refine ⟨?_, bare⟩
  obtain ⟨whole, same, reads⟩ :=
    @exists_reading alphabet plain none (before ++ (flat lexemes ++ behind))
  obtain ⟨core, coreText, coreReads, trimmed⟩ := trim_reading reads
  rw [same, bare] at coreText
  rw [← same, isOnlyComments_reads reads, trimmed.remarks coreReads,
    coreReads.unique statement.reads coreText, statement.kept]

theorem padded_statements {list : List (List Part)} {current : List Char}
    (statements : Statements alphabet list)
    (spaces : ∀ char ∈ current, alphabet.isSpace char = true) :
    ((padded current list).filter fun piece => !isOnlyComments alphabet piece).map
      (strip alphabet) = list.map flat := by
  have lineEnd : ∀ char ∈ ['\n'], alphabet.isSpace char = true := by
    intro char member
    rw [List.mem_singleton.mp member, alphabet.space_ascii _ (by decide)]
    decide
  fun_induction padded current list with
  | case1 current =>
      have blank : isOnlyComments alphabet current = true := by
        have reads : Reads alphabet plain none (codes current) [] :=
          reads_separators fun char member => Or.inr (spaces char member)
        have only := isOnlyComments_reads reads
        rw [flat_codes] at only
        rw [only]
        simp [codes, remark]
        exact spaces
      rw [List.filter_cons_of_neg (by simp [blank])]
      rfl
  | case2 current lexemes =>
      obtain ⟨kept, bare⟩ := @padded_kept alphabet lexemes statements.1 current [] spaces nofun
      rw [List.append_nil] at kept bare
      rw [List.filter_cons_of_pos (by simp [kept]), List.map_cons, bare]
      rfl
  | case3 current lexemes next more ih =>
      obtain ⟨kept, bare⟩ := padded_kept statements.1 spaces lineEnd
      rw [List.filter_cons_of_pos (by simp [kept]), List.map_cons, bare, ih statements.2.2 lineEnd]
      rfl

theorem split_joined {list : List (List Part)} (statements : Statements alphabet list) :
    splitStatements alphabet (['\n', ';', '\n'].intercalate (list.map flat)) = list.map flat := by
  rw [← joined_flat, splitStatements_reads (joined_reads statements), pieces_joined [] statements]
  exact padded_statements statements nofun

theorem grouped_free (code : List Char) (free : SemiFree lexemes)
    (single : ∀ part ∈ lexemes, part.2 = false → part.1.length = 1) (none_ : ';' ∉ code) :
    ∀ part ∈ grouped code lexemes, part.2 = false → ';' ∉ part.1 := by
  have ofCode : ∀ code, ';' ∉ code → ∀ part ∈ codePart code, ';' ∉ part.1 := by
    intro code none_ part member
    unfold codePart at member
    split at member
    · cases member
    · rwa [List.mem_singleton.mp member]
  fun_induction grouped code lexemes with
  | case1 code => exact fun part member _ => ofCode code none_ part member
  | case2 code part lexemes ih =>
      refine ih (fun member => free (List.mem_cons_of_mem _ member))
        (fun other member => single other (List.mem_cons_of_mem _ member)) fun member => ?_
      obtain ⟨char, rfl⟩ := List.length_eq_one_iff.mp (single (part, false) List.mem_cons_self rfl)
      rcases List.mem_append.mp member with old | new
      · exact none_ old
      · refine free ?_
        rw [← List.mem_singleton.mp new]
        exact List.mem_cons_self
  | case3 code part lexemes ih =>
      intro other member isCode
      rcases List.mem_append.mp member with inCode | inRest
      · exact ofCode code none_ other inCode
      · rcases List.mem_cons.mp inRest with rfl | further
        · cases isCode
        · exact ih (fun member => free (List.mem_cons_of_mem _ member))
            (fun other member => single other (List.mem_cons_of_mem _ member)) List.not_mem_nil other
            further isCode

theorem statements_mem {list : List (List Part)} (statements : Statements alphabet list)
    {lexemes : List Part} (member : lexemes ∈ list) : Statement alphabet lexemes := by
  induction list with
  | nil => cases member
  | cons first list ih =>
      rcases List.mem_cons.mp member with rfl | further
      · exact statements.1
      · exact ih statements.2.2 further

theorem groups_quoted (group lexemes : List Part) :
    (groups group lexemes).flatMap quoted = quoted group ++ quoted lexemes := by
  fun_induction groups group lexemes with
  | case1 group => simp [quoted]
  | case2 group lexemes ih =>
      rw [List.flatMap_cons, ih, ← List.singleton_append (l := lexemes), quoted_append]
      rfl
  | case3 group part lexemes _ ih =>
      rw [ih, quoted_append, List.append_assoc, ← quoted_append]
      rfl

theorem groups_last (group lexemes : List Part) :
    ((groups group lexemes).map flat).getLast?.getD [] <:+ flat group ++ flat lexemes := by
  fun_induction groups group lexemes with
  | case1 group => simp
  | case2 group lexemes ih =>
      obtain ⟨next, more, isGroups⟩ := List.exists_cons_of_ne_nil (groups_some [] lexemes)
      rw [isGroups] at ih ⊢
      have suffix : flat lexemes <:+ flat group ++ flat (semi :: lexemes) :=
        ⟨flat group ++ [';'], by simp⟩
      exact ih.trans (by simpa using suffix)
  | case3 group part lexemes _ ih => simpa using ih

/-- The scanner loses nothing, and splitting a script is stable. -/
theorem scanning_stable (alphabet : Alphabet) (sqlText : List Char) :
    (∀ placeholders, flat (sqlParts alphabet placeholders sqlText) = sqlText ∧
      (∀ part ∈ sqlParts alphabet placeholders sqlText, part.1 ≠ []) ∧
      (sqlParts alphabet placeholders sqlText).IsChain Apart ∧
      ∀ turns, sqlText.length ≤ turns → partsLoop alphabet
        (if placeholders then placeholder alphabet else fun _ _ _ => false) turns none [] sqlText =
          sqlParts alphabet placeholders sqlText) ∧
    (∀ statement ∈ splitStatements alphabet sqlText, isOnlyComments alphabet statement = false ∧
      ∀ part ∈ plainParts alphabet statement, part.2 = false → ';' ∉ part.1) ∧
    QuotedKept alphabet sqlText (quoted (plainParts alphabet sqlText))
      ((splitStatements alphabet sqlText).flatMap fun statement =>
        quoted (plainParts alphabet statement)) ∧
    splitStatements alphabet (['\n', ';', '\n'].intercalate (splitStatements alphabet sqlText)) =
      splitStatements alphabet sqlText := by
  refine ⟨fun placeholders => sqlParts_whole alphabet placeholders sqlText, ?_⟩
  obtain ⟨lexemes, rfl, reads⟩ := @exists_reading alphabet plain none sqlText
  have grouped := @groups_grouped alphabet lexemes [] trivial List.not_mem_nil reads
  obtain ⟨statements, texts, proper, kept⟩ := groups_statements grouped
  have split : splitStatements alphabet (flat lexemes) = statements.map flat := by
    have byGroups := pieces_groups [] (reads_single reads)
    rw [flat_nil] at byGroups
    rw [splitStatements_reads reads, byGroups, texts]
  rw [split]
  refine ⟨?_, ?_, split_joined proper⟩
  · intro text member
    obtain ⟨statement, isStatement, rfl⟩ := List.mem_map.mp member
    have holds := statements_mem proper isStatement
    refine ⟨by rw [isOnlyComments_reads holds.reads, holds.kept], ?_⟩
    rw [plainParts_reads holds.reads]
    exact grouped_free [] holds.free (reads_single holds.reads) List.not_mem_nil
  · have whole := groups_quoted [] lexemes
    have last := groups_last [] lexemes
    have each : ∀ list : List (List Part), (∀ statement ∈ list, Statement alphabet statement) →
        ((list.map flat).flatMap fun text => quoted (plainParts alphabet text)) =
          list.flatMap quoted := by
      intro list all
      rw [List.flatMap_map]
      refine List.flatMap_congr fun statement member => ?_
      rw [plainParts_reads (all statement member).reads, quoted_grouped]
    rw [each statements fun statement member => statements_mem proper member,
      plainParts_reads reads, quoted_grouped]
    have moved := @QuotedKept.append alphabet _ [] _ _ kept _ last
    rw [whole] at moved
    exact moved

end SqlTexts

end EtlCraft
