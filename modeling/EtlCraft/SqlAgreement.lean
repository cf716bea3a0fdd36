import EtlCraft.SqlReadOnly

/-! Where the patterns of the read-only check cut what the scanner protects, and where they do
not. -/

namespace EtlCraft

namespace SqlTexts

open Substitution

/-- A part that the patterns see as the scanner does: a comment that ends at the first `*/`, or
closed quoted text without a comment marker whose single quotes are those of one literal. -/
def Plain (part : List Char) : Prop :=
  commentAt part = part.length ∨
    (part.head? = part.getLast? ∧ (∃ quote ∈ ['\'', '\x22', '\x60', '$'], part.head? = some quote) ∧
      ¬['-', '-'] <:+: part ∧ ¬['/', '*'] <:+: part ∧
      (literalAt part = part.length ∨ '\'' ∉ part))

def blanked (part : Part) : List Char :=
  if part.2 ∧ commentAt part.1 ≠ 0 then [' '] else part.1

def cut (part : Part) : List Char :=
  if part.2 ∧ commentAt part.1 ≠ 0 then [' ']
  else if part.2 ∧ literalAt part.1 ≠ 0 then ['\'', '\''] else part.1

variable {alphabet : Alphabet} {isToken : List Char → List Char → Option Nat → Bool}
variable {previous : Option Char} {part rest text code : List Char} {char : Char} {length : Nat}

theorem find_le {pattern : List Char} {place : Nat} (found : find pattern text = some place) :
    pattern.length + place ≤ text.length := by
  induction text generalizing place with
  | nil =>
      rw [find] at found
      split_ifs at found with empty
      obtain rfl := Option.some.inj found
      simp [empty]
  | cons char rest ih =>
      rw [find] at found
      split_ifs at found with here
      · obtain rfl := Option.some.inj found
        exact (List.isPrefixOf_iff_prefix.mp here).length_le
      · obtain ⟨later, further, rfl⟩ := Option.map_eq_some_iff.mp found
        have := ih further
        simp only [List.length_cons]
        omega

theorem find_append {pattern : List Char} {place : Nat} (found : find pattern text = some place)
    (rest : List Char) : find pattern (text ++ rest) = some place := by
  induction text generalizing place with
  | nil =>
      rw [find] at found
      split_ifs at found with empty
      subst empty
      cases rest <;> simpa [find] using found
  | cons char text ih =>
      rw [find] at found
      rw [List.cons_append, find]
      split_ifs at found with here
      · rw [if_pos, found]
        rw [List.isPrefixOf_iff_prefix] at here ⊢
        exact here.trans (List.prefix_append (char :: text) rest)
      · obtain ⟨later, further, rfl⟩ := Option.map_eq_some_iff.mp found
        rw [if_neg, ih further]
        · rfl
        · intro there
          rw [List.isPrefixOf_iff_prefix] at here there
          refine here (List.prefix_of_prefix_length_le there
            (List.prefix_append (char :: text) rest) ?_)
          have := find_le further
          simp only [List.length_cons]
          omega

theorem commentAt_marker (comment : commentAt text ≠ 0) :
    ['-', '-'] <+: text ∨ ['/', '*'] <+: text := by
  unfold commentAt at comment
  split at comment
  · exact Or.inr (by simp)
  · exact Or.inl (by simp)
  · exact absurd rfl comment

theorem literalAt_quote (literal : literalAt text ≠ 0) : text.head? = some '\'' := by
  unfold literalAt at literal
  split at literal
  · rfl
  · exact absurd rfl literal

theorem protectedLength_zero
    (isCode : protectedLength alphabet isToken previous (char :: rest) = 0) :
    commentAt (char :: rest) = 0 ∧ char ≠ '\'' := by
  constructor
  · by_contra comment
    rcases commentAt_marker comment with ⟨_, same⟩ | ⟨_, same⟩
    · rw [← same] at isCode
      simp [protectedLength] at isCode
    · rw [← same] at isCode
      simp [protectedLength] at isCode
  · rintro rfl
    rw [protectedLength, if_pos (Or.inl rfl), endOfStringLiteral] at isCode
    · omega
    · rintro _ ⟨⟩
    · rintro _ ⟨⟩

theorem quoteLength_after (escaped : Bool) (quote : Char) (text : List Char) :
    (text.drop (quoteLength escaped quote text)).head? ≠ some quote := by
  fun_induction quoteLength escaped quote text with
  | case1 => simp
  | case2 => simp
  | case3 char next rest isEscape ih => simpa using ih
  | case4 rest notEscape ih => simpa using ih
  | case5 next rest differs notEscape => simpa using differs
  | case6 char next rest notEscape differs ih => simpa using ih

theorem literal_after
    (isPart : protectedLength alphabet isToken previous text = length + 1)
    (literal : text.head? = some '\'') : (text.drop (length + 1)).head? ≠ some '\'' := by
  obtain ⟨rest, rfl⟩ : ∃ rest, text = '\'' :: rest := by
    cases text with
    | nil => contradiction
    | cons char rest => exact ⟨rest, by rw [Option.some.inj literal]⟩
  rw [protectedLength, if_pos (Or.inl rfl), endOfStringLiteral] at isPart
  · obtain ⟨escaped, same⟩ : ∃ escaped, 1 + quoteLength escaped '\'' rest = length + 1 :=
      ⟨_, isPart⟩
    rw [show length = quoteLength escaped '\'' rest by omega]
    exact quoteLength_after escaped '\'' rest
  · rintro _ ⟨⟩
  · rintro _ ⟨⟩

theorem literalRest_append (full : literalRest text = some text.length)
    (apart : rest.head? ≠ some '\'') : literalRest (text ++ rest) = some text.length := by
  fun_induction literalRest text with
  | case1 => contradiction
  | case2 tail unclosed ih => simp at full
  | case3 tail length closed ih =>
      rw [List.length_cons, List.length_cons, Option.some.injEq] at full
      have inner := ih (by rw [closed, Option.some.injEq]; omega)
      rw [List.cons_append, List.cons_append, literalRest, inner]
      rfl
  | case4 tail single =>
      obtain rfl : tail = [] := by simpa using full
      rw [List.cons_append, List.nil_append, literalRest]
      · rfl
      · rintro more rfl
        exact apart rfl
  | case5 first tail notDouble notQuote ih =>
      obtain ⟨length, inner, same⟩ := Option.map_eq_some_iff.mp full
      rw [List.length_cons] at same
      have inner := ih (by rw [inner, Option.some.injEq]; omega)
      rw [List.cons_append, literalRest, inner]
      · rfl
      · exact fun _ isQuote _ => notQuote isQuote
      · exact notQuote

theorem literalAt_append (full : literalAt text = text.length) (some' : text ≠ [])
    (apart : rest.head? ≠ some '\'') : literalAt (text ++ rest) = text.length := by
  unfold literalAt at full
  split at full
  · next tail =>
    cases closed : literalRest tail with
    | none => simp [closed] at full
    | some length =>
        rw [closed] at full
        have whole : literalRest tail = some tail.length := by
          rw [closed]
          simpa using full
        rw [List.cons_append, literalAt, literalRest_append whole apart]
        rfl
  · exact absurd (List.length_eq_zero_iff.mp full.symm) some'

theorem blockLength_le (depth : Nat) (text : List Char) : blockLength depth text ≤ text.length := by
  fun_induction blockLength depth text with
  | case1 => omega
  | case2 => omega
  | case3 depth rest ih => simp only [List.length_cons]; omega
  | case4 depth rest ih => simp only [List.length_cons]; omega
  | case5 depth char rest _ _ ih => simp only [List.length_cons]; omega

theorem quoteLength_le (escaped : Bool) (quote : Char) (text : List Char) :
    quoteLength escaped quote text ≤ text.length := by
  fun_induction quoteLength escaped quote text <;>
    simp only [List.length_cons, List.length_nil] at * <;> omega

theorem protectedLength_le : protectedLength alphabet isToken previous text ≤ text.length := by
  unfold protectedLength
  split
  · omega
  · next rest =>
    have := (rest.takeWhile_sublist fun char => decide (char ≠ '\n')).length_le
    simp only [List.length_cons]
    omega
  · next rest =>
    have := blockLength_le 1 rest
    simp only [List.length_cons]
    omega
  · next char rest _ _ =>
    split_ifs with quoted dollar
    · have := quoteLength_le (char = '\'' ∧ (previous = some 'E' ∨ previous = some 'e')) char rest
      rw [endOfStringLiteral, List.length_cons]
      omega
    · cases dollarTagAt alphabet rest with
      | none => exact Nat.zero_le _
      | some tag =>
          dsimp only
          split_ifs
          · exact Nat.zero_le _
          · cases closed : find tag ((char :: rest).drop tag.length) with
            | none => exact le_refl _
            | some close =>
                have := find_le closed
                rw [List.length_drop] at this
                simp only [Option.map_some]
                omega
    · exact Nat.zero_le _

theorem plain_comment (plain : Plain part) (comment : commentAt part ≠ 0) :
    commentAt part = part.length := by
  rcases plain with whole | ⟨_, _, noDash, noStar, _⟩
  · exact whole
  · rcases commentAt_marker comment with dash | star
    · exact absurd dash.isInfix noDash
    · exact absurd star.isInfix noStar

theorem marker_last {first second : Char} {before after : List Char}
    (marker : [first, second] <+: char :: after ++ rest) (outside : ¬[first, second] <:+: part)
    (same : part = before ++ char :: after) : after = [] ∧ char = first := by
  obtain ⟨more, marker⟩ := marker
  simp only [List.cons_append, List.nil_append, List.cons.injEq] at marker
  refine ⟨?_, marker.1.symm⟩
  cases after with
  | nil => rfl
  | cons next after =>
      refine absurd ⟨before, after, ?_⟩ outside
      simp only [List.cons_append, List.cons.injEq] at marker
      rw [same, marker.1, marker.2.1, List.append_assoc]
      rfl

theorem replace_comment (plain : Plain part) (some' : part ≠ [])
    (isPart : protectedLength alphabet isToken previous (part ++ rest) = part.length) :
    replace id commentAt [' '] (part ++ rest) =
      blanked (part, true) ++ replace id commentAt [' '] rest := by
  by_cases comment : commentAt part = 0
  · rw [blanked, if_neg (by simp [comment])]
    apply replace_pass
    intro before char after same
    rw [List.map_id]
    by_contra begins
    rcases plain with whole | ⟨closed, ⟨quote, isQuote, head⟩, noDash, noStar, _⟩
    · exact some' (List.length_eq_zero_iff.mp (whole.symm.trans comment))
    · have last : after = [] → part.head? = some char := by
        rintro rfl
        rw [closed, same, List.getLast?_append_cons]
        rfl
      rcases commentAt_marker begins with marker | marker
      · obtain ⟨ends, rfl⟩ := marker_last marker noDash same
        rw [last ends, Option.some.injEq] at head
        subst head
        simp at isQuote
      · obtain ⟨ends, rfl⟩ := marker_last marker noStar same
        rw [last ends, Option.some.injEq] at head
        subst head
        simp at isQuote
  · have whole := plain_comment plain comment
    rw [blanked, if_pos ⟨rfl, comment⟩]
    apply replace_match some'
    rw [List.map_id]
    rcases commentAt_marker comment with ⟨tail, rfl⟩ | ⟨tail, rfl⟩
    · simpa [protectedLength, commentAt] using isPart
    · simp only [List.cons_append, List.nil_append, commentAt] at comment whole ⊢
      cases closed : find ['*', '/'] tail with
      | none => simp [closed] at comment
      | some close => simpa [find_append closed, closed] using whole

theorem replace_comment_head (apart : text.head? ≠ some '\'') :
    (replace id commentAt [' '] text).head? ≠ some '\'' := by
  cases text with
  | nil => simp [replace, replaceFrom]
  | cons char rest =>
      by_cases comment : commentAt (char :: rest) = 0
      · rw [replace_cons (by rwa [List.map_id])]
        exact apart
      · obtain ⟨length, same⟩ := Nat.exists_eq_succ_of_ne_zero comment
        rw [replace, replaceFrom, List.map_id, same]
        simp

theorem replace_literal (plain : Plain part) (some' : part ≠ [])
    (apart : part.head? = some '\'' → rest.head? ≠ some '\'') :
    replace id literalAt ['\'', '\''] (blanked (part, true) ++ rest) =
      cut (part, true) ++ replace id literalAt ['\'', '\''] rest := by
  by_cases comment : commentAt part = 0
  · rw [blanked, if_neg (by simp [comment]), cut, if_neg (by simp [comment])]
    rcases plain with whole | ⟨_, _, _, _, literal⟩
    · exact absurd (List.length_eq_zero_iff.mp (whole.symm.trans comment)) some'
    · rcases literal with whole | without
      · have begins : literalAt part ≠ 0 := by
          rw [whole]
          exact fun empty => some' (List.length_eq_zero_iff.mp empty)
        rw [if_pos ⟨rfl, begins⟩]
        apply replace_match some'
        rw [List.map_id]
        exact literalAt_append whole some' (apart (literalAt_quote begins))
      · have never : ∀ before char after, part = before ++ char :: after →
            literalAt ((char :: after ++ rest).map id) = 0 := by
          intro before char after same
          by_contra begins
          rw [List.map_id] at begins
          have head := literalAt_quote begins
          rw [List.cons_append, List.head?_cons, Option.some.injEq] at head
          exact without (by simp [same, head])
        have notLiteral : literalAt part = 0 := by
          by_contra begins
          exact without (List.mem_of_head? (literalAt_quote begins))
        rw [if_neg (by simp [notLiteral])]
        exact replace_pass never
  · rw [blanked, if_pos ⟨rfl, comment⟩, cut, if_pos ⟨rfl, comment⟩]
    exact replace_cons rfl

theorem mark_gap {mark : Char} (isMark : mark ∈ [' ', '-', '/', '\'', '\x22', '\x60', '$']) :
    alphabet.isWord mark = false := by
  have small : [' ', '-', '/', '\'', '\x22', '\x60', '$'].all (fun mark =>
      decide (mark.toNat < 128) && !(mark.isAlphanum || mark == '_')) = true := by decide
  have here := List.all_eq_true.mp small mark isMark
  rw [Bool.and_eq_true, decide_eq_true_eq, Bool.not_eq_true'] at here
  rw [isWord_ascii here.1, here.2]

theorem cut_last (plain : Plain part) (some' : part ≠ []) :
    ∃ before gap, cut (part, true) = before ++ [gap] ∧ alphabet.isWord gap = false := by
  by_cases comment : commentAt part = 0
  · by_cases literal : literalAt part = 0
    · rcases plain with whole | ⟨closed, ⟨quote, isQuote, head⟩, _⟩
      · exact absurd (List.length_eq_zero_iff.mp (whole.symm.trans comment)) some'
      · rw [cut, if_neg (by simp [comment]), if_neg (by simp [literal])]
        obtain ⟨before, back⟩ := List.getLast?_eq_some_iff.mp (closed.symm.trans head)
        refine ⟨before, quote, back, mark_gap ?_⟩
        simp only [List.mem_cons] at isQuote ⊢
        tauto
    · rw [cut, if_neg (by simp [comment]), if_pos ⟨rfl, literal⟩]
      exact ⟨['\''], _, rfl, mark_gap (by decide)⟩
  · rw [cut, if_pos ⟨rfl, comment⟩]
    exact ⟨[], _, rfl, mark_gap (by decide)⟩

theorem protectedLength_first
    (isPart : protectedLength alphabet isToken previous (char :: rest) ≠ 0) :
    char ∈ ['-', '/', '\'', '\x22', '\x60', '$'] := by
  unfold protectedLength at isPart
  split at isPart
  · contradiction
  · next same => simp [List.cons.inj same]
  · next same => simp [List.cons.inj same]
  · next first after _ _ same =>
    obtain ⟨rfl, rfl⟩ := List.cons.inj same
    split_ifs at isPart with quoted dollar
    · rcases quoted with rfl | rfl | rfl <;> simp
    · simp [dollar]
    · contradiction

theorem replaced_gap (isPart : protectedLength alphabet isToken previous (char :: rest) ≠ 0) :
    ∃ gap after, replace id literalAt ['\'', '\''] (replace id commentAt [' '] (char :: rest)) =
      gap :: after ∧ alphabet.isWord gap = false := by
  have gap := protectedLength_first isPart
  obtain ⟨mark, after, replaced, isMark⟩ : ∃ mark after,
      replace id commentAt [' '] (char :: rest) = mark :: after ∧
        mark ∈ [' ', '-', '/', '\'', '\x22', '\x60', '$'] := by
    cases comment : commentAt (char :: rest) with
    | zero =>
        rw [replace_cons (by rwa [List.map_id])]
        exact ⟨char, _, rfl, List.mem_cons_of_mem _ gap⟩
    | succ length =>
        rw [replace, replaceFrom, List.map_id, comment]
        exact ⟨' ', _, rfl, List.mem_cons_self⟩
  rw [replaced]
  cases literal : literalAt (mark :: after) with
  | zero =>
      rw [replace_cons (by rwa [List.map_id])]
      exact ⟨mark, _, rfl, mark_gap isMark⟩
  | succ length =>
      rw [replace, replaceFrom, List.map_id, literal]
      exact ⟨'\'', _, rfl, mark_gap (by decide)⟩

theorem mem_codePart (member : (part, false) ∈ codePart code) : part = code := by
  unfold codePart at member
  split_ifs at member
  · contradiction
  · simpa using member

/-- A keyword that stands whole in code stands whole in what the patterns leave, if every
protected part that is not the last is plain. -/
theorem hasWord_loop (isKeyword : keyword ∈ writeKeywords) {turns : Nat}
    (enough : text.length ≤ turns)
    (plain : ∀ inside, (inside, true) ∈
      (partsLoop alphabet isToken turns previous code text).dropLast → Plain inside)
    (member : (part, false) ∈ partsLoop alphabet isToken turns previous code text)
    (has : hasWord alphabet keyword part) :
    hasWord alphabet keyword
      (code ++ replace id literalAt ['\'', '\''] (replace id commentAt [' '] text)) := by
  induction turns generalizing previous code text with
  | zero =>
      obtain rfl := List.length_eq_zero_iff.mp (Nat.le_zero.mp enough)
      rw [partsLoop] at member
      simpa [replace, replaceFrom, ← mem_codePart member] using has
  | succ turns ih =>
      cases text with
      | nil =>
          rw [partsLoop] at member
          simpa [replace, replaceFrom, ← mem_codePart member] using has
      | cons char rest =>
          rw [partsLoop] at plain member
          have fits := @protectedLength_le alphabet isToken previous (char :: rest)
          cases isPart : protectedLength alphabet isToken previous (char :: rest) with
          | zero =>
              rw [isPart] at plain member
              obtain ⟨noComment, notQuote⟩ := protectedLength_zero isPart
              have later := ih (Nat.le_of_succ_le_succ enough) plain member
              rwa [List.append_assoc, List.singleton_append, ← replace_cons, ← replace_cons] at later
              · rwa [List.map_id]
              · by_contra begins
                rw [List.map_id] at begins
                exact notQuote (Option.some.inj (literalAt_quote begins))
          | succ length =>
              rw [isPart] at plain member fits
              dsimp only at plain member
              rcases List.mem_append.mp member with now | later
              · obtain ⟨gap, after, front, isGap⟩ :=
                  @replaced_gap alphabet isToken previous rest char (by omega)
                rw [front, hasWord, search, searchFrom_gap (keyword_letters isKeyword) isGap,
                  Bool.or_eq_true]
                exact Or.inl (mem_codePart now ▸ has)
              · have inside := (List.mem_cons.mp later).resolve_left (by simp)
                have whole := List.take_append_drop (length + 1) (char :: rest)
                have after := @literal_after alphabet isToken previous (char :: rest) length isPart
                have size : ((char :: rest).take (length + 1)).length = length + 1 := by
                  rw [List.length_take]
                  omega
                have short : ((char :: rest).drop (length + 1)).length ≤ turns := by
                  rw [List.length_drop]
                  omega
                generalize (char :: rest).take (length + 1) = inner at *
                generalize (char :: rest).drop (length + 1) = rest' at *
                have more := List.ne_nil_of_mem inside
                rw [List.dropLast_append_of_ne_nil (List.cons_ne_nil _ _),
                  List.dropLast_cons_of_ne_nil more] at plain
                have isPlain := plain inner (List.mem_append_right _ List.mem_cons_self)
                have some' : inner ≠ [] := by
                  rintro rfl
                  contradiction
                have found := ih short (fun next member => plain next
                  (List.mem_append_right _ (List.mem_cons_of_mem _ member))) inside
                rw [← whole] at isPart after ⊢
                obtain ⟨before, last, back, lastGap⟩ := @cut_last alphabet _ isPlain some'
                rw [replace_comment isPlain some' (isPart.trans size.symm),
                  replace_literal isPlain some' fun quote => replace_comment_head (after ?_), back,
                  List.append_assoc, ← List.append_assoc code, List.singleton_append, hasWord,
                  search, searchFrom_gap (keyword_letters isKeyword) lastGap, Bool.or_eq_true]
                · exact Or.inr found
                · cases inner with
                  | nil => contradiction
                  | cons first inner => exact quote

/-- Two dashes in a literal begin no comment, but they are cut with all that follows. -/
theorem delete_hidden :
    let sql := "SELECT '--' FROM t WHERE; DELETE FROM t".toList
    readOnlyProblem ascii sql = none ∧ Writes ascii sql := by
  refine ⟨by decide +kernel, " FROM t WHERE; DELETE FROM t".toList, ?_⟩
  decide +kernel

/-- A text that passes the check writes nothing in code, if every protected part but the last is
plain. -/
theorem plain_hides_nothing (alphabet : Alphabet) (sql : List Char)
    (plain : ∀ part, (part, true) ∈ (sqlParts alphabet false sql).dropLast → Plain part)
    (passes : readOnlyProblem alphabet sql = none) : ¬Writes alphabet sql := by
  rintro ⟨part, member, keyword, isKeyword, has⟩
  have left := hasWord_loop isKeyword (le_refl _) plain member has
  rw [List.nil_append, ← stripCommentsAndLiterals, readOnlyProblem_none passes isKeyword] at left
  contradiction

instance (part : List Char) : Decidable (Plain part) :=
  let quoted := List.decidableBEx (fun quote => part.head? = some quote)
    ['\'', '\x22', '\x60', '$']
  @instDecidableOr _ _ _ (@instDecidableAnd _ _ _ (@instDecidableAnd _ _ quoted inferInstance))

theorem plain_hides_nothing_unclosed :
    ¬Writes ascii "SELECT 'DROP' /* it's */ FROM \"t\" /* 'x".toList := by
  have plain : ((sqlParts ascii false
      "SELECT 'DROP' /* it's */ FROM \"t\" /* 'x".toList).dropLast.all fun part =>
        !part.2 || decide (Plain part.1)) = true := by decide +kernel
  refine plain_hides_nothing ascii _ (fun part member => ?_) (by decide +kernel)
  simpa using List.all_eq_true.mp plain (part, true) member

end SqlTexts

end EtlCraft
