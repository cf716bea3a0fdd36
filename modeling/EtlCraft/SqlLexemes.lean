import EtlCraft.SqlAgreement

/-! Lexemes of a SQL text: a protected part or one character of code. What follows a text after a
semicolon or white space changes nothing in it, unless its last lexeme is still open. -/

namespace EtlCraft

namespace SqlTexts

variable {alphabet : Alphabet} {isToken : List Char → List Char → Option Nat → Bool}
variable {previous : Option Char} {text rest : List Char}

def Separated (alphabet : Alphabet) (rest : List Char) : Prop :=
  ∀ head ∈ rest.head?, head = ';' ∨ alphabet.isSpace head = true

theorem separated_marks {head : Char} (separator : head = ';' ∨ alphabet.isSpace head = true) :
    head ∉ ['\'', '\x22', '\x60', '$', '-', '*', '/', '_', '\\', 'E', 'e'] ∧
      alphabet.isAlnum head = false := by
  have marks : ['\'', '\x22', '\x60', '$', '-', '*', '/', '_', '\\', 'E', 'e'].all (fun mark =>
      decide (mark.toNat < 128) && mark ≠ ';' &&
        !(9 ≤ mark.toNat && mark.toNat ≤ 13 || 28 ≤ mark.toNat && mark.toNat ≤ 32)) = true := by
    decide
  constructor
  · intro member
    have plain := List.all_eq_true.mp marks head member
    rw [Bool.and_eq_true, Bool.and_eq_true, decide_eq_true_eq, decide_eq_true_eq,
      Bool.not_eq_true'] at plain
    rcases separator with same | space
    · exact plain.1.2 same
    · rw [alphabet.space_ascii head plain.1.1, plain.2] at space
      cases space
  · rcases separator with rfl | space
    · rw [alphabet.alnum_ascii _ (by decide)]
      decide
    · exact alphabet.alnum_space head space

theorem separated_space {space : List Char} (spaces : ∀ char ∈ space, alphabet.isSpace char = true)
    (after : Separated alphabet rest) : Separated alphabet (space ++ rest) := by
  cases space with
  | nil => exact after
  | cons char space =>
      rintro head ⟨⟩
      exact Or.inr (spaces char List.mem_cons_self)

theorem quoteLength_pos {escaped : Bool} {quote : Char} (some_ : text ≠ []) :
    0 < quoteLength escaped quote text := by
  cases text with
  | nil => exact absurd rfl some_
  | cons char text =>
      cases text with
      | nil => simp [quoteLength]
      | cons next text =>
          unfold quoteLength
          split_ifs <;> omega

theorem quoteLength_append {escaped : Bool} {quote : Char} (text : List Char) :
    (∀ rest, rest.head? ≠ some quote →
      quoteLength escaped quote (text ++ rest) = quoteLength escaped quote text) ∨
    (quoteLength escaped quote text = text.length ∧ ∀ rest, rest.head? ≠ some quote → rest ≠ [] →
      text.length < quoteLength escaped quote (text ++ rest)) := by
  fun_induction quoteLength escaped quote text with
  | case1 => exact Or.inr ⟨rfl, fun rest _ some_ => quoteLength_pos some_⟩
  | case2 char =>
      by_cases closes : ¬(escaped = true ∧ char = '\\') ∧ char = quote
      · refine Or.inl fun rest apart => ?_
        cases rest with
        | nil => rfl
        | cons next rest =>
            rw [List.cons_append, List.nil_append, quoteLength, if_neg closes.1, if_pos closes.2,
              if_neg fun same => apart (by rw [same]; rfl)]
      · refine Or.inr ⟨rfl, fun rest apart some_ => ?_⟩
        cases rest with
        | nil => exact absurd rfl some_
        | cons next rest =>
            rw [List.cons_append, List.nil_append, quoteLength]
            split_ifs with escape ends
            · simp
            · exact absurd ⟨escape, ends⟩ closes
            · exact absurd ⟨escape, ends⟩ closes
            · have := @quoteLength_pos (next :: rest) escaped quote (List.cons_ne_nil _ _)
              simp only [List.length_cons, List.length_nil]
              omega
  | case3 char next text escape ih =>
      simp only [List.cons_append, quoteLength, if_pos escape, List.length_cons]
      refine ih.imp (fun same rest apart => by rw [same rest apart]) fun further => ?_
      exact ⟨by rw [further.1], fun rest apart some_ => by
        have := further.2 rest apart some_
        omega⟩
  | case4 text notEscape ih =>
      simp only [List.cons_append, quoteLength, if_neg notEscape, if_true, List.length_cons]
      refine ih.imp (fun same rest apart => by rw [same rest apart]) fun further => ?_
      exact ⟨by rw [further.1], fun rest apart some_ => by
        have := further.2 rest apart some_
        omega⟩
  | case5 next text differs notEscape =>
      exact Or.inl fun rest _ => by
        simp only [List.cons_append, quoteLength, if_neg notEscape, if_true, if_neg differs]
  | case6 char next text notEscape differs ih =>
      simp only [List.cons_append, List.length_cons] at ih ⊢
      simp only [quoteLength, if_neg notEscape, if_neg differs]
      refine ih.imp (fun same rest apart => by rw [same rest apart]) fun further => ?_
      exact ⟨by rw [further.1], fun rest apart some_ => by
        have := further.2 rest apart some_
        omega⟩

theorem blockLength_pos {depth : Nat} (some_ : text ≠ []) : 0 < blockLength (depth + 1) text := by
  cases text with
  | nil => exact absurd rfl some_
  | cons char text =>
      unfold blockLength
      split
      · contradiction
      · contradiction
      · omega
      · omega
      · omega

theorem blockLength_append (depth : Nat) (text : List Char) :
    (∀ rest, rest.head? ≠ some '*' → rest.head? ≠ some '/' →
      blockLength depth (text ++ rest) = blockLength depth text) ∨
    (blockLength depth text = text.length ∧ ∀ rest, rest.head? ≠ some '*' → rest.head? ≠ some '/' →
      rest ≠ [] → text.length < blockLength depth (text ++ rest)) := by
  fun_induction blockLength depth text with
  | case1 text => exact Or.inl fun rest _ _ => by simp [blockLength]
  | case2 depth => exact Or.inr ⟨rfl, fun rest _ _ some_ => blockLength_pos some_⟩
  | case3 depth text ih =>
      simp only [List.cons_append, blockLength, List.length_cons]
      refine ih.imp (fun same rest star slash => by rw [same rest star slash]) fun further => ?_
      exact ⟨by rw [further.1], fun rest star slash some_ => by
        have := further.2 rest star slash some_
        omega⟩
  | case4 depth text ih =>
      simp only [List.cons_append, blockLength, List.length_cons]
      refine ih.imp (fun same rest star slash => by rw [same rest star slash]) fun further => ?_
      exact ⟨by rw [further.1], fun rest star slash some_ => by
        have := further.2 rest star slash some_
        omega⟩
  | case5 depth char text notOpen notClose ih =>
      have step : ∀ rest, rest.head? ≠ some '*' → rest.head? ≠ some '/' →
          blockLength (depth + 1) (char :: text ++ rest) =
            blockLength (depth + 1) (text ++ rest) + 1 := by
        intro rest star slash
        rw [List.cons_append, blockLength]
        · rintro more rfl same
          cases text with
          | nil => exact star (by rw [List.nil_append] at same; rw [same]; rfl)
          | cons next text =>
              simp only [List.cons_append, List.cons.injEq] at same
              exact notOpen text rfl (by rw [same.1])
        · rintro more rfl same
          cases text with
          | nil => exact slash (by rw [List.nil_append] at same; rw [same]; rfl)
          | cons next text =>
              simp only [List.cons_append, List.cons.injEq] at same
              exact notClose text rfl (by rw [same.1])
      simp only [List.length_cons]
      refine ih.imp (fun same rest star slash => by rw [step rest star slash, same rest star slash])
        fun further => ?_
      exact ⟨by rw [further.1], fun rest star slash some_ => by
        have := further.2 rest star slash some_
        rw [step rest star slash]
        omega⟩

theorem find_prefix {pattern : List Char} {place : Nat} (found : find pattern text = some place) :
    pattern <+: text.drop place := by
  induction text generalizing place with
  | nil =>
      rw [find] at found
      split_ifs at found with empty
      simp [empty]
  | cons char rest ih =>
      rw [find] at found
      split_ifs at found with here
      · cases found
        exact List.isPrefixOf_iff_prefix.mp here
      · obtain ⟨later, further, rfl⟩ := Option.map_eq_some_iff.mp found
        exact ih further

theorem find_some {pattern : List Char} {place : Nat} (here : pattern <+: text.drop place)
    (inside : place ≤ text.length) : (find pattern text).isSome = true := by
  induction text generalizing place with
  | nil =>
      rw [List.drop_nil, List.prefix_nil] at here
      simp [find, here]
  | cons char rest ih =>
      rw [find]
      split_ifs with first
      · rfl
      · rw [Option.isSome_map]
        cases place with
        | zero => exact absurd (List.isPrefixOf_iff_prefix.mpr here) first
        | succ place => exact ih here (by simpa using inside)

theorem find_beyond {pattern : List Char} {place : Nat} (absent : find pattern text = none)
    (found : find pattern (text ++ rest) = some place) : text.length < place + pattern.length := by
  by_contra within
  rw [not_lt] at within
  have here := find_prefix found
  rw [List.drop_append_of_le_length (by omega)] at here
  have inside := List.prefix_of_prefix_length_le here (List.prefix_append (text.drop place) rest)
    (by rw [List.length_drop]; omega)
  have present := find_some inside (by omega)
  rw [absent] at present
  cases present

theorem takeWhile_length {text : List Char} {stop : Char} (found : stop ∈ text) :
    (text.takeWhile (· ≠ stop)).length < text.length := by
  induction text with
  | nil => cases found
  | cons char text ih =>
      by_cases same : char = stop
      · simp [same]
      · rw [List.takeWhile_cons_of_pos (by simpa using same)]
        have := ih ((List.mem_cons.mp found).resolve_left (Ne.symm same))
        simp only [List.length_cons]
        omega

theorem takeWhile_self {text : List Char} {stop : Char} (absent : stop ∉ text) (rest : List Char) :
    (text ++ rest).takeWhile (· ≠ stop) = text ++ rest.takeWhile (· ≠ stop) := by
  induction text with
  | nil => rfl
  | cons char text ih =>
      obtain ⟨first, others⟩ := not_or.mp (List.mem_cons.not.mp absent)
      rw [List.cons_append, List.takeWhile_cons_of_pos (by simpa using Ne.symm first), ih others]
      rfl

theorem takeWhile_found {text : List Char} {stop : Char} (found : stop ∈ text) (rest : List Char) :
    (text ++ rest).takeWhile (· ≠ stop) = text.takeWhile (· ≠ stop) := by
  induction text with
  | nil => cases found
  | cons char text ih =>
      by_cases same : char = stop
      · simp [same]
      · rw [List.cons_append, List.takeWhile_cons_of_pos (by simpa using same),
          List.takeWhile_cons_of_pos (by simpa using same),
          ih ((List.mem_cons.mp found).resolve_left (Ne.symm same))]

theorem dollarTagAt_append (separated : Separated alphabet rest) (text : List Char) :
    dollarTagAt alphabet (text ++ rest) = dollarTagAt alphabet text := by
  unfold dollarTagAt
  by_cases dollar : '$' ∈ text
  · have short := takeWhile_length dollar
    rw [takeWhile_found dollar, List.length_append]
    have within : ¬(text.takeWhile (· ≠ '$')).length = text.length + rest.length := by omega
    have inside : ¬(text.takeWhile (· ≠ '$')).length = text.length := by omega
    dsimp only
    rw [if_neg within, if_neg inside]
  · rw [takeWhile_self dollar]
    have whole : text.takeWhile (· ≠ '$') = text := by
      simpa using takeWhile_self dollar []
    dsimp only
    rw [whole, if_pos rfl]
    cases rest with
    | nil => simp
    | cons head rest =>
        have ⟨marks, notAlnum⟩ := separated_marks (separated head rfl)
        have notDollar : head ≠ '$' := fun same => marks (by simp [same])
        have notScore : head ≠ '_' := fun same => marks (by simp [same])
        rw [List.takeWhile_cons_of_pos (by simpa using notDollar)]
        have bad : ¬(text ++ head :: rest.takeWhile (· ≠ '$')).all (fun char =>
            alphabet.isAlnum char || char == '_') = true := by
          simp [notAlnum, notScore]
        split_ifs <;> rfl

def guarded (alphabet : Alphabet) (previous : Option Char) (text : List Char) : Nat :=
  protectedLength alphabet (fun _ _ _ => false) previous text

theorem guarded_line (text : List Char) : guarded alphabet previous ('-' :: '-' :: text) =
    2 + (text.takeWhile (· ≠ '\n')).length := by
  rw [guarded, protectedLength]

theorem guarded_block (text : List Char) :
    guarded alphabet previous ('/' :: '*' :: text) = 2 + blockLength 1 text := by
  rw [guarded, protectedLength]

abbrev isQuote (char : Char) : Prop := char = '\'' ∨ char = '\x22' ∨ char = '\x60'

theorem guarded_quote {char : Char} (quote : isQuote char) (text : List Char) :
    guarded alphabet previous (char :: text) = endOfStringLiteral previous char text := by
  rw [guarded, protectedLength, if_pos quote]
  · rintro more rfl _
    rcases quote with same | same | same <;> cases same
  · rintro more rfl _
    rcases quote with same | same | same <;> cases same

theorem guarded_dollar (text : List Char) : guarded alphabet previous ('$' :: text) =
    match dollarTagAt alphabet text with
    | none => 0
    | some tag =>
        match find tag (('$' :: text).drop tag.length) with
        | none => text.length + 1
        | some close => close + tag.length + tag.length := by
  rw [guarded, protectedLength, if_neg (by decide), if_pos rfl]
  · cases dollarTagAt alphabet text with
    | none => rfl
    | some tag =>
        dsimp only
        rw [if_neg Bool.false_ne_true]
        cases find tag (('$' :: text).drop tag.length) <;> rfl
  · rintro more ⟨⟩
  · rintro more ⟨⟩

theorem guarded_code {char : Char} (noQuote : ¬isQuote char) (noDollar : char ≠ '$')
    (noDash : ∀ more, char = '-' → text = '-' :: more → False)
    (noStar : ∀ more, char = '/' → text = '*' :: more → False) :
    guarded alphabet previous (char :: text) = 0 := by
  rw [guarded, protectedLength, if_neg noQuote, if_neg noDollar]
  · exact noDash
  · exact noStar

theorem Separated.apart {char : Char} (separated : Separated alphabet rest)
    (mark : char ∈ ['\'', '\x22', '\x60', '$', '-', '*', '/', '_', '\\', 'E', 'e']) :
    rest.head? ≠ some char :=
  fun same => (separated_marks (separated char same)).1 mark

theorem dollarTagAt_length {tag : List Char} (isTag : dollarTagAt alphabet text = some tag) :
    tag.length ≤ text.length + 1 := by
  have short := (text.takeWhile_sublist fun char => decide (char ≠ '$')).length_le
  unfold dollarTagAt at isTag
  dsimp only at isTag
  split_ifs at isTag with whole first others
  cases isTag
  simp only [List.cons_append, List.length_cons, List.length_append, List.length_nil]
  omega

def Shut (alphabet : Alphabet) (previous : Option Char) (text : List Char) : Prop :=
  ∀ rest, Separated alphabet rest →
    guarded alphabet previous (text ++ rest) = guarded alphabet previous text

def Commented (text : List Char) : Prop := ∃ more, text = '-' :: '-' :: more ∧ '\n' ∉ more

/-- A part that the text does not end, and what follows continues it. -/
def Unclosed (alphabet : Alphabet) (previous : Option Char) (text : List Char) : Prop :=
  guarded alphabet previous text = text.length ∧ ∀ rest, Separated alphabet rest → rest ≠ [] →
    text.length < guarded alphabet previous (text ++ rest)

theorem dollar_append (text : List Char) :
    Shut alphabet previous ('$' :: text) ∨ Unclosed alphabet previous ('$' :: text) := by
  cases isTag : dollarTagAt alphabet text with
  | none =>
      refine Or.inl fun rest separated => ?_
      rw [List.cons_append, guarded_dollar, guarded_dollar, dollarTagAt_append separated, isTag]
  | some tag =>
      have short : tag.length ≤ ('$' :: text).length := dollarTagAt_length isTag
      cases found : find tag (('$' :: text).drop tag.length) with
      | some close =>
          refine Or.inl fun rest separated => ?_
          rw [List.cons_append, guarded_dollar, guarded_dollar, dollarTagAt_append separated, isTag]
          dsimp only
          rw [← List.cons_append, List.drop_append_of_le_length short, find_append found, found]
      | none =>
          refine Or.inr ⟨?_, fun rest separated some_ => ?_⟩
          · rw [guarded_dollar, isTag]
            dsimp only
            rw [found]
            rfl
          · have positive := List.length_pos_iff.mpr some_
            rw [List.cons_append, guarded_dollar, dollarTagAt_append separated, isTag]
            dsimp only
            rw [← List.cons_append, List.drop_append_of_le_length short]
            cases later : find tag (('$' :: text).drop tag.length ++ rest) with
            | none =>
                simp only [List.length_cons, List.length_append]
                omega
            | some close =>
                have beyond := find_beyond found later
                rw [List.length_drop] at beyond
                have reached : ('$' :: text).length < close + tag.length + tag.length := by omega
                exact reached

theorem quote_append {char : Char} (quote : isQuote char) (text : List Char) :
    Shut alphabet previous (char :: text) ∨ Unclosed alphabet previous (char :: text) := by
  have mark : char ∈ ['\'', '\x22', '\x60', '$', '-', '*', '/', '_', '\\', 'E', 'e'] := by
    rcases quote with rfl | rfl | rfl <;> simp
  rcases @quoteLength_append (decide (char = '\'' ∧ (previous = some 'E' ∨ previous = some 'e')))
      char text with same | ⟨whole, further⟩
  · refine Or.inl fun rest separated => ?_
    rw [List.cons_append, guarded_quote quote, guarded_quote quote, endOfStringLiteral,
      endOfStringLiteral, same rest (separated.apart mark)]
  · refine Or.inr ⟨?_, fun rest separated some_ => ?_⟩
    · rw [guarded_quote quote, endOfStringLiteral, whole, List.length_cons, Nat.add_comm]
    · have := further rest (separated.apart mark) some_
      rw [List.cons_append, guarded_quote quote, endOfStringLiteral, List.length_cons]
      omega

theorem block_append (text : List Char) : Shut alphabet previous ('/' :: '*' :: text) ∨
    Unclosed alphabet previous ('/' :: '*' :: text) := by
  rcases blockLength_append 1 text with same | ⟨whole, further⟩
  · refine Or.inl fun rest separated => ?_
    rw [List.cons_append, List.cons_append, guarded_block, guarded_block,
      same rest (separated.apart (by simp)) (separated.apart (by simp))]
  · refine Or.inr ⟨?_, fun rest separated some_ => ?_⟩
    · simp only [guarded_block, whole, List.length_cons]
      omega
    · have := further rest (separated.apart (by simp)) (separated.apart (by simp)) some_
      simp only [List.cons_append, guarded_block, List.length_cons]
      omega

theorem guarded_append (some_ : text ≠ []) : Shut alphabet previous text ∨ Commented text ∨
    Unclosed alphabet previous text := by
  obtain ⟨char, text, rfl⟩ := List.exists_cons_of_ne_nil some_
  by_cases line : ∃ more, char :: text = '-' :: '-' :: more
  · obtain ⟨more, same⟩ := line
    by_cases ended : '\n' ∈ more
    · refine Or.inl fun rest _ => ?_
      rw [same, List.cons_append, List.cons_append, guarded_line, guarded_line,
        takeWhile_found ended]
    · exact Or.inr (Or.inl ⟨more, same, ended⟩)
  · by_cases block : ∃ more, char :: text = '/' :: '*' :: more
    · obtain ⟨more, same⟩ := block
      rw [same]
      exact (block_append more).imp_right Or.inr
    · by_cases quote : isQuote char
      · exact (quote_append quote text).imp_right Or.inr
      · by_cases dollar : char = '$'
        · subst dollar
          exact (dollar_append text).imp_right Or.inr
        · refine Or.inl fun rest separated => ?_
          have code : ∀ rest, Separated alphabet rest →
              guarded alphabet previous (char :: (text ++ rest)) = 0 := by
            intro rest separated
            refine guarded_code quote dollar ?_ ?_
            · rintro more rfl same
              cases text with
              | nil => exact separated.apart (by simp) (congrArg List.head? same)
              | cons next text =>
                  simp only [List.cons_append, List.cons.injEq] at same
                  exact line ⟨text, by rw [same.1]⟩
            · rintro more rfl same
              cases text with
              | nil => exact separated.apart (by simp) (congrArg List.head? same)
              | cons next text =>
                  simp only [List.cons_append, List.cons.injEq] at same
                  exact block ⟨text, by rw [same.1]⟩
          have alone := code [] fun _ absent => nomatch absent
          rw [List.append_nil] at alone
          rw [List.cons_append, code rest separated, alone]

theorem commented_append (commented : Commented text) (rest : List Char) :
    guarded alphabet previous (text ++ rest) =
      text.length + (rest.takeWhile (· ≠ '\n')).length := by
  obtain ⟨more, rfl, absent⟩ := commented
  rw [List.cons_append, List.cons_append, guarded_line, takeWhile_self absent]
  simp only [List.length_cons, List.length_append]
  omega

/-! A part that ends before the text ends with its mark, or is a line comment. -/

theorem getLast?_cons_some {first last : Char} {text : List Char}
    (found : text.getLast? = some last) : (first :: text).getLast? = some last := by
  rw [List.getLast?_cons, found, Option.getD_some]

theorem quoteLength_closer {escaped : Bool} {quote : Char} (text : List Char)
    (ends : quoteLength escaped quote text < text.length) :
    (text.take (quoteLength escaped quote text)).getLast? = some quote := by
  fun_induction quoteLength escaped quote text with
  | case1 => exact absurd ends (Nat.lt_irrefl 0)
  | case2 => exact absurd ends (Nat.lt_irrefl 1)
  | case3 char next text _ ih =>
      exact getLast?_cons_some (getLast?_cons_some (ih (by simpa using ends)))
  | case4 text _ ih => exact getLast?_cons_some (getLast?_cons_some (ih (by simpa using ends)))
  | case5 => rfl
  | case6 char next text _ _ ih => exact getLast?_cons_some (ih (by simpa using ends))

theorem blockLength_closer (depth : Nat) (text : List Char) (nested : depth ≠ 0)
    (ends : blockLength depth text < text.length) :
    (text.take (blockLength depth text)).getLast? = some '/' := by
  fun_induction blockLength depth text with
  | case1 => exact absurd rfl nested
  | case2 => exact absurd ends (Nat.lt_irrefl 0)
  | case3 depth text ih =>
      exact getLast?_cons_some (getLast?_cons_some (ih (by omega) (by simpa using ends)))
  | case4 depth text ih =>
      cases depth with
      | zero => simp [blockLength]
      | succ depth =>
          exact getLast?_cons_some (getLast?_cons_some (ih (by omega) (by simpa using ends)))
  | case5 depth char text _ _ ih =>
      exact getLast?_cons_some (ih nested (by simpa using ends))

theorem dollar_closer {tag : List Char} (isTag : dollarTagAt alphabet text = some tag) :
    tag.getLast? = some '$' := by
  unfold dollarTagAt at isTag
  dsimp only at isTag
  split_ifs at isTag with whole first others
  cases isTag
  exact List.getLast?_concat

theorem guarded_closer (some_ : guarded alphabet previous text ≠ 0)
    (ends : guarded alphabet previous text < text.length) :
    (∃ more, text = '-' :: '-' :: more) ∨ ∃ mark ∈ ['\'', '\x22', '\x60', '/', '$'],
      (text.take (guarded alphabet previous text)).getLast? = some mark := by
  cases text with
  | nil => exact absurd ends (Nat.not_lt_zero _)
  | cons char text =>
      by_cases line : ∃ more, char :: text = '-' :: '-' :: more
      · exact Or.inl line
      · refine Or.inr ?_
        by_cases block : ∃ more, char :: text = '/' :: '*' :: more
        · obtain ⟨more, same⟩ := block
          rw [same, guarded_block] at ends
          refine ⟨'/', by simp, ?_⟩
          rw [same, guarded_block, Nat.add_comm]
          have inner : blockLength 1 more < more.length := by
            simp only [List.length_cons] at ends
            omega
          exact getLast?_cons_some (getLast?_cons_some
            (blockLength_closer 1 more Nat.one_ne_zero inner))
        · by_cases quote : isQuote char
          · rw [guarded_quote quote, endOfStringLiteral] at ends
            refine ⟨char, by rcases quote with rfl | rfl | rfl <;> simp, ?_⟩
            rw [guarded_quote quote, endOfStringLiteral, Nat.add_comm]
            rw [List.length_cons] at ends
            exact getLast?_cons_some (quoteLength_closer text (by omega))
          · by_cases dollar : char = '$'
            · subst dollar
              refine ⟨'$', by simp, ?_⟩
              rw [guarded_dollar] at some_ ends ⊢
              cases isTag : dollarTagAt alphabet text with
              | none =>
                  rw [isTag] at some_
                  exact absurd rfl some_
              | some tag =>
                  rw [isTag] at ends
                  dsimp only at ends ⊢
                  cases found : find tag (('$' :: text).drop tag.length) with
                  | none =>
                      rw [found] at ends
                      exact absurd ends (Nat.lt_irrefl _)
                  | some close =>
                      dsimp only
                      obtain ⟨after, here⟩ := find_prefix found
                      rw [List.drop_drop] at here
                      rw [Nat.add_comm close, List.take_add, ← here, List.take_left,
                        List.getLast?_append, dollar_closer isTag]
                      rfl
            · exfalso
              refine some_ (guarded_code quote dollar ?_ ?_)
              · rintro more rfl rfl
                exact line ⟨more, rfl⟩
              · rintro more rfl rfl
                exact block ⟨more, rfl⟩

end SqlTexts

end EtlCraft
