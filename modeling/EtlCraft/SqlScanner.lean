import Mathlib

/-! The scanner of SQL texts: what is code and what is quoted or a comment. -/

namespace EtlCraft

namespace SqlTexts

/-- What the language says of characters. Only ASCII is fixed here. -/
structure Alphabet where
  isAlpha : Char → Bool
  isAlnum : Char → Bool
  isSpace : Char → Bool
  upper : List Char → List Char
  same : Char → Char → Bool
  repr : List Char → String
  alpha_ascii : ∀ char, char.toNat < 128 → isAlpha char = char.isAlpha
  alnum_ascii : ∀ char, char.toNat < 128 → isAlnum char = char.isAlphanum
  space_ascii : ∀ char, char.toNat < 128 → isSpace char =
    (9 ≤ char.toNat && char.toNat ≤ 13 || 28 ≤ char.toNat && char.toNat ≤ 32)
  alnum_space : ∀ char, isSpace char → isAlnum char = false
  alnum_same : ∀ letter char, letter.isUpper → same letter char → isAlnum char

def ascii : Alphabet where
  isAlpha := Char.isAlpha
  isAlnum := Char.isAlphanum
  isSpace char := 9 ≤ char.toNat && char.toNat ≤ 13 || 28 ≤ char.toNat && char.toNat ≤ 32
  upper := List.map Char.toUpper
  same letter char := letter == char.toUpper
  repr text := "'" ++ String.ofList text ++ "'"
  alpha_ascii _ _ := rfl
  alnum_ascii _ _ := rfl
  space_ascii _ _ := rfl
  alnum_space char space := by
    have bounds : 'A'.val.toNat = 65 ∧ 'Z'.val.toNat = 90 ∧ 'a'.val.toNat = 97 ∧
        'z'.val.toNat = 122 ∧ '0'.val.toNat = 48 ∧ '9'.val.toNat = 57 := by decide
    simp only [Char.isAlphanum, Char.isAlpha, Char.isUpper, Char.isLower, Char.isDigit, Char.toNat,
      UInt32.le_iff_toNat_le, Bool.or_eq_true, Bool.and_eq_true, decide_eq_true_eq, ge_iff_le,
      Bool.or_eq_false_iff, Bool.and_eq_false_iff, decide_eq_false_iff_not] at space ⊢
    omega
  alnum_same letter char upper is := by
    rw [beq_iff_eq] at is
    subst is
    cases lower : char.isLower with
    | true => simp [Char.isAlphanum, Char.isAlpha, lower]
    | false =>
        have same : char.toUpper = char := by
          rw [Char.toUpper, dif_neg]
          simpa [Char.isLower] using lower
        rw [same] at upper
        simp [Char.isAlphanum, Char.isAlpha, upper]

def Alphabet.isWord (alphabet : Alphabet) (char : Char) : Bool :=
  alphabet.isAlnum char || char == '_'

def find (pattern : List Char) : List Char → Option Nat
  | [] => if pattern = [] then some 0 else none
  | char :: rest =>
      if pattern.isPrefixOf (char :: rest) then some 0 else (find pattern rest).map (· + 1)

def tokenMatch : List Char → Option Nat
  | '$' :: '$' :: first :: rest =>
      if first.isAlpha ∨ first = '_' then
        some (3 + (rest.takeWhile fun char => char.isAlphanum ∨ char = '_').length)
      else none
  | _ => none

def blockLength : Nat → List Char → Nat
  | 0, _ => 0
  | _ + 1, [] => 0
  | depth + 1, '/' :: '*' :: rest => blockLength (depth + 2) rest + 2
  | depth + 1, '*' :: '/' :: rest => blockLength depth rest + 2
  | depth + 1, _ :: rest => blockLength (depth + 1) rest + 1

/-- What is left of quoted text. The last character ends it, whatever it is. -/
def quoteLength (escaped : Bool) (quote : Char) : List Char → Nat
  | [] => 0
  | [_] => 1
  | char :: next :: rest =>
      if escaped ∧ char = '\\' then quoteLength escaped quote rest + 2
      else if char = quote then
        if next = quote then quoteLength escaped quote rest + 2 else 1
      else quoteLength escaped quote (next :: rest) + 1

def endOfStringLiteral (previous : Option Char) (quote : Char) (rest : List Char) : Nat :=
  1 + quoteLength (quote = '\'' ∧ (previous = some 'E' ∨ previous = some 'e')) quote rest

def dollarTagAt (alphabet : Alphabet) (rest : List Char) : Option (List Char) :=
  let body := rest.takeWhile (· ≠ '$')
  if body.length = rest.length then none
  else if ∃ first ∈ body.head?, ¬(alphabet.isAlpha first ∨ first = '_') then none
  else if ¬body.all fun char => alphabet.isAlnum char || char == '_' then none
  else some ('$' :: body ++ ['$'])

/-- How far a protected part reaches from here, zero where code goes on. `isToken` says of a
dollar tag, the text and the place of the closing tag that no quote opens. -/
def protectedLength (alphabet : Alphabet) (isToken : List Char → List Char → Option Nat → Bool)
    (previous : Option Char) : List Char → Nat
  | [] => 0
  | '-' :: '-' :: rest => 2 + (rest.takeWhile (· ≠ '\n')).length
  | '/' :: '*' :: rest => 2 + blockLength 1 rest
  | char :: rest =>
      if char = '\'' ∨ char = '\x22' ∨ char = '\x60' then endOfStringLiteral previous char rest
      else if char = '$' then
        match dollarTagAt alphabet rest with
        | none => 0
        | some tag =>
            let close := (find tag ((char :: rest).drop tag.length)).map (· + tag.length)
            if isToken tag (char :: rest) close then 0
            else match close with
              | none => (char :: rest).length
              | some close => close + tag.length
      else 0

abbrev Part : Type :=
  List Char × Bool

def codePart (code : List Char) : List Part :=
  if code = [] then [] else [(code, false)]

/-- The loop of `sql_parts`: the character before, the code since the last part, the rest. -/
def partsLoop (alphabet : Alphabet) (isToken : List Char → List Char → Option Nat → Bool) :
    Nat → Option Char → List Char → List Char → List Part
  | 0, _, code, _ => codePart code
  | _ + 1, _, code, [] => codePart code
  | turns + 1, previous, code, char :: rest =>
      match protectedLength alphabet isToken previous (char :: rest) with
      | 0 => partsLoop alphabet isToken turns (some char) (code ++ [char]) rest
      | length + 1 =>
          let part := (char :: rest).take (length + 1)
          codePart code ++ (part, true) ::
            partsLoop alphabet isToken turns part.getLast? [] ((char :: rest).drop (length + 1))

def plainParts (alphabet : Alphabet) (sql : List Char) : List Part :=
  partsLoop alphabet (fun _ _ _ => false) sql.length none [] sql

def partAt : Nat → List Part → Option Part
  | _, [] => none
  | offset, part :: rest =>
      if offset < part.1.length then some part else partAt (offset - part.1.length) rest

/-- `_delimiter_in_quote_or_comment`, where the text starts at `start`. -/
def delimiterInQuoteOrComment (alphabet : Alphabet) (text : List Char) (delimiter : Nat) : Bool :=
  match partAt delimiter (plainParts alphabet text) with
  | none => false
  | some (part, isProtected) => isProtected && [['\''], ['\x22'], ['\x60'], ['-', '-'],
      ['/', '*']].any (·.isPrefixOf part)

def placeholder (alphabet : Alphabet) (tag text : List Char) (close : Option Nat) : Bool :=
  if tag = ['$', '$'] then
    match tokenMatch text, close with
    | none, _ => false
    | some _, none => true
    | some token, some close =>
        (close ≠ token && (tokenMatch (text.drop close)).isSome) ||
          (token ≤ close && delimiterInQuoteOrComment alphabet (text.drop token) (close - token)) ||
          ['$', '$', '$', '$'].isPrefixOf (text.drop close)
  else false

def sqlParts (alphabet : Alphabet) (placeholders : Bool) (sql : List Char) : List Part :=
  if placeholders then partsLoop alphabet (placeholder alphabet) sql.length none [] sql
  else plainParts alphabet sql

end SqlTexts

end EtlCraft
