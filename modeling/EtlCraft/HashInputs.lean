import EtlCraft.JsonTexts
import EtlCraft.Substitution

/-! The text a row's hash is taken of: per column its NULL tag, or the length of its canonical text
and the text itself. Equal texts come from equal rows. -/

namespace EtlCraft.HashInputs

open Numerals JsonTexts

/-! ## Canonical texts -/

/-- What Python knows of characters: `str.upper` and the classes of the patterns. -/
structure Characters where
  upper : String → String
  isWord : Char → Bool
  isDigit : Char → Bool
  isSpace : Char → Bool

inductive Rendering
  | castText
  | booleanText
  | decimalText (kind : String)
  | dateText
  | timestampText (kind : String)
  deriving DecidableEq

inductive HashRefusal
  | unsupportedArray (value kind : String)
  | unstableFloat (value kind : String)
  | undeclaredScale (value kind : String)
  | unsupportedType (value kind : String)
  | unequalLengths
  deriving DecidableEq

def floatTypes : List String :=
  ["FLOAT", "FLOAT4", "FLOAT8", "DOUBLE", "REAL", "BINARY_FLOAT", "BINARY_DOUBLE"]

def timestampTypes : List String :=
  ["TIMESTAMP", "TIMESTAMPTZ", "TIMESTAMP_NS", "TIMESTAMP_MS", "TIMESTAMP_S", "TIMESTAMP_NTZ",
    "TIMESTAMP_LTZ", "TIMESTAMP_TZ", "DATETIME"]

def decimalTypes : List String := ["DECIMAL", "NUMERIC", "NUMBER"]

def plainTypes : List String :=
  ["VARCHAR", "CHAR", "CHARACTER", "TEXT", "STRING", "BPCHAR", "TINYINT", "SMALLINT", "INTEGER",
    "INT", "BIGINT", "HUGEINT", "UTINYINT", "USMALLINT", "UINTEGER", "UBIGINT"]

/-- `re.split(r"[ (]", kind)[0]` -/
def baseType (kind : String) : String :=
  String.ofList (kind.toList.takeWhile fun char => char != ' ' && char != '(')

section Types

variable (characters : Characters)

def isArray (kind : String) : Bool :=
  kind.toList.contains '[' ||
    Substitution.search characters.isWord (· == ·) "ARRAY".toList kind.toList

/-- `\(\d+,\s*\d+\)` to the end. -/
def isScale : List Char → Bool
  | '(' :: rest =>
      !(rest.takeWhile characters.isDigit).isEmpty &&
        match rest.dropWhile characters.isDigit with
        | ',' :: rest =>
            let rest := rest.dropWhile characters.isSpace
            !(rest.takeWhile characters.isDigit).isEmpty &&
              rest.dropWhile characters.isDigit == [')']
        | _ => false
  | _ => false

def declaredScale (kind : String) : Bool :=
  decimalTypes.any fun name =>
    name.toList.isPrefixOf kind.toList && isScale characters (kind.toList.drop name.length)

def canonicalText (value kind : String) : Except HashRefusal Rendering :=
  let kind := characters.upper kind
  let base := baseType kind
  if isArray characters kind then .error (.unsupportedArray value kind)
  else if floatTypes.contains base then .error (.unstableFloat value kind)
  else if timestampTypes.contains base then .ok (.timestampText kind)
  else if ["BOOLEAN", "BOOL"].contains base then .ok .booleanText
  else if decimalTypes.contains base then
    if declaredScale characters kind then .ok (.decimalText kind)
    else .error (.undeclaredScale value kind)
  else if base == "DATE" then .ok .dateText
  else if plainTypes.contains base then .ok .castText
  else .error (.unsupportedType value kind)

/-! ## The expression -/

inductive SqlText
  | literal (text : Text)
  | canonical (rendering : Rendering) (value : String)
  | lengthOf (text : SqlText)
  | concat (left right : SqlText)
  | ifNull (value : String) (null otherwise : SqlText)

def hashPart (value : String) (rendering : Rendering) : SqlText :=
  .ifNull value (.literal (points "N"))
    (.concat (.concat (.concat (.literal (points "V"))
      (.lengthOf (.canonical rendering value))) (.literal (points ":")))
      (.canonical rendering value))

def hashParts : List String → List String → Except HashRefusal (List SqlText)
  | [], [] => .ok []
  | value :: values, kind :: kinds => do
      let rendering ← canonicalText characters value kind
      let rest ← hashParts values kinds
      .ok (hashPart value rendering :: rest)
  | _, _ => .error .unequalLengths

def joinParts : List SqlText → Option SqlText
  | [] => none
  | part :: parts => some (parts.foldl .concat part)

def hashInput (values : List String) (types : Option (List String)) :
    Except HashRefusal (Option SqlText) := do
  let kinds := types.getD (List.replicate values.length "VARCHAR")
  let parts ← hashParts characters values kinds
  .ok (joinParts parts)

end Types

/-! ## What the warehouse computes -/

/-- The texts of values that are not NULL; a text may be NULL where the value is not. -/
structure Warehouse (Value : Type) where
  truth : Value → Option Bool
  castText : Value → Option Text
  decimalText : String → Value → Option Text
  dateText : Value → Option Text
  timestampText : String → Value → Option Text

section Values

variable {Value : Type} (warehouse : Warehouse Value)

def Warehouse.render : Rendering → Value → Option Text
  | .castText, value => warehouse.castText value
  | .booleanText, value =>
      some (if warehouse.truth value = some true then points "true" else points "false")
  | .decimalText kind, value => warehouse.decimalText kind value
  | .dateText, value => warehouse.dateText value
  | .timestampText kind, value => warehouse.timestampText kind value

/-- The value of an expression over a row; `||` and `LENGTH` of a NULL are NULL. -/
def SqlText.eval (row : String → Option Value) : SqlText → Option Text
  | literal text => some text
  | canonical rendering value => (row value).bind (warehouse.render rendering)
  | lengthOf text => (text.eval row).map fun rendered => numeral rendered.length
  | concat left right =>
      match left.eval row, right.eval row with
      | some first, some second => some (first ++ second)
      | _, _ => none
  | ifNull value null otherwise =>
      match row value with
      | none => null.eval row
      | some _ => otherwise.eval row

def evalInput (row : String → Option Value) (input : Option SqlText) : Option Text :=
  input.bind (SqlText.eval warehouse row)

def hashExpression {Digest : Type} (md5 : Text → Digest) (row : String → Option Value)
    (input : Option SqlText) : Option Digest :=
  (evalInput warehouse row input).map md5

/-- The row column by column: NULL, or the text `canonicalText` renders the value to. -/
def renderedRow (characters : Characters) (row : String → Option Value) :
    List String → List String → List (Option (Option Text))
  | value :: values, kind :: kinds =>
      (match canonicalText characters value kind with
        | .ok rendering => (row value).map (warehouse.render rendering)
        | .error _ => none) :: renderedRow characters row values kinds
  | _, _ => []

end Values

/-! ## Decoding -/

def cellText : Option (Option Text) → Option Text
  | none => some (points "N")
  | some none => none
  | some (some text) =>
      some (points "V" ++ numeral text.length ++ points ":" ++ text)

theorem cellText_cancel {first second : Option (Option Text)} {left right rest rest' : Text}
    (firstText : cellText first = some left) (secondText : cellText second = some right)
    (same : left ++ rest = right ++ rest') : first = second ∧ rest = rest' := by
  have tags : point 'V' ≠ point 'N' := by decide
  match first, second with
  | some none, _ => simp [cellText] at firstText
  | _, some none => simp [cellText] at secondText
  | none, none =>
      simp only [cellText, Option.some.injEq] at firstText secondText
      subst firstText secondText
      exact ⟨rfl, List.append_cancel_left same⟩
  | none, some (some text) =>
      simp only [cellText, Option.some.injEq] at firstText secondText
      subst firstText secondText
      exact absurd (List.cons.inj same).1.symm tags
  | some (some text), none =>
      simp only [cellText, Option.some.injEq] at firstText secondText
      subst firstText secondText
      exact absurd (List.cons.inj same).1 tags
  | some (some text), some (some other) =>
      simp only [cellText, Option.some.injEq] at firstText secondText
      subst firstText secondText
      simp only [List.append_assoc] at same
      have bodies := List.append_cancel_left same
      have digits : isDigit (point ':') = false := by decide
      have parts := numeral_cancel digits bodies
      have texts : text ++ rest = other ++ rest' := parts.2
      obtain ⟨sameText, sameRest⟩ := List.append_inj texts parts.1
      subst sameText
      exact ⟨rfl, sameRest⟩

def allTexts : List (Option Text) → Option Text
  | [] => some []
  | text :: texts => text.bind fun first => (allTexts texts).map (first ++ ·)

theorem cells_decode {first second : List (Option (Option Text))}
    (lengths : first.length = second.length) {text : Text}
    (left : allTexts (first.map cellText) = some text)
    (right : allTexts (second.map cellText) = some text) : first = second := by
  induction first generalizing second text with
  | nil => exact (List.length_eq_zero_iff.mp lengths.symm).symm
  | cons cell first ih =>
      cases second with
      | nil => simp at lengths
      | cons other second =>
          rw [List.map_cons, allTexts, Option.bind_eq_some_iff] at left right
          obtain ⟨leftText, leftCell, leftRest⟩ := left
          obtain ⟨rightText, rightCell, rightRest⟩ := right
          rw [Option.map_eq_some_iff] at leftRest rightRest
          obtain ⟨leftMore, leftMoreText, rfl⟩ := leftRest
          obtain ⟨rightMore, rightMoreText, same⟩ := rightRest
          obtain ⟨cells, more⟩ := cellText_cancel leftCell rightCell same.symm
          subst cells more
          rw [ih (by simpa using lengths) leftMoreText rightMoreText]

section Rows

variable {Value : Type} (warehouse : Warehouse Value) {characters : Characters}
  (row : String → Option Value)

theorem hashPart_eval (value : String) (rendering : Rendering) :
    (hashPart value rendering).eval warehouse row =
      cellText ((row value).map (warehouse.render rendering)) := by
  cases held : row value with
  | none => simp [hashPart, SqlText.eval, held, cellText]
  | some content =>
      cases rendered : warehouse.render rendering content with
      | none => simp [hashPart, SqlText.eval, held, rendered, cellText]
      | some text => simp [hashPart, SqlText.eval, held, rendered, cellText]

theorem joined_eval (first : SqlText) (parts : List SqlText) :
    (parts.foldl .concat first).eval warehouse row =
      allTexts ((first :: parts).map (SqlText.eval warehouse row)) := by
  induction parts generalizing first with
  | nil => cases held : first.eval warehouse row <;> simp [allTexts, held]
  | cons part parts ih =>
      rw [List.foldl_cons, ih, List.map_cons, List.map_cons, List.map_cons, allTexts, allTexts,
        allTexts, SqlText.eval]
      cases first.eval warehouse row with
      | none => rfl
      | some left =>
          cases part.eval warehouse row with
          | none => rfl
          | some right =>
              cases allTexts (parts.map (SqlText.eval warehouse row)) with
              | none => rfl
              | some rest => simp

theorem hashParts_eval {values kinds : List String} {parts : List SqlText}
    (built : hashParts characters values kinds = .ok parts) :
    parts.map (SqlText.eval warehouse row) =
        (renderedRow warehouse characters row values kinds).map cellText ∧
      values.length = kinds.length := by
  induction values generalizing kinds parts with
  | nil =>
      cases kinds with
      | nil =>
          cases built
          exact ⟨rfl, rfl⟩
      | cons => simp [hashParts] at built
  | cons value values ih =>
      cases kinds with
      | nil => simp [hashParts] at built
      | cons kind kinds =>
          rw [hashParts] at built
          cases rendered : canonicalText characters value kind with
          | error refusal => simp [rendered, bind, Except.bind] at built
          | ok rendering =>
              cases later : hashParts characters values kinds with
              | error refusal => simp [rendered, later, bind, Except.bind] at built
              | ok rest =>
                  simp only [rendered, later, bind, Except.bind, Except.ok.injEq] at built
                  subst built
                  obtain ⟨same, lengths⟩ := ih later
                  refine ⟨?_, by simp [lengths]⟩
                  rw [List.map_cons, hashPart_eval, same, renderedRow, rendered]
                  rfl

theorem renderedRow_length {values kinds : List String} (lengths : values.length = kinds.length) :
    (renderedRow warehouse characters row values kinds).length = kinds.length := by
  induction values generalizing kinds with
  | nil =>
      cases kinds with
      | nil => rfl
      | cons => simp at lengths
  | cons value values ih =>
      cases kinds with
      | nil => simp at lengths
      | cons kind kinds => simp [renderedRow, ih (by simpa using lengths)]

variable {warehouse row}

theorem evalInput_joined {parts : List SqlText} {text : Text}
    (computed : evalInput warehouse row (joinParts parts) = some text) :
    allTexts (parts.map (SqlText.eval warehouse row)) = some text := by
  cases parts with
  | nil => simp [evalInput, joinParts] at computed
  | cons part parts => rwa [← joined_eval]

end Rows

def kindsOf (values : List String) (types : Option (List String)) : List String :=
  types.getD (List.replicate values.length "VARCHAR")

theorem hashInput_shape {characters : Characters} {values : List String}
    {types : Option (List String)} {input : Option SqlText}
    (built : hashInput characters values types = .ok input) :
    ∃ parts, hashParts characters values (kindsOf values types) = .ok parts ∧
      input = joinParts parts := by
  rw [hashInput] at built
  cases made : hashParts characters values (kindsOf values types) with
  | error refusal =>
      rw [kindsOf] at made
      simp [made, bind, Except.bind] at built
  | ok parts =>
      rw [kindsOf] at made
      simp only [made, bind, Except.bind, Except.ok.injEq] at built
      exact ⟨parts, rfl, built.symm⟩

/-- Two rows that are hashed from one text are rendered the same in every column, and two rows with
one hash are, unless MD5 maps two texts to it. -/
theorem hash_input_injective {Value Digest : Type} (warehouse : Warehouse Value)
    (characters : Characters) (md5 : Text → Digest) {values others : List String}
    {types otherTypes : Option (List String)} {input other : Option SqlText}
    (kinds : kindsOf values types = kindsOf others otherTypes)
    (built : hashInput characters values types = .ok input)
    (otherBuilt : hashInput characters others otherTypes = .ok other)
    (row otherRow : String → Option Value) :
    (∀ text, evalInput warehouse row input = some text →
      evalInput warehouse otherRow other = some text →
        renderedRow warehouse characters row values (kindsOf values types) =
          renderedRow warehouse characters otherRow others (kindsOf values types)) ∧
    (∀ key, hashExpression warehouse md5 row input = some key →
      hashExpression warehouse md5 otherRow other = some key →
        renderedRow warehouse characters row values (kindsOf values types) =
            renderedRow warehouse characters otherRow others (kindsOf values types) ∨
          ∃ first second, evalInput warehouse row input = some first ∧
            evalInput warehouse otherRow other = some second ∧ first ≠ second ∧
            md5 first = md5 second) := by
  obtain ⟨parts, made, rfl⟩ := hashInput_shape built
  obtain ⟨otherParts, otherMade, rfl⟩ := hashInput_shape otherBuilt
  rw [← kinds] at otherMade
  have injective : ∀ text, evalInput warehouse row (joinParts parts) = some text →
      evalInput warehouse otherRow (joinParts otherParts) = some text →
        renderedRow warehouse characters row values (kindsOf values types) =
          renderedRow warehouse characters otherRow others (kindsOf values types) := by
    intro text computed otherComputed
    have left := evalInput_joined computed
    have right := evalInput_joined otherComputed
    obtain ⟨cells, lengths⟩ := hashParts_eval warehouse row made
    obtain ⟨otherCells, otherLengths⟩ := hashParts_eval warehouse otherRow otherMade
    rw [cells] at left
    rw [otherCells] at right
    apply cells_decode _ left right
    rw [renderedRow_length warehouse row lengths, renderedRow_length warehouse otherRow otherLengths]
  refine ⟨injective, fun key hashed otherHashed => ?_⟩
  rw [hashExpression, Option.map_eq_some_iff] at hashed otherHashed
  obtain ⟨first, computed, rfl⟩ := hashed
  obtain ⟨second, otherComputed, collides⟩ := otherHashed
  by_cases same : first = second
  · subst same
    exact .inl (injective first computed otherComputed)
  · exact .inr ⟨first, second, computed, otherComputed, same, collides.symm⟩

def plainCharacters : Characters := ⟨id, Char.isAlphanum, Char.isDigit, Char.isWhitespace⟩

def textWarehouse : Warehouse Text :=
  ⟨fun _ => none, some, fun _ => some, some, fun _ => some⟩

def cityRow (name city : Option String) (value : String) : Option Text :=
  (if value = "name" then name else city).map points

/-- A text moved over the border of two columns, and NULL in place of the empty text. -/
theorem moved_border_apart : ∃ input,
    hashInput plainCharacters ["name", "city"] none = .ok input ∧
      evalInput textWarehouse (cityRow (some "1:a") (some "b")) input ≠
        evalInput textWarehouse (cityRow (some "1:") (some "ab")) input ∧
      evalInput textWarehouse (cityRow (some "") (some "b")) input ≠
        evalInput textWarehouse (cityRow none (some "b")) input := by
  refine ⟨_, rfl, fun same => ?_, fun same => ?_⟩
  · have texts := (hash_input_injective textWarehouse plainCharacters id
      (show kindsOf ["name", "city"] none = kindsOf ["name", "city"] none from rfl) rfl rfl
      (cityRow (some "1:a") (some "b")) (cityRow (some "1:") (some "ab"))).1 _ rfl same.symm
    revert texts
    decide
  · have texts := (hash_input_injective textWarehouse plainCharacters id
      (show kindsOf ["name", "city"] none = kindsOf ["name", "city"] none from rfl) rfl rfl
      (cityRow (some "") (some "b")) (cityRow none (some "b"))).1 _ rfl same.symm
    revert texts
    decide

end EtlCraft.HashInputs
