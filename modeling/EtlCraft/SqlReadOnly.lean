import Mathlib.Data.List.DropRight
import EtlCraft.SqlScanner
import EtlCraft.Substitution

/-! The check that a SQL text only reads, which cuts comments and then string literals away. -/

namespace EtlCraft

namespace SqlTexts

open Substitution

def writeKeywords : List (List Char) :=
  ["INSERT", "UPDATE", "DELETE", "MERGE", "TRUNCATE", "DROP", "ALTER", "CREATE", "GRANT", "REVOKE",
    "COPY"].map String.toList

def readStarts : List (List Char) :=
  ["SELECT", "WITH", "TABLE", "VALUES"].map String.toList

/-- `_COMMENT`: a block comment ends at the first `*/`, and one that does not end is none. -/
def commentAt : List Char → Nat
  | '/' :: '*' :: rest => match find ['*', '/'] rest with
      | none => 0
      | some close => close + 4
  | '-' :: '-' :: rest => 2 + (rest.takeWhile (· ≠ '\n')).length
  | _ => 0

/-- `_LITERAL` past its opening quote: a doubled quote ends it where nothing else does. -/
def literalRest : List Char → Option Nat
  | [] => none
  | '\'' :: '\'' :: rest => match literalRest rest with
      | none => some 1
      | some length => some (length + 2)
  | '\'' :: _ => some 1
  | _ :: rest => (literalRest rest).map (· + 1)

def literalAt : List Char → Nat
  | '\'' :: rest => match literalRest rest with
      | none => 0
      | some length => length + 1
  | _ => 0

def stripCommentsAndLiterals (sql : List Char) : List Char :=
  replace id literalAt ['\'', '\''] (replace id commentAt [' '] sql)

def strip (alphabet : Alphabet) (text : List Char) : List Char :=
  (text.dropWhile alphabet.isSpace).rdropWhile alphabet.isSpace

def firstWord (alphabet : Alphabet) (text : List Char) : Option (List Char) :=
  let word := (text.dropWhile fun char => char == '(' || alphabet.isSpace char).takeWhile
    alphabet.isWord
  if word = [] then none else some word

inductive ReadOnlyProblem where
  | empty
  | starts (got : List Char)
  | contains (found : List (List Char))
  deriving DecidableEq, Repr

def ReadOnlyProblem.text (alphabet : Alphabet) : ReadOnlyProblem → String
  | .empty => "is empty"
  | .starts got => "starts with " ++ alphabet.repr got ++ ", not SELECT/WITH"
  | .contains found => "contains [" ++ ", ".intercalate (found.map alphabet.repr) ++
      "] — a read-only SELECT should not"

/-- `re.search(rf"\b{keyword}\b", text, re.IGNORECASE)` -/
def hasWord (alphabet : Alphabet) (keyword text : List Char) : Bool :=
  search alphabet.isWord alphabet.same keyword text

local instance words : LawfulBEq (List Char) := inferInstance

def readOnlyProblem (alphabet : Alphabet) (sql : List Char) : Option ReadOnlyProblem :=
  let stripped := strip alphabet (stripCommentsAndLiterals sql)
  if stripped = [] then some .empty
  else match firstWord alphabet stripped with
    | none => some (.starts (stripped.take 20))
    | some word =>
        if alphabet.upper word ∉ readStarts then some (.starts word)
        else
          let found := writeKeywords.filter (hasWord alphabet · stripped)
          if found ≠ [] then some (.contains found) else none

def Writes (alphabet : Alphabet) (sql : List Char) : Prop :=
  ∃ part, (part, false) ∈ sqlParts alphabet false sql ∧
    ∃ keyword ∈ writeKeywords, hasWord alphabet keyword part

variable {alphabet : Alphabet} {sql keyword text : List Char}

theorem isWord_ascii {char : Char} (small : char.toNat < 128) :
    alphabet.isWord char = (char.isAlphanum || char == '_') := by
  rw [Alphabet.isWord, alphabet.alnum_ascii char small]

theorem isWord_space {char : Char} (space : alphabet.isSpace char) : alphabet.isWord char = false := by
  have notLine : char ≠ '_' := by
    rintro rfl
    rw [alphabet.space_ascii _ (by decide)] at space
    contradiction
  simp [Alphabet.isWord, alphabet.alnum_space char space, notLine]

theorem keyword_letters (isKeyword : keyword ∈ writeKeywords) :
    ∀ letter ∈ keyword, ∀ char, alphabet.same letter char → alphabet.isWord char := by
  intro letter inside char same
  have upper : writeKeywords.all (·.all Char.isUpper) = true := by decide
  have isUpper := List.all_eq_true.mp (List.all_eq_true.mp upper keyword isKeyword) letter inside
  have alnum := alphabet.alnum_same letter char isUpper same
  rw [Alphabet.isWord, alnum, Bool.true_or]

theorem hasWord_dropWhile (isKeyword : keyword ∈ writeKeywords) (text : List Char) :
    hasWord alphabet keyword (text.dropWhile alphabet.isSpace) = hasWord alphabet keyword text := by
  induction text with
  | nil => rfl
  | cons char rest ih =>
      by_cases space : alphabet.isSpace char
      · rw [List.dropWhile_cons_of_pos space, ih]
        exact (search_cons_gap (keyword_letters isKeyword) (isWord_space space) rest).symm
      · rw [List.dropWhile_cons_of_neg space]

theorem hasWord_rdropWhile (isKeyword : keyword ∈ writeKeywords) (text : List Char) :
    hasWord alphabet keyword (text.rdropWhile alphabet.isSpace) = hasWord alphabet keyword text := by
  induction text using List.reverseRecOn with
  | nil => rfl
  | append_singleton rest char ih =>
      by_cases space : alphabet.isSpace char
      · rw [List.rdropWhile_concat_pos _ _ _ space, ih]
        exact (search_concat_gap (keyword_letters isKeyword) (isWord_space space) rest).symm
      · rw [List.rdropWhile_concat_neg _ _ _ space]

theorem hasWord_strip (isKeyword : keyword ∈ writeKeywords) (text : List Char) :
    hasWord alphabet keyword (strip alphabet text) = hasWord alphabet keyword text := by
  rw [strip, hasWord_rdropWhile isKeyword, hasWord_dropWhile isKeyword]

theorem readOnlyProblem_none (passes : readOnlyProblem alphabet sql = none)
    (isKeyword : keyword ∈ writeKeywords) :
    hasWord alphabet keyword (stripCommentsAndLiterals sql) = false := by
  rw [← hasWord_strip isKeyword]
  unfold readOnlyProblem at passes
  generalize strip alphabet (stripCommentsAndLiterals sql) = stripped at passes ⊢
  by_contra has
  rw [Bool.not_eq_false] at has
  have found : writeKeywords.filter (hasWord alphabet · stripped) ≠ [] :=
    List.ne_nil_of_mem (List.mem_filter.mpr ⟨isKeyword, has⟩)
  dsimp only at passes
  rw [if_pos found] at passes
  split_ifs at passes
  split at passes
  · contradiction
  · split_ifs at passes

end SqlTexts

end EtlCraft
