import Mathlib.Data.List.Basic

/-! Leftmost replacement of what a pattern matches, and the search for a whole word. -/

namespace EtlCraft

namespace Substitution

variable {Symbol : Type}

section Replace

variable (char : Symbol → Char) (matchAt : List Char → Nat) (replacement : List Symbol)

/-- `matchAt` gives the length of a match at the front of a text, zero for none. The first
argument counts the symbols of the current match that are still to be passed. -/
def replaceFrom : Nat → List Symbol → List Symbol
  | _, [] => []
  | passed + 1, _ :: rest => replaceFrom passed rest
  | 0, symbol :: rest =>
      match matchAt ((symbol :: rest).map char) with
      | 0 => symbol :: replaceFrom 0 rest
      | length + 1 => replacement ++ replaceFrom length rest

def replace (text : List Symbol) : List Symbol :=
  replaceFrom char matchAt replacement 0 text

variable {char matchAt replacement}

theorem replaceFrom_drop (passed : Nat) (text : List Symbol) :
    replaceFrom char matchAt replacement passed text =
      replace char matchAt replacement (text.drop passed) := by
  induction text generalizing passed with
  | nil => cases passed <;> rfl
  | cons symbol rest ih =>
      cases passed with
      | zero => rfl
      | succ passed => exact ih passed

theorem replace_cons {symbol : Symbol} {rest : List Symbol}
    (noMatch : matchAt ((symbol :: rest).map char) = 0) :
    replace char matchAt replacement (symbol :: rest) =
      symbol :: replace char matchAt replacement rest := by
  rw [replace, replaceFrom, noMatch]
  rfl

theorem replace_pass {front back : List Symbol} (noMatch : ∀ before symbol after,
    front = before ++ symbol :: after → matchAt ((symbol :: after ++ back).map char) = 0) :
    replace char matchAt replacement (front ++ back) =
      front ++ replace char matchAt replacement back := by
  induction front with
  | nil => rfl
  | cons symbol front ih =>
      have here := noMatch [] symbol front rfl
      rw [List.cons_append] at here ⊢
      rw [replace_cons here, ih, List.cons_append]
      intro before next after same
      exact noMatch (symbol :: before) next after (by rw [same, List.cons_append])

theorem replace_match {front back : List Symbol} (some' : front ≠ [])
    (isMatch : matchAt ((front ++ back).map char) = front.length) :
    replace char matchAt replacement (front ++ back) =
      replacement ++ replace char matchAt replacement back := by
  cases front with
  | nil => exact absurd rfl some'
  | cons symbol front =>
      rw [List.cons_append, List.length_cons] at isMatch
      rw [List.cons_append, replace, replaceFrom, isMatch]
      dsimp only
      rw [replaceFrom_drop, List.drop_left]

end Replace

section Words

variable (isWord : Char → Bool) (same : Char → Char → Bool)

def boundary (before after : Option Char) : Bool :=
  before.any isWord != after.any isWord

def wordRest : List Char → Option Char → List Char → Bool
  | [], before, text => boundary isWord before text.head?
  | _ :: _, _, [] => false
  | letter :: word, _, char :: text => same letter char && wordRest word (some char) text

def wordAt (word : List Char) (before : Option Char) (text : List Char) : Bool :=
  boundary isWord before text.head? && wordRest isWord same word before text

def searchFrom (word : List Char) : Option Char → List Char → Bool
  | before, [] => wordAt isWord same word before []
  | before, char :: text =>
      wordAt isWord same word before (char :: text) || searchFrom word (some char) text

/-- `re.search(rf"\bword\b", text)`. -/
def search (word text : List Char) : Bool :=
  searchFrom isWord same word none text

variable {isWord same} {word : List Char} {gap : Char}

theorem wordRest_gap (letters : ∀ letter ∈ word, ∀ char, same letter char → isWord char)
    (notWord : isWord gap = false) (before : Option Char) (text rest : List Char) :
    wordRest isWord same word before (text ++ gap :: rest) =
      wordRest isWord same word before text := by
  induction word generalizing before text with
  | nil => cases text <;> simp [wordRest, boundary, notWord]
  | cons letter word ih =>
      cases text with
      | nil =>
          have differs : same letter gap = false := by
            by_contra is
            have := letters letter List.mem_cons_self gap (by simpa using is)
            rw [notWord] at this
            contradiction
          simp [wordRest, differs]
      | cons char text =>
          simp only [List.cons_append, wordRest]
          rw [ih fun letter member => letters letter (List.mem_cons_of_mem _ member)]

theorem wordAt_gap (letters : ∀ letter ∈ word, ∀ char, same letter char → isWord char)
    (notWord : isWord gap = false) (before : Option Char) (text rest : List Char) :
    wordAt isWord same word before (text ++ gap :: rest) = wordAt isWord same word before text := by
  rw [wordAt, wordAt, wordRest_gap letters notWord]
  cases text <;> simp [boundary, notWord]

theorem wordAt_before {first second : Option Char} (alike : first.any isWord = second.any isWord)
    (text : List Char) :
    wordAt isWord same word first text = wordAt isWord same word second text := by
  cases word with
  | nil => simp [wordAt, wordRest, boundary, alike]
  | cons letter word => cases text <;> simp [wordAt, wordRest, boundary, alike]

theorem searchFrom_before {first second : Option Char}
    (alike : first.any isWord = second.any isWord) (text : List Char) :
    searchFrom isWord same word first text = searchFrom isWord same word second text := by
  cases text <;> rw [searchFrom, searchFrom, wordAt_before alike]

theorem searchFrom_gap (letters : ∀ letter ∈ word, ∀ char, same letter char → isWord char)
    (notWord : isWord gap = false) (before : Option Char) (text rest : List Char) :
    searchFrom isWord same word before (text ++ gap :: rest) =
      (searchFrom isWord same word before text || search isWord same word rest) := by
  induction text generalizing before with
  | nil =>
      have atGap := wordAt_gap letters notWord before [] rest
      rw [List.nil_append] at atGap ⊢
      rw [searchFrom, searchFrom, atGap, search,
        @searchFrom_before isWord same word (some gap) none (by simp [notWord])]
  | cons char text ih =>
      rw [List.cons_append, searchFrom, searchFrom, ih, ← List.cons_append,
        wordAt_gap letters notWord, Bool.or_assoc]

theorem search_nil : search isWord same word [] = false := by
  simp [search, searchFrom, wordAt, boundary]

theorem search_cons_gap (letters : ∀ letter ∈ word, ∀ char, same letter char → isWord char)
    (notWord : isWord gap = false) (text : List Char) :
    search isWord same word (gap :: text) = search isWord same word text := by
  have apart := searchFrom_gap letters notWord none [] text
  rw [← search, ← search, search_nil, Bool.false_or] at apart
  exact apart

theorem search_concat_gap (letters : ∀ letter ∈ word, ∀ char, same letter char → isWord char)
    (notWord : isWord gap = false) (text : List Char) :
    search isWord same word (text ++ [gap]) = search isWord same word text := by
  rw [search, searchFrom_gap letters notWord, search_nil, Bool.or_false, search]

end Words

end Substitution

end EtlCraft
