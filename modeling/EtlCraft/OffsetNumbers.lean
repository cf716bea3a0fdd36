import EtlCraft.Numerals

/-! The `Decimal` of a number offset: its text, and the number read from a text. Exponents have no
limit here. -/

namespace EtlCraft

namespace Scripting

open Numerals

structure UnicodeTable where
  space : CodePoint → Bool
  digit : CodePoint → Option (Fin 10)

def UnicodeTable.isSpace (unicode : UnicodeTable) (point : CodePoint) : Bool :=
  if point.val < 128 then
    (9 ≤ point.val && point.val ≤ 13) || (28 ≤ point.val && point.val ≤ 32)
  else unicode.space point

def UnicodeTable.strip (unicode : UnicodeTable) (text : Text) : Text :=
  (text.dropWhile unicode.isSpace).rdropWhile unicode.isSpace

def UnicodeTable.asAscii (unicode : UnicodeTable) (source : CodePoint) : CodePoint :=
  if source.val < 128 then source
  else match unicode.digit source with
    | some value => Numerals.digit value
    | none => point '?'

def lower (source : CodePoint) : CodePoint :=
  if 65 ≤ source.val && source.val ≤ 90 then Fin.ofNat 0x110000 (source.val + 32) else source

def word (characters : List Char) : Text :=
  characters.map point

def readMark (mark : Char) : Text → Option Text
  | [] => none
  | first :: rest => if first = point mark then some rest else none

@[simp] theorem readMark_cons (mark : Char) (rest : Text) :
    readMark mark (point mark :: rest) = some rest :=
  if_pos rfl

inductive Decimal
  | finite (negative : Bool) (coefficient : Nat) (exponent : Int)
  | infinity (negative : Bool)
  | nan (negative signaling : Bool) (payload : Nat)
  deriving DecidableEq, Repr

namespace Decimal

def sign (negative : Bool) : Text :=
  if negative then [point '-'] else []

def signed (value : Int) : Text :=
  point (if value < 0 then '-' else '+') :: numeral value.natAbs

def pointed (digits : Text) (dotplace : Int) : Text :=
  if dotplace ≤ 0 then point '0' :: point '.' :: zeros (-dotplace).toNat ++ digits
  else if digits.length ≤ dotplace then digits ++ zeros (dotplace - digits.length).toNat
  else digits.take dotplace.toNat ++ point '.' :: digits.drop dotplace.toNat

def exponentPart (leftdigits dotplace : Int) : Text :=
  if leftdigits = dotplace then [] else point 'E' :: signed (leftdigits - dotplace)

def dotplaceOf (exponent leftdigits : Int) : Int :=
  if exponent ≤ 0 ∧ -6 < leftdigits then leftdigits else 1

def str : Decimal → Text
  | .finite negative coefficient exponent =>
      let digits := numeral coefficient
      let leftdigits := exponent + digits.length
      let dotplace := dotplaceOf exponent leftdigits
      sign negative ++ pointed digits dotplace ++ exponentPart leftdigits dotplace
  | .infinity negative => sign negative ++ word ['I', 'n', 'f', 'i', 'n', 'i', 't', 'y']
  | .nan negative signaling payload =>
      sign negative ++ (if signaling then [point 's'] else []) ++ word ['N', 'a', 'N'] ++
        if payload = 0 then [] else numeral payload

def signOf : Text → Bool × Text
  | [] => (false, [])
  | first :: rest =>
      if first = point '-' then (true, rest)
      else if first = point '+' then (false, rest)
      else (false, first :: rest)

def isExponent (source : CodePoint) : Bool :=
  source = point 'E' || source = point 'e'

def readExponent : Text → Option Int
  | [] => some 0
  | _ :: rest =>
      let (negative, digits) := signOf rest
      if digits ≠ [] ∧ digits.all isDigit then
        some (if negative then -(digitsValue digits : Int) else digitsValue digits)
      else none

def readFinite (negative : Bool) (body : Text) : Option Decimal :=
  let mantissa := body.takeWhile fun source => !isExponent source
  let whole := mantissa.takeWhile fun source => source ≠ point '.'
  let fraction := (mantissa.dropWhile fun source => source ≠ point '.').tail
  if whole ++ fraction ≠ [] ∧ (whole ++ fraction).all isDigit then
    (readExponent (body.dropWhile fun source => !isExponent source)).map fun exponent =>
      .finite negative (digitsValue (whole ++ fraction)) (exponent - fraction.length)
  else none

def readSpecial (negative : Bool) (body : Text) : Option Decimal :=
  let name := body.map lower
  if name = word ['i', 'n', 'f'] ∨ name = word ['i', 'n', 'f', 'i', 'n', 'i', 't', 'y'] then
    some (.infinity negative)
  else
    let (signaling, rest) := match name with
      | [] => (false, [])
      | first :: rest => if first = point 's' then (true, rest) else (false, name)
    if rest.take 3 = word ['n', 'a', 'n'] ∧ (rest.drop 3).all isDigit then
      some (.nan negative signaling (digitsValue (rest.drop 3)))
    else none

def read (unicode : UnicodeTable) (text : Text) : Option Decimal :=
  let ascii := ((unicode.strip text).filter fun source => source ≠ point '_').map unicode.asAscii
  let (negative, body) := signOf ascii
  (readFinite negative body).or (readSpecial negative body)

def isFinite : Decimal → Bool
  | .finite _ _ _ => true
  | _ => false

def whole? : Decimal → Option Int
  | .finite negative coefficient exponent =>
      let size : Option Nat :=
        if 0 ≤ exponent then some (coefficient * 10 ^ exponent.toNat)
        else if coefficient % 10 ^ (-exponent).toNat = 0 then
          some (coefficient / 10 ^ (-exponent).toNat)
        else none
      size.map fun size : Nat => if negative then -(size : Int) else size
  | _ => none

end Decimal

def Plain (text : Text) : Prop :=
  ∀ source ∈ text, 32 < source.val ∧ source.val < 128 ∧ source ≠ point '_'

theorem plain_nil : Plain [] := by
  intro source member
  cases member

theorem Plain.append {first second : Text} (left : Plain first) (right : Plain second) :
    Plain (first ++ second) :=
  List.forall_mem_append.mpr ⟨left, right⟩

theorem Plain.cons {source : CodePoint} {text : Text}
    (first : 32 < source.val ∧ source.val < 128 ∧ source ≠ point '_') (rest : Plain text) :
    Plain (source :: text) :=
  List.forall_mem_cons.mpr ⟨first, rest⟩

theorem plain_digits {text : Text} (digits : ∀ source ∈ text, isDigit source = true) :
    Plain text := by
  intro source member
  have bounds := digits source member
  simp only [isDigit, Bool.and_eq_true, decide_eq_true_eq] at bounds
  refine ⟨by omega, by omega, ?_⟩
  rintro rfl
  revert bounds
  decide

theorem Plain.not_space {text : Text} (plain : Plain text) (unicode : UnicodeTable) :
    ∀ source ∈ text, unicode.isSpace source = false := by
  intro source member
  obtain ⟨printed, ascii, _⟩ := plain source member
  rw [UnicodeTable.isSpace, if_pos ascii]
  simp only [Bool.or_eq_false_iff, Bool.and_eq_false_iff, decide_eq_false_iff_not]
  omega

theorem Plain.strip {text : Text} (plain : Plain text) (unicode : UnicodeTable) :
    unicode.strip text = text := by
  have spaceless := plain.not_space unicode
  have front : text.dropWhile unicode.isSpace = text := by
    rw [List.dropWhile_eq_self_iff]
    intro inside
    simp [spaceless _ (List.getElem_mem inside)]
  rw [UnicodeTable.strip, front, List.rdropWhile_eq_self_iff]
  intro nonempty
  simp [spaceless _ (List.getLast_mem nonempty)]

theorem Plain.ascii {text : Text} (plain : Plain text) (unicode : UnicodeTable) :
    ((unicode.strip text).filter fun source => source ≠ point '_').map unicode.asAscii = text := by
  rw [plain.strip unicode, List.filter_eq_self.mpr]
  · refine (List.map_congr_left fun source member => ?_).trans (List.map_id text)
    rw [UnicodeTable.asAscii, if_pos (plain source member).2.1]
    rfl
  · exact fun source member => decide_eq_true (plain source member).2.2

theorem plain_word {characters : List Char}
    (printed : ∀ character ∈ characters,
      32 < character.toNat ∧ character.toNat < 128 ∧ character.toNat ≠ 95) :
    Plain (word characters) := by
  intro source member
  obtain ⟨character, inside, rfl⟩ := List.mem_map.mp member
  obtain ⟨above, below, other⟩ := printed character inside
  have value : (point character).val = character.toNat := by
    rw [point, Fin.val_ofNat]
    omega
  refine ⟨by omega, by omega, ?_⟩
  intro same
  have underscore : (point '_').val = 95 := rfl
  rw [← same] at underscore
  omega

namespace Decimal

theorem signOf_sign {body : Text} {first : CodePoint} (starts : body.head? = some first)
    (bare : first ≠ point '-' ∧ first ≠ point '+') (negative : Bool) :
    signOf (sign negative ++ body) = (negative, body) := by
  cases negative with
  | true => rfl
  | false =>
      cases body with
      | nil => cases starts
      | cons source rest =>
          cases starts
          simp [sign, signOf, bare.1, bare.2]

theorem readExponent_signed (value : Int) : readExponent (point 'E' :: signed value) = some value := by
  have digits := numeral_digits value.natAbs
  rw [readExponent, signed]
  by_cases below : value < 0
  · simp only [below, signOf, if_true]
    rw [if_pos ⟨numeral_ne_nil _, List.all_eq_true.mpr digits⟩, digitsValue_numeral]
    exact congrArg some (by omega)
  · have plus : point '+' ≠ point '-' := by decide
    simp only [below, signOf, if_false, plus, if_true]
    rw [if_pos ⟨numeral_ne_nil _, List.all_eq_true.mpr digits⟩, digitsValue_numeral]
    exact congrArg some (by simp only [Bool.false_eq_true, if_false]; omega)

theorem not_dot {source : CodePoint} (digit : isDigit source = true) : source ≠ point '.' := by
  rintro rfl
  revert digit
  decide

theorem pointed_parts {digits : Text} (allDigits : ∀ source ∈ digits, isDigit source = true)
    (some' : digits ≠ []) {dotplace : Int} (inside : dotplace ≤ digits.length) :
    ∃ whole fraction : Text, (∀ source ∈ whole ++ fraction, isDigit source = true) ∧
      whole ++ fraction ≠ [] ∧ digitsValue (whole ++ fraction) = digitsValue digits ∧
      (fraction.length : Int) = digits.length - dotplace ∧
      (pointed digits dotplace = whole ++ point '.' :: fraction ∨
        pointed digits dotplace = whole ∧ fraction = []) := by
  rw [pointed]
  split
  · refine ⟨[digit 0], zeros (-dotplace).toNat ++ digits, ?_, by simp, ?_, ?_, .inl rfl⟩
    · simp only [List.forall_mem_append, List.forall_mem_singleton]
      exact ⟨isDigit_digit 0, zeros_digits _, allDigits⟩
    · rw [← List.append_assoc]
      exact digitsValue_zeros ((-dotplace).toNat + 1) digits
    · simp [zeros]
      omega
  · split
    · have atEnd : dotplace = digits.length := by omega
      refine ⟨digits, [], by simpa using allDigits, by simpa using some', by simp, by simp [atEnd],
        .inr ⟨?_, rfl⟩⟩
      simp [atEnd, zeros]
    · refine ⟨digits.take dotplace.toNat, digits.drop dotplace.toNat, ?_, ?_, ?_, ?_, .inl rfl⟩
      · rwa [List.take_append_drop]
      · rwa [List.take_append_drop]
      · rw [List.take_append_drop]
      · rw [List.length_drop]
        omega

theorem not_exponent {source : CodePoint} (digit : isDigit source = true) :
    (!isExponent source) = true := by
  rw [Bool.not_eq_true', ← Bool.not_eq_true]
  intro exponent
  rw [isExponent, Bool.or_eq_true, decide_eq_true_eq, decide_eq_true_eq] at exponent
  rcases exponent with rfl | rfl
  · revert digit
    decide
  · revert digit
    decide

theorem readFinite_pointed {digits : Text} (allDigits : ∀ source ∈ digits, isDigit source = true)
    (some' : digits ≠ []) {dotplace : Int} (inside : dotplace ≤ digits.length) (negative : Bool)
    {tail : Text} (rest : tail = [] ∨ ∃ more, tail = point 'E' :: more) {exponent : Int}
    (reads : readExponent tail = some exponent) :
    readFinite negative (pointed digits dotplace ++ tail) =
      some (.finite negative (digitsValue digits) (exponent - (digits.length - dotplace))) := by
  obtain ⟨whole, fraction, digital, nonempty, value, size, shape⟩ :=
    pointed_parts allDigits some' inside
  obtain ⟨wholeDigits, fractionDigits⟩ := List.forall_mem_append.mp digital
  have noExponent : ∀ source ∈ pointed digits dotplace, (!isExponent source) = true := by
    rcases shape with shape | ⟨shape, _⟩
    · rw [shape, List.forall_mem_append, List.forall_mem_cons]
      exact ⟨fun source member => not_exponent (wholeDigits source member), by decide,
        fun source member => not_exponent (fractionDigits source member)⟩
    · rw [shape]
      exact fun source member => not_exponent (wholeDigits source member)
  have taken : (pointed digits dotplace ++ tail).takeWhile (fun source => !isExponent source) =
      pointed digits dotplace := by
    rw [List.takeWhile_append_of_pos noExponent]
    rcases rest with rfl | ⟨more, rfl⟩
    · simp
    · simp [isExponent]
  have left : (pointed digits dotplace ++ tail).dropWhile (fun source => !isExponent source) =
      tail := by
    rw [List.dropWhile_append_of_pos noExponent]
    rcases rest with rfl | ⟨more, rfl⟩
    · rfl
    · simp [isExponent]
  have noDot : ∀ source ∈ whole, decide (source ≠ point '.') = true :=
    fun source member => decide_eq_true (not_dot (wholeDigits source member))
  have parts : (pointed digits dotplace).takeWhile (fun source => source ≠ point '.') = whole ∧
      ((pointed digits dotplace).dropWhile fun source => source ≠ point '.').tail = fraction := by
    rcases shape with shape | ⟨shape, rfl⟩
    · rw [shape, List.takeWhile_append_of_pos noDot, List.dropWhile_append_of_pos noDot]
      simp
    · rw [shape, List.takeWhile_eq_self_iff.mpr noDot, List.dropWhile_eq_nil_iff.mpr noDot]
      simp
  rw [readFinite]
  simp only [taken, left, parts.1, parts.2]
  rw [if_pos ⟨nonempty, List.all_eq_true.mpr digital⟩, reads, Option.map_some, value, size]

theorem pointed_head {digits : Text} (allDigits : ∀ source ∈ digits, isDigit source = true)
    (some' : digits ≠ []) (dotplace : Int) :
    ∃ first rest, pointed digits dotplace = first :: rest ∧ isDigit first = true := by
  obtain ⟨first, rest, rfl⟩ := List.exists_cons_of_ne_nil some'
  have firstDigit := allDigits first List.mem_cons_self
  rw [pointed]
  split
  · exact ⟨_, _, rfl, by decide⟩
  · split
    · exact ⟨first, _, rfl, firstDigit⟩
    · have positive : dotplace.toNat = (dotplace.toNat - 1) + 1 := by omega
      rw [positive, List.take_succ_cons]
      exact ⟨first, _, rfl, firstDigit⟩

theorem plain_pointed {digits : Text} (allDigits : ∀ source ∈ digits, isDigit source = true)
    (dotplace : Int) : Plain (pointed digits dotplace) := by
  have dot : 32 < (point '.').val ∧ (point '.').val < 128 ∧ point '.' ≠ point '_' := by decide
  have zero : 32 < (point '0').val ∧ (point '0').val < 128 ∧ point '0' ≠ point '_' := by decide
  rw [pointed]
  split
  · exact ((Plain.cons zero (Plain.cons dot (plain_digits (zeros_digits _)))).append
      (plain_digits allDigits))
  · split
    · exact (plain_digits allDigits).append (plain_digits (zeros_digits _))
    · exact (plain_digits fun source member => allDigits source (List.mem_of_mem_take member)).append
        (Plain.cons dot (plain_digits fun source member =>
          allDigits source (List.mem_of_mem_drop member)))

theorem plain_sign (negative : Bool) : Plain (sign negative) := by
  cases negative
  · exact plain_nil
  · exact Plain.cons (by decide) plain_nil

theorem plain_signed (value : Int) : Plain (signed value) := by
  refine Plain.cons ?_ (plain_digits (numeral_digits _))
  split <;> decide

theorem plain_exponentPart (leftdigits dotplace : Int) :
    Plain (exponentPart leftdigits dotplace) := by
  rw [exponentPart]
  split
  · exact plain_nil
  · exact Plain.cons (by decide) (plain_signed _)

theorem plain_str (value : Decimal) : Plain value.str := by
  cases value with
  | finite negative coefficient exponent =>
      exact ((plain_sign negative).append (plain_pointed (numeral_digits _) _)).append
        (plain_exponentPart _ _)
  | infinity negative => exact (plain_sign negative).append (plain_word (by simp))
  | nan negative signaling payload =>
      rw [str]
      refine (((plain_sign negative).append ?_).append (plain_word (by simp))).append ?_
      · cases signaling
        · exact plain_nil
        · exact Plain.cons (by decide) plain_nil
      · split
        · exact plain_nil
        · exact plain_digits (numeral_digits _)

theorem readExponent_part (leftdigits dotplace : Int) :
    readExponent (exponentPart leftdigits dotplace) = some (leftdigits - dotplace) := by
  rw [exponentPart]
  split
  · rename_i same
    rw [same, Int.sub_self]
    rfl
  · exact readExponent_signed _

theorem readFinite_str (negative : Bool) (coefficient : Nat) (exponent : Int) :
    ∃ body, str (.finite negative coefficient exponent) = sign negative ++ body ∧
      (∃ first, body.head? = some first ∧ isDigit first = true) ∧
      readFinite negative body = some (.finite negative coefficient exponent) := by
  have digits := numeral_digits coefficient
  have nonempty := numeral_ne_nil coefficient
  have size := List.length_pos_iff.mpr nonempty
  obtain ⟨leftdigits, left⟩ : ∃ leftdigits : Int,
      leftdigits = exponent + (numeral coefficient).length := ⟨_, rfl⟩
  obtain ⟨dotplace, dot⟩ : ∃ dotplace, dotplace = dotplaceOf exponent leftdigits := ⟨_, rfl⟩
  have inside : dotplace ≤ (numeral coefficient).length := by
    rw [dot, dotplaceOf]
    split <;> omega
  refine ⟨pointed (numeral coefficient) dotplace ++ exponentPart leftdigits dotplace, ?_, ?_, ?_⟩
  · rw [str, dot, left, List.append_assoc]
  · obtain ⟨first, rest, shape, firstDigit⟩ := pointed_head digits nonempty dotplace
    exact ⟨first, by rw [shape]; rfl, firstDigit⟩
  · rw [readFinite_pointed digits nonempty inside negative ?_ (readExponent_part leftdigits dotplace),
      digitsValue_numeral]
    · congr 2
      omega
    · rw [exponentPart]
      split
      · exact .inl rfl
      · exact .inr ⟨_, rfl⟩

theorem readFinite_letter {body : Text} {first : CodePoint} (starts : body.head? = some first)
    (letter : isDigit first = false ∧ first ≠ point '.' ∧ isExponent first = false)
    (negative : Bool) : readFinite negative body = none := by
  cases body with
  | nil => cases starts
  | cons source rest =>
      cases starts
      rw [readFinite, if_neg]
      simp [letter.1, letter.2.1, letter.2.2]

theorem lower_digits {text : Text} (digits : ∀ source ∈ text, isDigit source = true) :
    text.map lower = text := by
  refine (List.map_congr_left fun source member => ?_).trans (List.map_id text)
  have bounds := digits source member
  simp only [isDigit, Bool.and_eq_true, decide_eq_true_eq] at bounds
  rw [lower, if_neg]
  · rfl
  · simp only [Bool.and_eq_true, decide_eq_true_eq]
    omega

theorem readSpecial_nan (negative signaling : Bool) {tail : Text}
    (digits : ∀ source ∈ tail, isDigit source = true) :
    readSpecial negative ((if signaling then [point 's'] else []) ++
      (word ['N', 'a', 'N'] ++ tail)) = some (.nan negative signaling (digitsValue tail)) := by
  have name : ((if signaling then [point 's'] else []) ++ (word ['N', 'a', 'N'] ++ tail)).map lower =
      (if signaling then [point 's'] else []) ++ (word ['n', 'a', 'n'] ++ tail) := by
    rw [List.map_append, List.map_append, lower_digits digits]
    cases signaling <;> rfl
  have nan : point 'n' ≠ point 'i' ∧ point 's' ≠ point 'i' ∧ point 'n' ≠ point 's' := by decide
  have other : ∀ rest : List Char,
      (if signaling then [point 's'] else []) ++ (word ['n', 'a', 'n'] ++ tail) ≠
        word ('i' :: rest) := by
    intro rest same
    have heads := congrArg List.head? same
    cases signaling
    · exact nan.1 (Option.some.inj heads)
    · exact nan.2.1 (Option.some.inj heads)
  rw [readSpecial, name, if_neg (not_or.mpr ⟨other _, other _⟩)]
  cases signaling
  · simp [word, nan.2.2, List.all_eq_true.mpr digits]
  · simp [word, List.all_eq_true.mpr digits]

theorem read_str (unicode : UnicodeTable) (value : Decimal) :
    read unicode value.str = some value := by
  rw [read]
  simp only [(plain_str value).ascii unicode]
  cases value with
  | finite negative coefficient exponent =>
      obtain ⟨body, text, ⟨first, starts, firstDigit⟩, reads⟩ :=
        readFinite_str negative coefficient exponent
      have bare : first ≠ point '-' ∧ first ≠ point '+' := by
        constructor
        · rintro rfl
          revert firstDigit
          decide
        · rintro rfl
          revert firstDigit
          decide
      rw [text, signOf_sign starts bare]
      simp [reads]
  | infinity negative =>
      cases negative <;> decide +kernel
  | nan negative signaling payload =>
      obtain ⟨tail, digits, payloadIs, shape⟩ : ∃ tail : Text,
          (∀ source ∈ tail, isDigit source = true) ∧ digitsValue tail = payload ∧
            (if payload = 0 then [] else numeral payload) = tail := by
        by_cases none : payload = 0
        · subst payload
          exact ⟨[], nofun, rfl, rfl⟩
        · exact ⟨numeral payload, numeral_digits payload, digitsValue_numeral payload, if_neg none⟩
      have letters : (isDigit (point 's') = false ∧ point 's' ≠ point '.' ∧
          isExponent (point 's') = false) ∧ (isDigit (point 'N') = false ∧ point 'N' ≠ point '.' ∧
          isExponent (point 'N') = false) := by decide
      have bare : (point 's' ≠ point '-' ∧ point 's' ≠ point '+') ∧
          (point 'N' ≠ point '-' ∧ point 'N' ≠ point '+') := by decide
      rw [str, shape, List.append_assoc, List.append_assoc]
      cases signaling with
      | false =>
          rw [signOf_sign rfl bare.2, readFinite_letter rfl letters.2, Option.none_or,
            readSpecial_nan negative false digits, payloadIs]
      | true =>
          rw [signOf_sign rfl bare.1, readFinite_letter rfl letters.1, Option.none_or,
            readSpecial_nan negative true digits, payloadIs]

theorem str_whole (negative : Bool) (coefficient : Nat) :
    str (.finite negative coefficient 0) = sign negative ++ numeral coefficient := by
  have size := List.length_pos_iff.mpr (numeral_ne_nil coefficient)
  have left : dotplaceOf 0 (numeral coefficient).length = (numeral coefficient).length := by
    rw [dotplaceOf, if_pos ⟨Int.le_refl 0, by omega⟩]
  have digits : pointed (numeral coefficient) (numeral coefficient).length = numeral coefficient := by
    rw [pointed, if_neg (by omega), if_pos (Int.le_refl _), Int.sub_self]
    exact List.append_nil _
  rw [str]
  simp only [Int.zero_add, left, digits, exponentPart, if_true, List.append_nil]

theorem str_injective {first second : Decimal} (same : first.str = second.str) : first = second := by
  have unicode : UnicodeTable := ⟨fun _ => false, fun _ => none⟩
  have read := read_str unicode first
  rw [same, read_str unicode second] at read
  exact (Option.some.inj read).symm

theorem whole?_whole (negative : Bool) (coefficient : Nat) :
    whole? (.finite negative coefficient 0) =
      some (if negative then -(coefficient : Int) else coefficient) := by
  simp [whole?]

theorem whole?_int (value : Int) :
    whole? (.finite (value < 0) value.natAbs 0) = some value := by
  rw [whole?_whole]
  by_cases below : value < 0
  · rw [decide_eq_true below, if_pos rfl]
    exact congrArg some (by omega)
  · rw [decide_eq_false below, if_neg Bool.false_ne_true]
    exact congrArg some (by omega)

end Decimal

end Scripting

end EtlCraft
