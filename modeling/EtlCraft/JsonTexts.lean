import EtlCraft.OffsetJson

/-! JSON texts of strings, and why a text tells the strings in it apart. -/

namespace EtlCraft

namespace JsonTexts

open Numerals Scripting

def points (text : String) : Text :=
  text.toList.map point

def jsonString (text : Text) : Text :=
  point '"' :: (text.flatMap escape ++ [point '"'])

def jsonOption : Option String → Text
  | none => points "null"
  | some text => jsonString (points text)

def jsonRest : List Text → Text
  | [] => [point ']']
  | text :: rest => points ", " ++ (jsonString text ++ jsonRest rest)

def jsonList : List Text → Text
  | [] => points "[]"
  | text :: rest => point '[' :: (jsonString text ++ jsonRest rest)

def Whole (text : Text) : Prop :=
  ∀ source ∈ text, isHigh source = false

theorem whole_separate {text : Text} (whole : Whole text) : Separate text := by
  induction text with
  | nil => exact List.isChain_nil
  | cons first rest ih =>
      apply separate_cons
      · intro low _ pair
        rw [whole first List.mem_cons_self] at pair
        exact Bool.false_ne_true pair.1
      · exact ih fun source member => whole source (List.mem_cons_of_mem first member)

theorem char_bound (character : Char) : character.toNat < 0x110000 := by
  rcases character.valid with small | ⟨_, large⟩
  · exact Nat.lt_trans small (by omega)
  · exact large

theorem isHigh_point (character : Char) : isHigh (point character) = false := by
  have valid := character.valid
  have value : (point character).val = character.toNat := by
    rw [point, Fin.val_ofNat]
    exact Nat.mod_eq_of_lt (char_bound character)
  simp only [isHigh, value, Bool.and_eq_false_iff, decide_eq_false_iff_not]
  rcases valid with small | ⟨large, _⟩
  · left
    exact Nat.not_le.mpr small
  · right
    have above : 0xdfff < character.toNat := large
    omega

theorem points_whole (text : String) : Whole (points text) := by
  intro source member
  obtain ⟨character, _, rfl⟩ := List.mem_map.mp member
  exact isHigh_point character

theorem point_injective : Function.Injective point := by
  intro first second same
  apply Char.ext
  apply UInt32.toNat_inj.mp
  have values := congrArg Fin.val same
  simp only [point, Fin.val_ofNat] at values
  rwa [Nat.mod_eq_of_lt (char_bound first), Nat.mod_eq_of_lt (char_bound second)] at values

theorem points_injective : Function.Injective points := by
  intro first second same
  exact String.toList_inj.mp (List.map_injective_iff.mpr point_injective same)

theorem jsonString_cancel {first second rest rest' : Text} (whole : Whole first)
    (whole' : Whole second) (same : jsonString first ++ rest = jsonString second ++ rest') :
    first = second ∧ rest = rest' := by
  have read : ∀ text left : Text, jsonString text ++ left =
      point '"' :: (text.flatMap escape ++ point '"' :: left) := by
    intro text left
    simp [jsonString]
  rw [read, read, List.cons.injEq] at same
  have units := congrArg readString same.2
  rw [readString_key, readString_key, Option.some.injEq, Prod.mk.injEq] at units
  have joined := congrArg joinSurrogates units.1
  rw [joinSurrogates_units, joinSurrogates_units,
    (joinSurrogates_eq_iff first).mpr (whole_separate whole),
    (joinSurrogates_eq_iff second).mpr (whole_separate whole')] at joined
  exact ⟨joined, units.2⟩

theorem jsonOption_cancel {first second : Option String} {rest rest' : Text}
    (same : jsonOption first ++ rest = jsonOption second ++ rest') :
    first = second ∧ rest = rest' := by
  have heads : ∀ text : String, ∀ left right : Text,
      points "null" ++ left ≠ jsonString (points text) ++ right := by
    intro text left right equal
    have head := congrArg List.head? equal
    simp [points, jsonString, point] at head
  cases first with
  | none =>
      cases second with
      | none => exact ⟨rfl, List.append_cancel_left same⟩
      | some text => exact (heads text rest rest' same).elim
  | some text =>
      cases second with
      | none => exact (heads text rest' rest same.symm).elim
      | some other =>
          obtain ⟨equal, left⟩ := jsonString_cancel (points_whole text) (points_whole other) same
          exact ⟨congrArg some (points_injective equal), left⟩

theorem jsonRest_injective {first second : List Text} (whole : ∀ text ∈ first, Whole text)
    (whole' : ∀ text ∈ second, Whole text) (same : jsonRest first = jsonRest second) :
    first = second := by
  induction first generalizing second with
  | nil =>
      cases second with
      | nil => rfl
      | cons text rest =>
          have head := congrArg List.head? same
          simp [jsonRest, points, point] at head
  | cons text rest ih =>
      cases second with
      | nil =>
          have head := congrArg List.head? same
          simp [jsonRest, points, point] at head
      | cons text' rest' =>
          rw [jsonRest, jsonRest] at same
          obtain ⟨equal, later⟩ := jsonString_cancel (whole text List.mem_cons_self)
            (whole' text' List.mem_cons_self) (List.append_cancel_left same)
          rw [equal, ih (fun text member => whole text (List.mem_cons_of_mem _ member))
            (fun text member => whole' text (List.mem_cons_of_mem _ member)) later]

theorem jsonList_injective {first second : List Text} (whole : ∀ text ∈ first, Whole text)
    (whole' : ∀ text ∈ second, Whole text) (same : jsonList first = jsonList second) :
    first = second := by
  have second_head : ∀ (text : Text) (rest : List Text),
      (jsonList (text :: rest))[1]? ≠ (jsonList [])[1]? := by
    intro text rest equal
    simp [jsonList, jsonString, points, point] at equal
  cases first with
  | nil =>
      cases second with
      | nil => rfl
      | cons text rest => exact (second_head text rest (same ▸ rfl)).elim
  | cons text rest =>
      cases second with
      | nil => exact (second_head text rest (same ▸ rfl)).elim
      | cons text' rest' =>
          rw [jsonList, jsonList, List.cons.injEq] at same
          obtain ⟨equal, later⟩ := jsonString_cancel (whole text List.mem_cons_self)
            (whole' text' List.mem_cons_self) same.2
          rw [equal, jsonRest_injective (fun text member => whole text (List.mem_cons_of_mem _ member))
            (fun text member => whole' text (List.mem_cons_of_mem _ member)) later]

theorem hexDigit_whole (value : Nat) (bound : value < 16) : isHigh (hexDigit value) = false := by
  have all : ∀ value < 16, isHigh (hexDigit value) = false := by decide +kernel
  exact all value bound

theorem unicodeEscape_whole (unit : Nat) : Whole (unicodeEscape unit) := by
  intro source member
  simp only [unicodeEscape, List.mem_cons, List.not_mem_nil, or_false] at member
  rcases member with rfl | rfl | rfl | rfl | rfl | rfl
  · exact isHigh_point _
  · exact isHigh_point _
  · exact hexDigit_whole _ (Nat.mod_lt _ (by omega))
  · exact hexDigit_whole _ (Nat.mod_lt _ (by omega))
  · exact hexDigit_whole _ (Nat.mod_lt _ (by omega))
  · exact hexDigit_whole _ (Nat.mod_lt _ (by omega))

theorem shortEscapes_whole {entry : CodePoint × CodePoint} (member : entry ∈ shortEscapes) :
    isHigh entry.1 = false := by
  simp only [shortEscapes, List.mem_cons, List.not_mem_nil, or_false] at member
  rcases member with rfl | rfl | rfl | rfl | rfl | rfl | rfl <;> exact isHigh_point _

theorem escape_whole (source : CodePoint) : Whole (escape source) := by
  rw [escape]
  split
  · rename_i letter whole found
    have letters := shortEscapes_whole (List.mem_of_find?_eq_some found)
    intro other inside
    simp only [List.mem_cons, List.not_mem_nil, or_false] at inside
    rcases inside with same | same
    · rw [same]
      exact isHigh_point _
    · rw [same]
      exact letters
  · split
    · rename_i printed
      intro other inside
      rw [List.mem_singleton] at inside
      subst other
      simp only [isHigh, Bool.and_eq_false_iff, decide_eq_false_iff_not]
      omega
    · split
      · exact unicodeEscape_whole _
      · intro other inside
        rcases List.mem_append.mp inside with first | second
        · exact unicodeEscape_whole _ other first
        · exact unicodeEscape_whole _ other second

theorem Whole.append {first second : Text} (whole : Whole first) (whole' : Whole second) :
    Whole (first ++ second) := by
  intro source member
  rcases List.mem_append.mp member with early | late
  · exact whole source early
  · exact whole' source late

theorem Whole.cons {rest : Text} (character : Char) (whole : Whole rest) :
    Whole (point character :: rest) := by
  intro source member
  rcases List.mem_cons.mp member with rfl | later
  · exact isHigh_point character
  · exact whole source later

theorem jsonString_whole (text : Text) : Whole (jsonString text) := by
  intro source member
  simp only [jsonString, List.mem_cons, List.mem_append, List.mem_flatMap, List.not_mem_nil,
    or_false] at member
  rcases member with rfl | ⟨original, _, inside⟩ | rfl
  · exact isHigh_point _
  · exact escape_whole original source inside
  · exact isHigh_point _

theorem jsonOption_whole (text : Option String) : Whole (jsonOption text) := by
  cases text with
  | none => exact points_whole "null"
  | some text => exact jsonString_whole (points text)

theorem numeral_whole (value : Nat) : Whole (numeral value) := by
  intro source member
  have digit := numeral_digits value source member
  simp only [isDigit, Bool.and_eq_true, decide_eq_true_eq] at digit
  simp only [isHigh, Bool.and_eq_false_iff, decide_eq_false_iff_not]
  omega

theorem numeral_cancel {first second : Nat} {stop : CodePoint} (ends : isDigit stop = false)
    {rest rest' : Text} (same : numeral first ++ stop :: rest = numeral second ++ stop :: rest') :
    first = second ∧ rest = rest' := by
  have taken : ∀ value : Nat, ∀ left : Text,
      (numeral value ++ stop :: left).takeWhile isDigit = numeral value := by
    intro value left
    rw [List.takeWhile_append_of_pos (numeral_digits value), List.takeWhile_cons, if_neg,
      List.append_nil]
    simp [ends]
  have digits := congrArg (List.takeWhile isDigit) same
  rw [taken, taken] at digits
  have equal : first = second := by
    rw [← digitsValue_numeral first, digits, digitsValue_numeral]
  subst second
  exact ⟨rfl, (List.cons.inj (List.append_cancel_left same)).2⟩

end JsonTexts

end EtlCraft
