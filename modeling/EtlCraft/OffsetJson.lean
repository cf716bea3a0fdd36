import EtlCraft.Keyed
import EtlCraft.OffsetNumbers

/-! The JSON text of a partitions offset: `json.dumps` with sorted keys and compact separators, and
`json.loads` of such a text. -/

namespace EtlCraft

namespace Scripting

open Numerals

def maxStrDigits : Nat := 4300

def hexDigit (value : Nat) : CodePoint :=
  Fin.ofNat 0x110000 (if value < 10 then 48 + value else 87 + value)

def hexValue (source : CodePoint) : Option Nat :=
  if isDigit source then some (source.val - 48)
  else if 97 ≤ source.val && source.val ≤ 102 then some (source.val - 87)
  else if 65 ≤ source.val && source.val ≤ 70 then some (source.val - 55)
  else none

def unicodeEscape (unit : Nat) : Text :=
  [point '\\', point 'u', hexDigit (unit / 4096 % 16), hexDigit (unit / 256 % 16),
    hexDigit (unit / 16 % 16), hexDigit (unit % 16)]

def shortEscapes : List (CodePoint × CodePoint) :=
  [(point '"', point '"'), (point '\\', point '\\'), (point 'n', Fin.ofNat 0x110000 10),
    (point 'r', Fin.ofNat 0x110000 13), (point 't', Fin.ofNat 0x110000 9),
    (point 'f', Fin.ofNat 0x110000 12), (point 'b', Fin.ofNat 0x110000 8)]

def escape (source : CodePoint) : Text :=
  match shortEscapes.find? fun entry => entry.2 = source with
  | some (letter, _) => [point '\\', letter]
  | none =>
      if 32 ≤ source.val ∧ source.val < 127 then [source]
      else if source.val < 0x10000 then unicodeEscape source.val
      else unicodeEscape (0xd800 + (source.val - 0x10000) / 0x400) ++
        unicodeEscape (0xdc00 + (source.val - 0x10000) % 0x400)

def dumpMember (member : Text × Nat) : Text :=
  point '"' :: (member.1.flatMap escape ++ (point '"' :: point ':' :: numeral member.2))

def dumpMembers : List (Text × Nat) → Text
  | [] => []
  | [member] => dumpMember member
  | member :: rest => dumpMember member ++ point ',' :: dumpMembers rest

def dumps (members : List (Text × Nat)) : Text :=
  point '{' :: (dumpMembers members ++ [point '}'])

def readHex (digits : Text) : Option Nat :=
  digits.foldl (fun value source =>
    value.bind fun value => (hexValue source).map fun digit => value * 16 + digit) (some 0)

def readString : Text → Option (Text × Text)
  | [] => none
  | first :: rest =>
      if first = point '"' then some ([], rest)
      else if first = point '\\' then
        match rest with
        | [] => none
        | kind :: more =>
            if kind = point 'u' then
              match more with
              | first :: second :: third :: fourth :: tail => do
                  let unit ← readHex [first, second, third, fourth]
                  let (units, left) ← readString tail
                  some (Fin.ofNat 0x110000 unit :: units, left)
              | _ => none
            else do
              let (_, plain) ← shortEscapes.find? fun entry => entry.1 = kind
              let (units, left) ← readString more
              some (plain :: units, left)
      else if 32 ≤ first.val ∧ first.val < 127 then do
        let (units, left) ← readString rest
        some (first :: units, left)
      else none

def isHigh (unit : CodePoint) : Bool :=
  0xd800 ≤ unit.val && unit.val ≤ 0xdbff

def isLow (unit : CodePoint) : Bool :=
  0xdc00 ≤ unit.val && unit.val ≤ 0xdfff

def joinSurrogates : Text → Text
  | high :: low :: rest =>
      if isHigh high && isLow low then
        Fin.ofNat 0x110000 (0x10000 + (high.val - 0xd800) * 0x400 + (low.val - 0xdc00)) ::
          joinSurrogates rest
      else high :: joinSurrogates (low :: rest)
  | short => short

def readMember (text : Text) : Option ((Text × Nat) × Text) := do
  let rest ← readMark '"' text
  let (units, rest) ← readString rest
  let rest ← readMark ':' rest
  let digits := rest.takeWhile isDigit
  if digits = [] ∨ (1 < digits.length ∧ digits.head? = some (digit 0)) ∨
      maxStrDigits < digits.length then none
  else some ((joinSurrogates units, digitsValue digits), rest.dropWhile isDigit)

def readMembers : Nat → Text → Option (List (Text × Nat))
  | 0, _ => none
  | fuel + 1, text => do
      let (member, rest) ← readMember text
      match rest with
      | [] => none
      | first :: more =>
          if first = point ',' then (readMembers fuel more).map (member :: ·)
          else if first = point '}' ∧ more = [] then some [member]
          else none

def readObject (text : Text) : Option (List (Text × Nat)) := do
  let rest ← readMark '{' text
  if rest = [point '}'] then some [] else readMembers rest.length rest

/-- `json.loads` of a mapping, with what it reads in other texts; a position that is no whole number
of 0 or more is none. -/
def loads (otherJson : Text → Option (List (Text × Option Nat))) (text : Text) :
    Option (List (Text × Option Nat)) :=
  ((readObject text).map fun members => members.map fun member => (member.1, some member.2)).or
    (otherJson text)

theorem hexValue_hexDigit : ∀ value < 16, hexValue (hexDigit value) = some value := by
  decide +kernel

theorem readHex_escape {unit : Nat} (fits : unit < 0x10000) :
    readHex [hexDigit (unit / 4096 % 16), hexDigit (unit / 256 % 16), hexDigit (unit / 16 % 16),
      hexDigit (unit % 16)] = some unit := by
  have each := fun value => hexValue_hexDigit (value % 16) (Nat.mod_lt value (by omega))
  simp only [readHex, List.foldl_cons, List.foldl_nil, each, Option.bind_some, Option.map_some]
  exact congrArg some (by omega)

theorem readString_quote (rest : Text) : readString (point '"' :: rest) = some ([], rest) := by
  rw [readString.eq_def]
  exact if_pos rfl

theorem readString_printed {first : CodePoint} (printed : 32 ≤ first.val ∧ first.val < 127)
    (unquoted : first ≠ point '"' ∧ first ≠ point '\\') (rest : Text) :
    readString (first :: rest) = (readString rest).map fun read => (first :: read.1, read.2) := by
  rw [readString.eq_def]
  simp only [if_neg unquoted.1, if_neg unquoted.2, if_pos printed]
  cases readString rest <;> rfl

theorem readString_short {letter plain : CodePoint} (other : letter ≠ point 'u')
    (reads : (shortEscapes.find? fun entry => entry.1 = letter) = some (letter, plain))
    (rest : Text) : readString (point '\\' :: letter :: rest) =
      (readString rest).map fun read => (plain :: read.1, read.2) := by
  have quotes : point '\\' ≠ point '"' := by decide
  rw [readString.eq_def]
  simp only [if_neg quotes, if_true, if_neg other, reads, Option.bind_eq_bind, Option.bind_some]
  cases readString rest <;> rfl

theorem readString_unicode {unit : Nat} (fits : unit < 0x10000) (rest : Text) :
    readString (unicodeEscape unit ++ rest) =
      (readString rest).map fun read => (Fin.ofNat 0x110000 unit :: read.1, read.2) := by
  have quotes : point '\\' ≠ point '"' := by decide
  rw [unicodeEscape, readString.eq_def]
  simp only [List.cons_append, List.nil_append, if_neg quotes, if_true, readHex_escape fits,
    Option.bind_eq_bind, Option.bind_some]
  cases readString rest <;> rfl

def unitsOf (source : CodePoint) : Text :=
  if source.val < 0x10000 then [source]
  else [Fin.ofNat 0x110000 (0xd800 + (source.val - 0x10000) / 0x400),
    Fin.ofNat 0x110000 (0xdc00 + (source.val - 0x10000) % 0x400)]

theorem shortEscapes_read {entry : CodePoint × CodePoint} (member : entry ∈ shortEscapes) :
    entry.1 ≠ point 'u' ∧ (shortEscapes.find? fun other => other.1 = entry.1) = some entry ∧
      entry.2.val < 0x10000 := by
  simp only [shortEscapes, List.mem_cons, List.not_mem_nil, or_false] at member
  rcases member with rfl | rfl | rfl | rfl | rfl | rfl | rfl <;>
    exact ⟨by decide, rfl, by decide⟩

theorem readString_escape (source : CodePoint) (rest : Text) :
    readString (escape source ++ rest) =
      (readString rest).map fun read => (unitsOf source ++ read.1, read.2) := by
  rw [escape]
  split
  · rename_i letter plain found
    obtain ⟨other, reads, small⟩ := shortEscapes_read (List.mem_of_find?_eq_some found)
    have same : plain = source := by simpa using List.find?_some found
    subst plain
    rw [List.cons_append, List.singleton_append, readString_short other reads, unitsOf, if_pos small]
    rfl
  · rename_i absent
    rw [List.find?_eq_none] at absent
    have unquoted : source ≠ point '"' ∧ source ≠ point '\\' := by
      constructor
      · rintro rfl
        exact absent (point '"', point '"') (by simp [shortEscapes]) (by simp)
      · rintro rfl
        exact absent (point '\\', point '\\') (by simp [shortEscapes]) (by simp)
    split
    · rename_i printed
      rw [List.singleton_append, readString_printed printed unquoted, unitsOf, if_pos (by omega)]
      rfl
    · split
      · rename_i small
        have same : Fin.ofNat 0x110000 source.val = source := by simp
        rw [readString_unicode small, unitsOf, if_pos small, same]
        rfl
      · rename_i large
        have bound := source.isLt
        rw [List.append_assoc, readString_unicode (by omega), readString_unicode (by omega), unitsOf,
          if_neg large]
        cases readString rest <;> rfl

theorem readString_key (key : Text) (rest : Text) :
    readString (key.flatMap escape ++ point '"' :: rest) = some (key.flatMap unitsOf, rest) := by
  induction key with
  | nil =>
      rw [List.flatMap_nil, List.nil_append, readString_quote, List.flatMap_nil]
  | cons source key ih =>
      rw [List.flatMap_cons, List.append_assoc, readString_escape, ih]
      rfl

/-- No high surrogate stands directly before a low one. -/
def Separate (key : Text) : Prop :=
  key.IsChain fun high low => ¬(isHigh high = true ∧ isLow low = true)

theorem joinSurrogates_pair {high low : CodePoint} (pair : isHigh high = true ∧ isLow low = true)
    (rest : Text) : joinSurrogates (high :: low :: rest) =
      Fin.ofNat 0x110000 (0x10000 + (high.val - 0xd800) * 0x400 + (low.val - 0xdc00)) ::
        joinSurrogates rest := by
  rw [joinSurrogates, if_pos]
  simpa using pair

theorem joinSurrogates_apart {high low : CodePoint}
    (apart : ¬(isHigh high = true ∧ isLow low = true)) (rest : Text) :
    joinSurrogates (high :: low :: rest) = high :: joinSurrogates (low :: rest) := by
  rw [joinSurrogates, if_neg]
  simpa using apart

theorem joinSurrogates_astral {source : CodePoint} (astral : ¬source.val < 0x10000) (rest : Text) :
    joinSurrogates (unitsOf source ++ rest) = source :: joinSurrogates rest := by
  have bound := source.isLt
  have high : (Fin.ofNat 0x110000 (0xd800 + (source.val - 0x10000) / 0x400)).val =
      0xd800 + (source.val - 0x10000) / 0x400 := by
    rw [Fin.val_ofNat]
    omega
  have low : (Fin.ofNat 0x110000 (0xdc00 + (source.val - 0x10000) % 0x400)).val =
      0xdc00 + (source.val - 0x10000) % 0x400 := by
    rw [Fin.val_ofNat]
    omega
  have pair : isHigh (Fin.ofNat 0x110000 (0xd800 + (source.val - 0x10000) / 0x400)) = true ∧
      isLow (Fin.ofNat 0x110000 (0xdc00 + (source.val - 0x10000) % 0x400)) = true := by
    rw [isHigh, isLow, high, low]
    simp only [Bool.and_eq_true, decide_eq_true_eq]
    omega
  have joined : Fin.ofNat 0x110000 (0x10000 +
      (0xd800 + (source.val - 0x10000) / 0x400 - 0xd800) * 0x400 +
      (0xdc00 + (source.val - 0x10000) % 0x400 - 0xdc00)) = source := by
    apply Fin.ext
    rw [Fin.val_ofNat]
    omega
  rw [unitsOf, if_neg astral, List.cons_append, List.singleton_append, joinSurrogates_pair pair, high,
    low, joined]

theorem unitsOf_head (source : CodePoint) (rest : Text) : ∃ first units,
    unitsOf source ++ rest = first :: units ∧ (isLow first = true → isLow source = true) := by
  rw [unitsOf]
  split
  · exact ⟨source, rest, rfl, id⟩
  · refine ⟨_, _, rfl, ?_⟩
    intro low
    have bound := source.isLt
    simp only [isLow, Fin.val_ofNat, Bool.and_eq_true, decide_eq_true_eq] at low
    omega

theorem joinSurrogates_units (key : Text) :
    joinSurrogates (key.flatMap unitsOf) = joinSurrogates key := by
  induction key using joinSurrogates.induct with
  | case1 high low rest pair ih =>
      have small : high.val < 0x10000 ∧ low.val < 0x10000 := by
        simp only [isHigh, isLow, Bool.and_eq_true, decide_eq_true_eq] at pair
        omega
      rw [Bool.and_eq_true] at pair
      rw [List.flatMap_cons, List.flatMap_cons, unitsOf, if_pos small.1, unitsOf, if_pos small.2,
        List.singleton_append, List.singleton_append, joinSurrogates_pair pair,
        joinSurrogates_pair pair, ih]
  | case2 high low rest apart ih =>
      rw [Bool.and_eq_true] at apart
      rw [joinSurrogates_apart apart, ← ih, List.flatMap_cons]
      by_cases small : high.val < 0x10000
      · obtain ⟨first, units, shape, lower⟩ := unitsOf_head low (rest.flatMap unitsOf)
        rw [List.flatMap_cons, shape, unitsOf, if_pos small, List.singleton_append]
        exact joinSurrogates_apart (fun pair => apart ⟨pair.1, lower pair.2⟩) units
      · exact joinSurrogates_astral small _
  | case3 short notPair =>
      cases short with
      | nil => rfl
      | cons source rest =>
          cases rest with
          | cons low rest => exact absurd rfl (notPair source low rest)
          | nil =>
              by_cases small : source.val < 0x10000
              · rw [List.flatMap_cons, unitsOf, if_pos small]
                rfl
              · rw [List.flatMap_cons, joinSurrogates_astral small]
                rfl

theorem joinSurrogates_head (low : CodePoint) (rest : Text) : ∃ first others,
    joinSurrogates (low :: rest) = first :: others ∧ (isLow first = true → isLow low = true) := by
  cases rest with
  | nil => exact ⟨low, [], rfl, id⟩
  | cons next rest =>
      by_cases pair : isHigh low = true ∧ isLow next = true
      · refine ⟨_, _, joinSurrogates_pair pair rest, ?_⟩
        intro joined
        simp only [isHigh, isLow, Fin.val_ofNat, Bool.and_eq_true, decide_eq_true_eq] at pair joined
        omega
      · exact ⟨low, _, joinSurrogates_apart pair rest, id⟩

theorem separate_cons {high : CodePoint} {rest : Text}
    (apart : ∀ low, rest.head? = some low → ¬(isHigh high = true ∧ isLow low = true))
    (separate : Separate rest) : Separate (high :: rest) := by
  cases rest with
  | nil => exact List.isChain_singleton high
  | cons low rest => exact List.isChain_cons_cons.mpr ⟨apart low rfl, separate⟩

theorem separate_join (key : Text) : Separate (joinSurrogates key) := by
  induction key using joinSurrogates.induct with
  | case1 high low rest pair ih =>
      rw [Bool.and_eq_true] at pair
      rw [joinSurrogates_pair pair]
      refine separate_cons (fun first _ joined => ?_) ih
      simp only [isHigh, isLow, Fin.val_ofNat, Bool.and_eq_true, decide_eq_true_eq] at pair joined
      omega
  | case2 high low rest apart ih =>
      rw [Bool.and_eq_true] at apart
      rw [joinSurrogates_apart apart]
      obtain ⟨first, others, shape, lower⟩ := joinSurrogates_head low rest
      refine separate_cons (fun next isNext pair => ?_) ih
      rw [shape] at isNext
      cases isNext
      exact apart ⟨pair.1, lower pair.2⟩
  | case3 short notPair =>
      cases short with
      | nil => exact List.isChain_nil
      | cons source rest =>
          cases rest with
          | cons low rest => exact absurd rfl (notPair source low rest)
          | nil => exact List.isChain_singleton source

theorem joinSurrogates_eq_iff (key : Text) : joinSurrogates key = key ↔ Separate key := by
  constructor
  · intro same
    rw [← same]
    exact separate_join key
  · intro separate
    induction key with
    | nil => rfl
    | cons high rest ih =>
        cases rest with
        | nil => rfl
        | cons low rest =>
            obtain ⟨apart, others⟩ := List.isChain_cons_cons.mp separate
            rw [joinSurrogates_apart apart, ih others]

theorem dumpMember_read {member : Text × Nat} (short : member.2 < 10 ^ maxStrDigits)
    {first : CodePoint} (ends : isDigit first = false) (rest : Text) :
    readMember (dumpMember member ++ first :: rest) =
      some ((joinSurrogates member.1, member.2), first :: rest) := by
  have digits := numeral_digits member.2
  have stops : ∀ source ∈ (first :: rest).head?, isDigit source = false := by
    simpa using ends
  have taken : (numeral member.2 ++ first :: rest).takeWhile isDigit = numeral member.2 := by
    rw [List.takeWhile_append_of_pos digits]
    simp [ends]
  have left : (numeral member.2 ++ first :: rest).dropWhile isDigit = first :: rest := by
    rw [List.dropWhile_append_of_pos digits]
    simp [ends]
  have size : ¬maxStrDigits < (numeral member.2).length := by
    rw [Nat.not_lt]
    exact (numeral_length_le (by decide)).mpr short
  rw [dumpMember, readMember]
  simp only [List.cons_append, List.append_assoc, readMark_cons, Option.bind_eq_bind,
    Option.bind_some, readString_key, taken, left, joinSurrogates_units]
  rw [if_neg, digitsValue_numeral]
  rintro (empty | ⟨long, zero⟩ | tooLong)
  · exact numeral_ne_nil member.2 empty
  · exact numeral_head long zero
  · exact size tooLong

theorem readMembers_dump {members : List (Text × Nat)} (some' : members ≠ [])
    (short : ∀ member ∈ members, member.2 < 10 ^ maxStrDigits) {fuel : Nat}
    (enough : members.length ≤ fuel) :
    readMembers fuel (dumpMembers members ++ [point '}']) =
      some (members.map fun member => (joinSurrogates member.1, member.2)) := by
  have close : isDigit (point '}') = false ∧ isDigit (point ',') = false ∧
      point '}' ≠ point ',' := by decide
  induction members generalizing fuel with
  | nil => exact absurd rfl some'
  | cons member rest ih =>
      obtain ⟨fuel, rfl⟩ : ∃ left, fuel = left + 1 := ⟨fuel - 1, by simp at enough; omega⟩
      have first := short member List.mem_cons_self
      cases rest with
      | nil =>
          rw [dumpMembers, readMembers, dumpMember_read first close.1]
          simp [close.2.2]
      | cons next rest =>
          have others : (next :: rest).length ≤ fuel := by simpa using enough
          have following := ih (by simp)
            (fun other inside => short other (List.mem_cons_of_mem member inside)) others
          rw [dumpMembers, readMembers, List.append_assoc, List.cons_append,
            dumpMember_read first close.2.1]
          · simp only [Option.bind_eq_bind, Option.bind_some, if_true, following]
            rfl
          · simp

theorem length_dumpMembers (members : List (Text × Nat)) :
    members.length ≤ (dumpMembers members).length := by
  induction members with
  | nil => exact Nat.le_refl 0
  | cons member rest ih =>
      cases rest with
      | nil => simp [dumpMembers, dumpMember]
      | cons next rest =>
          rw [dumpMembers, List.length_append]
          · simp only [List.length_cons] at ih ⊢
            omega
          · simp

theorem dumpMembers_head (member : Text × Nat) (rest : List (Text × Nat)) :
    ∃ text, dumpMembers (member :: rest) = point '"' :: text := by
  cases rest with
  | nil => exact ⟨_, rfl⟩
  | cons next rest => exact ⟨_, rfl⟩

theorem readObject_dumps {members : List (Text × Nat)}
    (short : ∀ member ∈ members, member.2 < 10 ^ maxStrDigits) :
    readObject (dumps members) =
      some (members.map fun member => (joinSurrogates member.1, member.2)) := by
  rw [dumps, readObject, readMark_cons, Option.bind_eq_bind, Option.bind_some]
  cases members with
  | nil => rfl
  | cons member rest =>
      rw [if_neg]
      · refine readMembers_dump (List.cons_ne_nil member rest) short ?_
        have size := length_dumpMembers (member :: rest)
        rw [List.length_append]
        omega
      · obtain ⟨text, shape⟩ := dumpMembers_head member rest
        have quote : point '"' ≠ point '}' := by decide
        rw [shape]
        intro same
        exact quote (List.cons.inj same).1

end Scripting

end EtlCraft
