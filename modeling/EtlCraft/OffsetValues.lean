import EtlCraft.OffsetJson
import EtlCraft.OffsetStamps
import EtlCraft.PartitionOffsets

/-! The offset a script returns: the cast of its value, the text it is stored as, and the offset the
next run reads back. -/

namespace EtlCraft

namespace Scripting

open Numerals

structure OtherTexts where
  unicode : UnicodeTable
  isoForms : Text → Option Stamp
  json : Text → Option (List (Text × Option Nat))

structure PartitionMap where
  entries : List (Text × Nat)
  sorted : entries.Pairwise fun first second => first.1 < second.1
  named : ∀ entry ∈ entries, entry.1 ≠ []
  deriving DecidableEq

inductive OffsetValue
  | int (value : Int)
  | decimal (value : Decimal)
  | text (value : Text)
  | datetime (value : DateTime)
  | partitions (positions : PartitionMap)

/-- A value a script gives: a mapping's key is none where it is not text, its position where it is
no whole number of 0 or more; `shown` says that its `repr` writes the positions. -/
inductive PyValue
  | none
  | bool (value : Bool)
  | int (value : Int)
  | decimal (value : Decimal)
  | text (value : Text)
  | datetime (value : DateTime)
  | mapping (entries : List (Option Text × Option Nat)) (shown : Bool)
  | other (str : Text)

def intText (value : Int) : Option Text :=
  if (numeral value.natAbs).length ≤ maxStrDigits then
    some (Decimal.sign (value < 0) ++ numeral value.natAbs)
  else none

/-- The failure's message shows the value, which raises for an `int` with too many digits. -/
def shows : PyValue → Bool
  | .int value => (intText value).isSome
  | .mapping entries true => entries.all fun entry =>
      entry.2.all fun position => (intText position).isSome
  | _ => true

def strOf : PyValue → Text
  | .text value => value
  | .datetime value => DateTime.dateText value.time.fields ++ (point ' ' ::
      (DateTime.timeText value.time.fields ++ ((value.utcoffset value.fold).elim [] fun offset =>
        DateTime.offsetText offset.micros)))
  | .other text => text
  | _ => []

def castNumber (others : OtherTexts) : PyValue → Option OffsetValue
  | .int value => some (.int value)
  | .decimal value => some (.decimal value)
  | value => do
      let number ← Decimal.read others.unicode (others.unicode.strip (strOf value))
      if number.isFinite then
        match number.whole? with
        | some whole => some (.int whole)
        | none => some (.decimal number)
      else none

def castTimestamp (others : OtherTexts) : PyValue → Option OffsetValue
  | .datetime value => if value.nanosecond = 0 then some (.datetime value) else none
  | .text value =>
      (fromisoformat others.isoForms (others.unicode.strip value)).map .datetime
  | _ => none

def castText : PyValue → Option OffsetValue
  | .datetime value => some (.text value.isoformat)
  | .text value => some (.text value)
  | .int value => (intText value).map .text
  | .decimal value => some (.text value.str)
  | _ => none

def byKey (first second : Text × Nat) : Prop :=
  first.1 ≤ second.1

instance : DecidableRel byKey :=
  fun first second => inferInstanceAs (Decidable (first.1 ≤ second.1))

theorem byKey_total : Std.Total byKey :=
  ⟨fun first second => le_total first.1 second.1⟩

theorem byKey_trans : IsTrans (Text × Nat) byKey :=
  ⟨fun _ _ _ left right => le_trans left right⟩

def partitionMap (members : List (Text × Nat)) (named : ∀ member ∈ members, member.1 ≠ []) :
    PartitionMap where
  entries := (Keyed.putAll Prod.fst members).insertionSort byKey
  sorted := by
    have total := byKey_total
    have trans := byKey_trans
    have perm := List.perm_insertionSort byKey (Keyed.putAll Prod.fst members)
    have distinct := (perm.map Prod.fst).nodup_iff.mpr (Keyed.putAll_distinct Prod.fst members)
    have ordered := List.pairwise_insertionSort byKey (Keyed.putAll Prod.fst members)
    exact (ordered.and (List.pairwise_map.mp distinct)).imp
      fun both => lt_of_le_of_ne both.1 both.2
  named entry member := named entry (Keyed.mem_putAll
    ((List.perm_insertionSort byKey (Keyed.putAll Prod.fst members)).mem_iff.mp member))

def positions (entries : List (Option Text × Option Nat)) : Option PartitionMap := do
  let members ← entries.mapM fun entry => do
    let key ← entry.1
    let position ← entry.2
    some (key, position)
  if named : ∀ member ∈ members, member.1 ≠ [] then some (partitionMap members named) else none

def castPartitions (others : OtherTexts) : PyValue → Option OffsetValue
  | .text value => do
      let entries ← loads others.json value
      (positions (entries.map fun entry => (some entry.1, entry.2))).map .partitions
  | .mapping entries _ => (positions entries).map .partitions
  | _ => none

def cast (others : OtherTexts) (kind : OffsetType) (value : PyValue) : Option OffsetValue :=
  if shows value then
    match kind, value with
    | _, .none => none
    | _, .bool _ => none
    | .partitions, value => castPartitions others value
    | _, .mapping _ _ => none
    | .number, value => castNumber others value
    | .timestamp, value => castTimestamp others value
    | .text, value => castText value
  else none

structure Offset where
  value : OffsetValue
  datatype : OffsetType

def Offset.make (others : OtherTexts) (datatype : OffsetType) (value : PyValue) : Option Offset :=
  (cast others datatype value).map fun value => { value, datatype }

/-- The text the offset is stored as; none where `str` or `json.dumps` raises. -/
def OffsetValue.stored : OffsetValue → Option Text
  | .int value => intText value
  | .decimal value => some value.str
  | .text value => some value
  | .datetime value => some value.isoformat
  | .partitions positions =>
      if ∀ entry ∈ positions.entries, (intText entry.2).isSome then some (dumps positions.entries)
      else none

def Offset.fromStored (others : OtherTexts) (datatype : OffsetType) (text : Text) : Option Offset :=
  Offset.make others datatype (.text text)

def Decimal.value? : Decimal → Option ℚ
  | .finite negative coefficient exponent =>
      some ((if negative then -(coefficient : ℚ) else coefficient) * (10 : ℚ) ^ exponent)
  | _ => none

def OffsetValue.equal : OffsetValue → OffsetValue → Bool
  | .int first, .int second => first = second
  | .int first, .decimal second => second.value? = some (first : ℚ)
  | .decimal first, .int second => first.value? = some (second : ℚ)
  | .decimal first, .decimal second =>
      match first, second with
      | .infinity negative, .infinity other => negative = other
      | _, _ => first.value?.isSome && first.value? = second.value?
  | .text first, .text second => first = second
  | .datetime first, .datetime second => first.equal second
  | .partitions first, .partitions second => first = second
  | _, _ => false

def Offset.equal (first second : Offset) : Bool :=
  first.value.equal second.value && first.datatype = second.datatype

def Offset.RoundTrips (others : OtherTexts) (offset : Offset) : Prop :=
  ∃ text again, offset.value.stored = some text ∧
    Offset.fromStored others offset.datatype text = some again ∧
    again.equal offset = true ∧ again.value.stored = some text

def OffsetValue.Storable : OffsetValue → Prop
  | .int value => value.natAbs < 10 ^ maxStrDigits
  | .decimal (.finite negative coefficient exponent) =>
      (Decimal.finite negative coefficient exponent).whole? = none ∨
        (exponent = 0 ∧ coefficient < 10 ^ maxStrDigits ∧ ¬(negative = true ∧ coefficient = 0))
  | .decimal _ => False
  | .text _ => True
  | .datetime value => value.utcoffset value.fold = value.utcoffset (!value.fold)
  | .partitions positions => ∀ entry ∈ positions.entries,
      entry.2 < 10 ^ maxStrDigits ∧ Separate entry.1

section RoundTrips

variable {others : OtherTexts}

theorem intText_eq_some {value : Int} {text : Text} : intText value = some text ↔
    value.natAbs < 10 ^ maxStrDigits ∧ text = (Decimal.finite (value < 0) value.natAbs 0).str := by
  rw [intText, Option.ite_none_right_eq_some, numeral_length_le (by decide), Decimal.str_whole,
    Option.some.injEq, eq_comm (b := text)]

theorem castNumber_str (value : Decimal) :
    castNumber others (.text value.str) =
      if value.isFinite then
        match value.whole? with
        | some whole => some (.int whole)
        | none => some (.decimal value)
      else none := by
  rw [castNumber]
  · simp only [strOf, (Decimal.plain_str value).strip, Decimal.read_str, Option.bind_eq_bind,
      Option.bind_some]
  · nofun
  · nofun

theorem fromStored_number (value : Decimal) {again : Offset} :
    Offset.fromStored others .number value.str = some again ↔
      ∃ read, castNumber others (.text value.str) = some read ∧ again = ⟨read, .number⟩ := by
  rw [Offset.fromStored, Offset.make, Option.map_eq_some_iff]
  exact exists_congr fun read => and_congr_right fun _ => eq_comm

theorem round_trips_int (value : Int) :
    Offset.RoundTrips others ⟨.int value, .number⟩ ↔ value.natAbs < 10 ^ maxStrDigits := by
  constructor
  · rintro ⟨text, again, stored, _⟩
    exact (intText_eq_some.mp stored).1
  · intro short
    have stored := intText_eq_some.mpr ⟨short, rfl⟩
    refine ⟨_, ⟨.int value, .number⟩, stored, ?_, ?_, stored⟩
    · rw [fromStored_number, castNumber_str, Decimal.whole?_int]
      exact ⟨_, rfl, rfl⟩
    · simp [Offset.equal, OffsetValue.equal]

theorem Decimal.value_whole {value : Decimal} {whole : Int} (same : value.whole? = some whole) :
    value.value? = some (whole : ℚ) := by
  cases value with
  | infinity negative => cases same
  | nan negative signaling payload => cases same
  | finite negative coefficient exponent =>
      have size : ∃ size : Nat, whole = (if negative then -(size : Int) else size) ∧
          (coefficient : ℚ) * (10 : ℚ) ^ exponent = size := by
        rw [Decimal.whole?, Option.map_eq_some_iff] at same
        obtain ⟨size, found, rfl⟩ := same
        refine ⟨size, rfl, ?_⟩
        split at found
        · rename_i natural
          cases found
          obtain ⟨places, rfl⟩ := Int.eq_ofNat_of_zero_le natural
          simp
        · rename_i below
          rw [Option.ite_none_right_eq_some] at found
          obtain ⟨divides, found⟩ := found
          cases found
          obtain ⟨places, rfl⟩ : ∃ places : Nat, exponent = -(places : Int) :=
            ⟨(-exponent).toNat, by omega⟩
          rw [Int.neg_neg, Int.toNat_natCast] at divides ⊢
          obtain ⟨quotient, rfl⟩ := Nat.dvd_of_mod_eq_zero divides
          have positive : 0 < 10 ^ places := Nat.pow_pos (by omega)
          rw [Nat.mul_div_cancel_left quotient positive, zpow_neg, zpow_natCast]
          push_cast
          field_simp
      obtain ⟨size, rfl, equal⟩ := size
      cases negative with
      | false => simpa [Decimal.value?] using equal
      | true =>
          simp only [Decimal.value?, if_true, neg_mul, equal]
          push_cast
          rfl

theorem round_trips_decimal (value : Decimal) :
    Offset.RoundTrips others ⟨.decimal value, .number⟩ ↔ OffsetValue.Storable (.decimal value) := by
  cases value with
  | infinity negative =>
      refine iff_of_false ?_ id
      rintro ⟨text, again, stored, reads, _⟩
      cases stored
      rw [fromStored_number, castNumber_str] at reads
      obtain ⟨_, refused, _⟩ := reads
      cases refused
  | nan negative signaling payload =>
      refine iff_of_false ?_ id
      rintro ⟨text, again, stored, reads, _⟩
      cases stored
      rw [fromStored_number, castNumber_str] at reads
      obtain ⟨_, refused, _⟩ := reads
      cases refused
  | finite negative coefficient exponent =>
      rw [OffsetValue.Storable]
      cases whole : (Decimal.finite negative coefficient exponent).whole? with
      | none =>
          refine iff_of_true ?_ (.inl rfl)
          refine ⟨_, ⟨.decimal (.finite negative coefficient exponent), .number⟩, rfl, ?_, ?_, rfl⟩
          · rw [fromStored_number, castNumber_str, whole]
            exact ⟨_, rfl, rfl⟩
          · simp [Offset.equal, OffsetValue.equal, Decimal.value?]
      | some size =>
          rw [or_iff_right (by simp)]
          constructor
          · rintro ⟨text, again, stored, reads, _, same⟩
            cases stored
            rw [fromStored_number, castNumber_str, whole] at reads
            obtain ⟨read, isRead, rfl⟩ := reads
            cases isRead
            obtain ⟨short, text⟩ := intText_eq_some.mp same
            have equal := Decimal.str_injective text
            cases equal
            refine ⟨rfl, short, ?_⟩
            rintro ⟨below, zero⟩
            rw [decide_eq_true_eq] at below
            omega
          · rintro ⟨rfl, short, positive⟩
            have digits : Decimal.finite negative coefficient 0 =
                .finite (size < 0) size.natAbs 0 ∧ coefficient = size.natAbs := by
              rw [Decimal.whole?_whole, Option.some.injEq] at whole
              subst size
              cases negative with
              | false => simp
              | true =>
                  have some' : coefficient ≠ 0 := fun zero => positive ⟨rfl, zero⟩
                  simp
                  omega
            have stored := intText_eq_some.mpr ⟨digits.2 ▸ short, congrArg Decimal.str digits.1⟩
            refine ⟨_, ⟨.int size, .number⟩, rfl, ?_, ?_, stored⟩
            · rw [fromStored_number, castNumber_str, whole]
              exact ⟨_, rfl, rfl⟩
            · simp [Offset.equal, OffsetValue.equal, Decimal.value_whole whole]

theorem round_trips_text (value : Text) : Offset.RoundTrips others ⟨.text value, .text⟩ :=
  ⟨value, ⟨.text value, .text⟩, rfl, rfl, by simp [Offset.equal, OffsetValue.equal], rfl⟩

theorem round_trips_datetime (value : DateTime) :
    Offset.RoundTrips others ⟨.datetime value, .timestamp⟩ ↔
      value.utcoffset value.fold = value.utcoffset (!value.fold) := by
  have read : Offset.fromStored others .timestamp value.isoformat =
      some ⟨.datetime (Stamp.datetime ⟨value.time, value.utcoffset value.fold⟩), .timestamp⟩ := by
    have text : cast others .timestamp (.text value.isoformat) =
        castTimestamp others (.text value.isoformat) := rfl
    rw [Offset.fromStored, Offset.make, text]
    simp only [castTimestamp, (plain_isoformat value).strip, fromisoformat, readIso_isoformat,
      Option.some_or, Option.map_some]
  have equal := equal_stamp value
  constructor
  · rintro ⟨text, again, stored, reads, same, _⟩
    cases stored
    rw [read] at reads
    cases reads
    rw [Offset.equal, Bool.and_eq_true, OffsetValue.equal, equal] at same
    exact of_decide_eq_true same.1
  · intro settled
    refine ⟨_, _, rfl, read, ?_, congrArg some (isoformat_stamp value)⟩
    rw [Offset.equal, Bool.and_eq_true, OffsetValue.equal, equal]
    exact ⟨decide_eq_true settled, rfl⟩

theorem positions_of_members (members : List (Text × Nat))
    (named : ∀ member ∈ members, member.1 ≠ []) :
    positions ((members.map fun member => (member.1, some member.2)).map fun entry =>
      (some entry.1, entry.2)) = some (partitionMap members named) := by
  have read : ((members.map fun member => (member.1, some member.2)).map fun entry =>
      (some entry.1, entry.2)).mapM (fun entry : Option Text × Option Nat => do
        let key ← entry.1
        let position ← entry.2
        some (key, position)) = some members := by
    clear named
    induction members with
    | nil => rfl
    | cons member rest ih =>
        rw [List.map_cons, List.map_cons, List.mapM_cons, ih]
        rfl
  rw [positions, read]
  exact dif_pos named

theorem mem_partitionMap {members : List (Text × Nat)} {named : ∀ member ∈ members, member.1 ≠ []}
    {entry : Text × Nat} (member : entry ∈ (partitionMap members named).entries) : entry ∈ members :=
  Keyed.mem_putAll ((List.perm_insertionSort byKey (Keyed.putAll Prod.fst members)).mem_iff.mp member)

theorem partitionMap_entries (map : PartitionMap) : partitionMap map.entries map.named = map := by
  have distinct : (map.entries.map Prod.fst).Nodup :=
    List.pairwise_map.mpr (map.sorted.imp ne_of_lt)
  have ordered : map.entries.Pairwise byKey := map.sorted.imp le_of_lt
  obtain ⟨entries, sorted, named⟩ := map
  simp only [partitionMap, Keyed.putAll_of_distinct distinct, ordered.insertionSort_eq]

theorem joined_named (map : PartitionMap) : ∀ member ∈ map.entries.map (fun entry =>
    (joinSurrogates entry.1, entry.2)), member.1 ≠ [] := by
  intro member inside
  obtain ⟨entry, inMap, rfl⟩ := List.mem_map.mp inside
  obtain ⟨first, rest, shape⟩ := List.exists_cons_of_ne_nil (map.named entry inMap)
  obtain ⟨head, others, joined, _⟩ := joinSurrogates_head first rest
  rw [shape, joined]
  exact List.cons_ne_nil head others

theorem fromStored_partitions (map : PartitionMap)
    (short : ∀ entry ∈ map.entries, entry.2 < 10 ^ maxStrDigits) :
    Offset.fromStored others .partitions (dumps map.entries) =
      some ⟨.partitions (partitionMap _ (joined_named map)), .partitions⟩ := by
  have text : cast others .partitions (.text (dumps map.entries)) =
      castPartitions others (.text (dumps map.entries)) := rfl
  rw [Offset.fromStored, Offset.make, text, castPartitions, loads, readObject_dumps short,
    Option.map_some, Option.some_or]
  simp only [Option.bind_eq_bind, Option.bind_some, positions_of_members _ (joined_named map),
    Option.map_some]

theorem round_trips_partitions (map : PartitionMap) :
    Offset.RoundTrips others ⟨.partitions map, .partitions⟩ ↔
      ∀ entry ∈ map.entries, entry.2 < 10 ^ maxStrDigits ∧ Separate entry.1 := by
  have digits : ∀ position : Nat, (intText position).isSome = true ↔ position < 10 ^ maxStrDigits := by
    intro position
    rw [Option.isSome_iff_exists]
    constructor
    · rintro ⟨text, stored⟩
      exact (intText_eq_some.mp stored).1
    · exact fun short => ⟨_, intText_eq_some.mpr ⟨short, rfl⟩⟩
  constructor
  · rintro ⟨text, again, stored, reads, same, _⟩ entry member
    rw [OffsetValue.stored, Option.ite_none_right_eq_some] at stored
    obtain ⟨shown, stored⟩ := stored
    cases stored
    have short : ∀ entry ∈ map.entries, entry.2 < 10 ^ maxStrDigits :=
      fun other inside => (digits other.2).mp (shown other inside)
    rw [fromStored_partitions map short] at reads
    cases reads
    rw [Offset.equal, Bool.and_eq_true, OffsetValue.equal] at same
    have equal := of_decide_eq_true same.1
    refine ⟨short entry member, ?_⟩
    rw [← equal] at member
    obtain ⟨source, _, rfl⟩ := List.mem_map.mp (mem_partitionMap member)
    exact separate_join source.1
  · intro kept
    have short : ∀ entry ∈ map.entries, entry.2 < 10 ^ maxStrDigits :=
      fun entry member => (kept entry member).1
    have stored : OffsetValue.stored (.partitions map) = some (dumps map.entries) := by
      rw [OffsetValue.stored, if_pos]
      exact fun entry member => (digits entry.2).mpr (short entry member)
    have joined : map.entries.map (fun entry => (joinSurrogates entry.1, entry.2)) = map.entries := by
      refine (List.map_congr_left fun entry member => ?_).trans (List.map_id map.entries)
      rw [(joinSurrogates_eq_iff entry.1).mpr (kept entry member).2]
      rfl
    have same : partitionMap _ (joined_named map) = map := by
      simp only [joined, partitionMap_entries]
    refine ⟨_, _, stored, fromStored_partitions map short, ?_, ?_⟩
    · simp [Offset.equal, OffsetValue.equal, same]
    · rw [same]
      exact stored

def OffsetValue.Fits : OffsetValue → OffsetType → Prop
  | .int _, datatype => datatype = .number
  | .decimal _, datatype => datatype = .number
  | .text _, datatype => datatype = .text
  | .datetime _, datatype => datatype = .timestamp
  | .partitions _, datatype => datatype = .partitions

theorem castNumber_fits {value : PyValue} {result : OffsetValue}
    (done : castNumber others value = some result) : result.Fits .number := by
  unfold castNumber at done
  split at done
  · cases done
    exact rfl
  · cases done
    exact rfl
  · rw [Option.bind_eq_bind, Option.bind_eq_some_iff] at done
    obtain ⟨number, _, taken⟩ := done
    split at taken
    · split at taken
      · cases taken
        exact rfl
      · cases taken
        exact rfl
    · cases taken

theorem cast_fits {datatype : OffsetType} {value : PyValue} {result : OffsetValue}
    (done : cast others datatype value = some result) : result.Fits datatype := by
  unfold cast at done
  split at done
  · split at done
    · cases done
    · cases done
    · unfold castPartitions at done
      split at done
      · rw [Option.bind_eq_bind, Option.bind_eq_some_iff] at done
        obtain ⟨_, _, taken⟩ := done
        obtain ⟨map, _, rfl⟩ := Option.map_eq_some_iff.mp taken
        exact rfl
      · obtain ⟨map, _, rfl⟩ := Option.map_eq_some_iff.mp done
        exact rfl
      · cases done
    · cases done
    · exact castNumber_fits done
    · unfold castTimestamp at done
      split at done
      · rw [Option.ite_none_right_eq_some] at done
        obtain ⟨_, taken⟩ := done
        cases taken
        exact rfl
      · obtain ⟨moment, _, rfl⟩ := Option.map_eq_some_iff.mp done
        exact rfl
      · cases done
    · unfold castText at done
      split at done
      · cases done
        exact rfl
      · cases done
        exact rfl
      · obtain ⟨text, _, rfl⟩ := Option.map_eq_some_iff.mp done
        exact rfl
      · cases done
        exact rfl
      · cases done
  · cases done

/-- An offset that a script may return is read back unchanged exactly when its value is one that a
stored text keeps. -/
theorem round_trips_iff (others : OtherTexts) (datatype : OffsetType) (value : PyValue)
    {offset : Offset} (accepted : Offset.make others datatype value = some offset) :
    Offset.RoundTrips others offset ↔ offset.value.Storable := by
  rw [Offset.make, Option.map_eq_some_iff] at accepted
  obtain ⟨result, done, rfl⟩ := accepted
  have fits := cast_fits done
  cases result with
  | int number =>
      cases fits
      exact round_trips_int number
  | decimal number =>
      cases fits
      exact round_trips_decimal number
  | text text =>
      cases fits
      exact iff_of_true (round_trips_text text) trivial
  | datetime moment =>
      cases fits
      exact round_trips_datetime moment
  | partitions map =>
      cases fits
      exact round_trips_partitions map

end RoundTrips

def noOthers : OtherTexts :=
  ⟨⟨fun _ => false, fun _ => none⟩, fun _ => none, fun _ => none⟩

theorem round_trips_iff_whole :
    Offset.RoundTrips noOthers ⟨.decimal (.finite false 15 (-1)), .number⟩ ↔
      (OffsetValue.decimal (.finite false 15 (-1))).Storable :=
  round_trips_iff noOthers .number (.decimal (.finite false 15 (-1))) rfl

/-- A `Decimal` that is no number is accepted, stored, and then refused. -/
theorem nan_refused :
    Offset.make noOthers .number (.decimal (.nan false false 0)) =
        some ⟨.decimal (.nan false false 0), .number⟩ ∧
      (OffsetValue.decimal (.nan false false 0)).stored = some (word ['N', 'a', 'N']) ∧
      Offset.fromStored noOthers .number (word ['N', 'a', 'N']) = none := by
  refine ⟨rfl, rfl, ?_⟩
  decide +kernel

end Scripting

end EtlCraft
