import EtlCraft.Gregorian
import EtlCraft.OffsetNumbers

/-! The `datetime` of a timestamp offset: its ISO 8601 text, the moment read from such a text, and
when Python calls two of them equal. -/

namespace EtlCraft

namespace Scripting

open Numerals

structure TimeFields where
  year : Nat
  month : Nat
  day : Nat
  hour : Nat
  minute : Nat
  second : Nat
  microsecond : Nat
  deriving DecidableEq, Repr

def TimeFields.Valid (fields : TimeFields) : Prop :=
  (1 ≤ fields.year ∧ fields.year ≤ 9999) ∧ (1 ≤ fields.month ∧ fields.month ≤ 12) ∧
    (1 ≤ fields.day ∧ fields.day ≤ Gregorian.daysInMonth fields.year fields.month) ∧
    fields.hour < 24 ∧ fields.minute < 60 ∧ fields.second < 60 ∧ fields.microsecond < 1000000

instance (fields : TimeFields) : Decidable fields.Valid :=
  inferInstanceAs (Decidable (_ ∧ _))

structure LocalTime where
  fields : TimeFields
  valid : fields.Valid
  deriving DecidableEq

structure UtcOffset where
  micros : Int
  inside : -86400000000 < micros ∧ micros < 86400000000
  deriving DecidableEq

/-- A zone object: a fixed `timezone`, or one that asks for the local time and `fold`. -/
inductive TzInfo
  | fixed (offset : UtcOffset)
  | zone (identity : Nat) (utcoffset : LocalTime → Bool → Option UtcOffset)

def TzInfo.utcoffset : TzInfo → LocalTime → Bool → Option UtcOffset
  | .fixed offset, _, _ => some offset
  | .zone _ utcoffset, time, fold => utcoffset time fold

def TzInfo.same : TzInfo → TzInfo → Bool
  | .fixed first, .fixed second => first = second
  | .zone first _, .zone second _ => first = second
  | _, _ => false

structure DateTime where
  time : LocalTime
  fold : Bool := false
  tzinfo : Option TzInfo := none
  nanosecond : Nat := 0

namespace DateTime

def utcoffset (value : DateTime) (fold : Bool) : Option UtcOffset :=
  value.tzinfo.bind fun zone => zone.utcoffset value.time fold

/-- Microseconds since 0001-01-01 of the local time. -/
def local' (time : LocalTime) : Int :=
  let fields := time.fields
  ((((Gregorian.toOrdinal fields.year fields.month fields.day * 24 + fields.hour) * 60 +
    fields.minute) * 60 + fields.second) * 1000000 + fields.microsecond : Nat)

/-- `==`: times of one zone object compare as they are read; an offset that depends on `fold` makes
times of two zone objects unequal. -/
def equal (first second : DateTime) : Bool :=
  let sameZone := match first.tzinfo, second.tzinfo with
    | none, none => true
    | some zone, some other => zone.same other
    | _, _ => false
  if sameZone then first.time = second.time
  else if first.utcoffset first.fold ≠ first.utcoffset (!first.fold) ∨
      second.utcoffset second.fold ≠ second.utcoffset (!second.fold) then false
  else match first.utcoffset first.fold, second.utcoffset second.fold with
    | none, none => first.time = second.time
    | some offset, some other =>
        if offset = other then first.time = second.time
        else local' first.time - offset.micros = local' second.time - other.micros
    | _, _ => false

def microsText (micros : Nat) : Text :=
  if micros = 0 then [] else point '.' :: padded 6 micros

def dateText (fields : TimeFields) : Text :=
  padded 4 fields.year ++ (point '-' :: (padded 2 fields.month ++ (point '-' :: padded 2 fields.day)))

def timeText (fields : TimeFields) : Text :=
  padded 2 fields.hour ++ (point ':' :: (padded 2 fields.minute ++
    (point ':' :: (padded 2 fields.second ++ microsText fields.microsecond))))

def secondsText (size : Nat) : Text :=
  if size % 60000000 = 0 then []
  else point ':' :: (padded 2 (size / 1000000 % 60) ++ microsText (size % 1000000))

def offsetText (micros : Int) : Text :=
  point (if micros < 0 then '-' else '+') :: (padded 2 (micros.natAbs / 3600000000) ++
    (point ':' :: (padded 2 (micros.natAbs / 60000000 % 60) ++ secondsText micros.natAbs)))

def isoformat (value : DateTime) : Text :=
  dateText value.time.fields ++ (point 'T' :: (timeText value.time.fields ++
    ((value.utcoffset value.fold).elim [] fun offset => offsetText offset.micros)))

end DateTime

structure Stamp where
  time : LocalTime
  offset : Option UtcOffset
  deriving DecidableEq

def Stamp.datetime (stamp : Stamp) : DateTime :=
  { time := stamp.time, tzinfo := stamp.offset.map .fixed }

def readFixed (width : Nat) (text : Text) : Option (Nat × Text) :=
  if (text.take width).length = width ∧ (text.take width).all isDigit then
    some (digitsValue (text.take width), text.drop width)
  else none

def readMicros (text : Text) : Option (Nat × Text) :=
  match readMark '.' text with
  | some rest => readFixed 6 rest
  | none => some (0, text)

def readSeconds (text : Text) : Option (Nat × Nat × Text) :=
  match readMark ':' text with
  | some rest => do
      let (seconds, rest) ← readFixed 2 rest
      let (micros, rest) ← readMicros rest
      some (seconds, micros, rest)
  | none => some (0, 0, text)

def readOffset : Text → Option (Option UtcOffset)
  | [] => some none
  | first :: rest => do
      let negative ← if first = point '-' then some true
        else if first = point '+' then some false else none
      let (hours, rest) ← readFixed 2 rest
      let rest ← readMark ':' rest
      let (minutes, rest) ← readFixed 2 rest
      let (seconds, micros, rest) ← readSeconds rest
      let size : Int := ((hours * 60 + minutes) * 60 + seconds) * 1000000 + micros
      let signed := if negative then -size else size
      if inside : rest = [] ∧ minutes < 60 ∧ seconds < 60 ∧
          -86400000000 < signed ∧ signed < 86400000000 then
        some (some ⟨signed, inside.2.2.2⟩)
      else none

def readDate (text : Text) : Option (Nat × Nat × Nat × Text) := do
  let (year, rest) ← readFixed 4 text
  let rest ← readMark '-' rest
  let (month, rest) ← readFixed 2 rest
  let rest ← readMark '-' rest
  let (day, rest) ← readFixed 2 rest
  some (year, month, day, rest)

def readTime (text : Text) : Option (Nat × Nat × Nat × Nat × Text) := do
  let (hour, rest) ← readFixed 2 text
  let rest ← readMark ':' rest
  let (minute, rest) ← readFixed 2 rest
  let rest ← readMark ':' rest
  let (second, rest) ← readFixed 2 rest
  let (microsecond, rest) ← readMicros rest
  some (hour, minute, second, microsecond, rest)

def readIso (text : Text) : Option Stamp := do
  let (year, month, day, rest) ← readDate text
  let rest ← readMark 'T' rest
  let (hour, minute, second, microsecond, rest) ← readTime rest
  let offset ← readOffset rest
  let fields : TimeFields := { year, month, day, hour, minute, second, microsecond }
  if valid : fields.Valid then some { time := ⟨fields, valid⟩, offset } else none

/-- `datetime.fromisoformat`, with what it reads in the other forms of ISO 8601 text. -/
def fromisoformat (otherForms : Text → Option Stamp) (text : Text) : Option DateTime :=
  ((readIso text).or (otherForms text)).map Stamp.datetime

theorem readFixed_padded {width value : Nat} (fits : value < 10 ^ width) (rest : Text) :
    readFixed width (padded width value ++ rest) = some (value, rest) := by
  have size := length_padded width value
  have front : (padded width value ++ rest).take width = padded width value := by
    rw [List.take_append_of_le_length (by omega), List.take_of_length_le (by omega)]
  have back : (padded width value ++ rest).drop width = rest := List.drop_left' size
  rw [readFixed, front, back, if_pos ⟨size, List.all_eq_true.mpr (padded_digits width value)⟩,
    digitsValue_padded, Nat.mod_eq_of_lt fits]

def Ends (text : Text) : Prop :=
  readMark '.' text = none

theorem readMicros_text {micros : Nat} (fits : micros < 1000000) {rest : Text} (ends : Ends rest) :
    readMicros (DateTime.microsText micros ++ rest) = some (micros, rest) := by
  rw [DateTime.microsText]
  split
  · rename_i none
    subst micros
    rw [List.nil_append, readMicros, ends]
  · rw [List.cons_append, readMicros, readMark_cons]
    exact readFixed_padded fits rest

theorem readSeconds_text (size : Nat) :
    readSeconds (DateTime.secondsText size) =
      some (size / 1000000 % 60, size % 1000000, []) := by
  rw [DateTime.secondsText]
  split
  · rename_i none
    have zero : size / 1000000 % 60 = 0 ∧ size % 1000000 = 0 := by omega
    rw [zero.1, zero.2]
    rfl
  · have seconds : size / 1000000 % 60 < 10 ^ 2 := by omega
    have ends : Ends [] := rfl
    have micros := readMicros_text (Nat.mod_lt size (by omega : 1000000 > 0)) ends
    rw [List.append_nil] at micros
    simp [readSeconds, readFixed_padded seconds, micros]

theorem readOffset_text (offset : UtcOffset) :
    readOffset (DateTime.offsetText offset.micros) = some (some offset) := by
  obtain ⟨micros, inside⟩ := offset
  have hours : micros.natAbs / 3600000000 < 10 ^ 2 := by omega
  have minutes : micros.natAbs / 60000000 % 60 < 10 ^ 2 := by omega
  have parts : ((((micros.natAbs / 3600000000 : Nat) : Int) * 60 +
      (micros.natAbs / 60000000 % 60 : Nat)) * 60 + (micros.natAbs / 1000000 % 60 : Nat)) * 1000000 +
      (micros.natAbs % 1000000 : Nat) = micros.natAbs := by
    omega
  have sixty : micros.natAbs / 60000000 % 60 < 60 ∧ micros.natAbs / 1000000 % 60 < 60 :=
    ⟨Nat.mod_lt _ (by omega), Nat.mod_lt _ (by omega)⟩
  rw [DateTime.offsetText, readOffset]
  by_cases below : micros < 0
  · simp only [below, if_true, readFixed_padded hours, readMark_cons, readFixed_padded minutes,
      readSeconds_text, Option.bind_eq_bind, Option.bind_some, parts]
    have size : -(micros.natAbs : Int) = micros := by omega
    rw [dif_pos ⟨trivial, sixty.1, sixty.2, by rwa [size]⟩]
    simp only [size]
  · have plus : point '+' ≠ point '-' := by decide
    simp only [below, if_false, plus, if_true, readFixed_padded hours, readMark_cons,
      readFixed_padded minutes, readSeconds_text, Option.bind_eq_bind, Option.bind_some, parts]
    have size : (micros.natAbs : Int) = micros := by omega
    simp only [Bool.false_eq_true, if_false]
    rw [dif_pos ⟨trivial, sixty.1, sixty.2, by rwa [size]⟩]
    simp only [size]

theorem offset_ends (micros : Int) : Ends (DateTime.offsetText micros) := by
  have marks : point '-' ≠ point '.' ∧ point '+' ≠ point '.' := by decide
  rw [Ends, DateTime.offsetText, readMark]
  split <;> simp [marks.1, marks.2]

theorem daysInMonth_le (year month : Nat) : Gregorian.daysInMonth year month ≤ 31 := by
  unfold Gregorian.daysInMonth
  split
  · split <;> omega
  all_goals omega

theorem readDate_text {fields : TimeFields} (valid : fields.Valid) (rest : Text) :
    readDate (DateTime.dateText fields ++ rest) =
      some (fields.year, fields.month, fields.day, rest) := by
  obtain ⟨years, months, days, _⟩ := valid
  have longest := daysInMonth_le fields.year fields.month
  have year : fields.year < 10 ^ 4 := by omega
  have month : fields.month < 10 ^ 2 := by omega
  have day : fields.day < 10 ^ 2 := by omega
  rw [DateTime.dateText, readDate]
  simp only [List.append_assoc, List.cons_append, readFixed_padded year, readFixed_padded month,
    readFixed_padded day, readMark_cons, Option.bind_eq_bind, Option.bind_some]

theorem readTime_text {fields : TimeFields} (valid : fields.Valid) {rest : Text}
    (ends : Ends rest) : readTime (DateTime.timeText fields ++ rest) =
      some (fields.hour, fields.minute, fields.second, fields.microsecond, rest) := by
  obtain ⟨_, _, _, hours, minutes, seconds, micros⟩ := valid
  have hour : fields.hour < 10 ^ 2 := by omega
  have minute : fields.minute < 10 ^ 2 := by omega
  have second : fields.second < 10 ^ 2 := by omega
  rw [DateTime.timeText, readTime]
  simp only [List.append_assoc, List.cons_append, readFixed_padded hour, readFixed_padded minute,
    readFixed_padded second, readMark_cons, readMicros_text micros ends, Option.bind_eq_bind,
    Option.bind_some]

theorem readIso_isoformat (value : DateTime) :
    readIso value.isoformat = some ⟨value.time, value.utcoffset value.fold⟩ := by
  have offset : ∃ rest, (value.utcoffset value.fold).elim [] (fun offset =>
      DateTime.offsetText offset.micros) = rest ∧ Ends rest ∧
      readOffset rest = some (value.utcoffset value.fold) := by
    cases value.utcoffset value.fold with
    | none => exact ⟨_, rfl, rfl, rfl⟩
    | some offset => exact ⟨_, rfl, offset_ends offset.micros, readOffset_text offset⟩
  obtain ⟨rest, text, ends, reads⟩ := offset
  rw [DateTime.isoformat, text, readIso, readDate_text value.time.valid]
  simp only [Option.bind_eq_bind, Option.bind_some, readMark_cons,
    readTime_text value.time.valid ends, reads]
  exact dif_pos value.time.valid

theorem plain_padded (width value : Nat) : Plain (padded width value) :=
  plain_digits (padded_digits width value)

theorem plain_mark {text : Text} (rest : Plain text) {mark : Char}
    (printed : 32 < (point mark).val ∧ (point mark).val < 128 ∧ point mark ≠ point '_') :
    Plain (point mark :: text) :=
  Plain.cons printed rest

theorem plain_micros (micros : Nat) : Plain (DateTime.microsText micros) := by
  rw [DateTime.microsText]
  split
  · exact plain_nil
  · exact plain_mark (plain_padded 6 micros) (by decide)

theorem plain_offset (micros : Int) : Plain (DateTime.offsetText micros) := by
  have seconds : Plain (DateTime.secondsText micros.natAbs) := by
    rw [DateTime.secondsText]
    split
    · exact plain_nil
    · exact plain_mark ((plain_padded 2 _).append (plain_micros _)) (by decide)
  rw [DateTime.offsetText]
  refine Plain.cons ?_ ((plain_padded 2 _).append
    (plain_mark ((plain_padded 2 _).append seconds) (by decide)))
  split <;> decide

theorem plain_isoformat (value : DateTime) : Plain value.isoformat := by
  have date : Plain (DateTime.dateText value.time.fields) :=
    (plain_padded 4 _).append (plain_mark ((plain_padded 2 _).append
      (plain_mark (plain_padded 2 _) (by decide))) (by decide))
  have time : Plain (DateTime.timeText value.time.fields) :=
    (plain_padded 2 _).append (plain_mark ((plain_padded 2 _).append
      (plain_mark ((plain_padded 2 _).append (plain_micros _)) (by decide))) (by decide))
  have offset : Plain ((value.utcoffset value.fold).elim [] fun offset =>
      DateTime.offsetText offset.micros) := by
    cases value.utcoffset value.fold with
    | none => exact plain_nil
    | some offset => exact plain_offset offset.micros
  exact date.append (plain_mark (time.append offset) (by decide))

theorem Stamp.utcoffset_datetime (stamp : Stamp) (fold : Bool) :
    stamp.datetime.utcoffset fold = stamp.offset := by
  obtain ⟨time, offset⟩ := stamp
  cases offset <;> rfl

theorem isoformat_stamp (value : DateTime) :
    (Stamp.datetime ⟨value.time, value.utcoffset value.fold⟩).isoformat = value.isoformat := by
  rw [DateTime.isoformat, Stamp.utcoffset_datetime]
  rfl

theorem equal_stamp (value : DateTime) :
    (Stamp.datetime ⟨value.time, value.utcoffset value.fold⟩).equal value =
      decide (value.utcoffset value.fold = value.utcoffset (!value.fold)) := by
  cases zone : value.tzinfo with
  | none => simp [DateTime.equal, Stamp.datetime, DateTime.utcoffset, zone]
  | some zone' =>
      cases zone' with
      | fixed offset =>
          simp [DateTime.equal, Stamp.datetime, DateTime.utcoffset, zone, TzInfo.utcoffset, TzInfo.same]
      | zone identity utcoffset =>
          cases offset : value.utcoffset value.fold with
          | none =>
              have alone : ∀ fold, ({ time := value.time } : DateTime).utcoffset fold = none :=
                fun _ => rfl
              simp [DateTime.equal, alone, offset, Stamp.datetime, zone]
          | some known =>
              have fixed : ∀ fold, ({ time := value.time, tzinfo := some (.fixed known) } :
                  DateTime).utcoffset fold = some known := fun _ => rfl
              simp [DateTime.equal, fixed, offset, Stamp.datetime, zone, TzInfo.same]

end Scripting

end EtlCraft
