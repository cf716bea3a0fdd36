import EtlCraft.SerializationRoundTrip

/-! What a document is read as is a value of the hint, and is read as an equal value again once it is
written. -/

namespace EtlCraft

namespace Serialization

variable {Day Moment : Type}

/-- Dates, instants and paths that were read are written as texts that read the same. -/
structure Texts.Lawful (texts : Texts Day Moment) : Prop where
  day : ∀ {text day}, texts.readDay text = some day → texts.readDay (texts.dayText day) = some day
  moment : ∀ {text moment}, texts.readMoment text = some moment →
    texts.readMoment (texts.momentText moment) = some moment
  path : ∀ text, texts.pathText (texts.pathText text) = texts.pathText text

/-- A hint whose values can be told from their documents: a union is of one type and `None`, or of
dataclasses with schemas of their own, and a default is a value of its field. -/
inductive Readable (texts : Texts Day Moment) : Hint Day Moment → Prop
  | any : Readable texts .any
  | none : Readable texts .none
  | bool : Readable texts .bool
  | int : Readable texts .int
  | float : Readable texts .float
  | text : Readable texts .text
  | day : Readable texts .day
  | moment : Readable texts .moment
  | path : Readable texts .path
  | enumeration (name : String) (values : List String) : Readable texts (.enumeration name values)
  | literal (values : List String) : Readable texts (.literal values)
  | tuple {item : Hint Day Moment} (readable : Readable texts item) : Readable texts (.tuple item)
  | list {item : Hint Day Moment} (readable : Readable texts item) : Readable texts (.list item)
  | mapping {item : Hint Day Moment} (readable : Readable texts item) :
      Readable texts (.mapping item)
  | optional {options : List (Hint Day Moment)} {option : Hint Day Moment}
      (member : option ∈ options) (optional : .none ∈ options)
      (only : ∀ other ∈ options, other = option ∨ other = .none)
      (flat : ∀ nested, option ≠ .union nested) (readable : Readable texts option) :
      Readable texts (.union options)
  | named {options : List (Hint Day Moment)}
      (each : ∀ option ∈ options, option = .none ∨ ∃ name schema fields accepts,
        option = .data name (some schema) fields accepts)
      (apart : ∀ option ∈ options, ∀ other ∈ options, option.schema.isSome = true →
        other.schema = option.schema → other = option)
      (readable : ∀ option ∈ options, Readable texts option) : Readable texts (.union options)
  | data {name : String} {schema : Option String} {fields : List (Field Day Moment)}
      {accepts : List (String × Value Day Moment) → Bool}
      (distinct : (fields.map Field.name).Nodup)
      (unnamed : schema.isSome = true → "schema" ∉ fields.map Field.name)
      (defaults : ∀ field ∈ fields, ∀ value, field.fallback = some value →
        Fits texts field.hint value)
      (steady : ∀ values others, accepts values = true →
        Same (.data name schema values) (.data name schema others) → accepts others = true)
      (readable : ∀ field ∈ fields, Readable texts field.hint) :
      Readable texts (.data name schema fields accepts)

variable {texts : Texts Day Moment} {hint : Hint Day Moment} {value : Value Day Moment}
  {json : Json} {place : String}

theorem expect_ok {Found : Type} {found : Option Found} {value : Found}
    (done : expect place found = .ok value) : found = some value := by
  cases found with
  | none => cases done
  | some other => exact congrArg some (Except.ok.inj done)

theorem oneOf_ok {values : List String} {name : String}
    (done : oneOf place values json = .ok name) : name ∈ values := by
  cases json with
  | text value =>
      rw [oneOf] at done
      split at done
      · rename_i known
        exact Except.ok.inj done ▸ known
      · cases done
  | _ => cases done

theorem encodeItems_each {items : List (Value Day Moment)} {parts : List Json}
    (written : encodeItems texts items = .ok parts) :
    ∀ item ∈ items, ∃ part, encode texts item = .ok part := by
  induction items generalizing parts with
  | nil => exact nofun
  | cons first items ih =>
      rw [encodeItems] at written
      obtain ⟨part, firstWritten, rest⟩ := Results.bind_ok.mp written
      obtain ⟨later, restWritten, _⟩ := map_ok rest
      intro item member
      rcases List.mem_cons.mp member with rfl | inRest
      · exact ⟨part, firstWritten⟩
      · exact ih restWritten item inRest

theorem encodeEntries_each {entries : List (String × Value Day Moment)}
    {parts : List (String × Json)} (written : encodeEntries texts entries = .ok parts) :
    ∀ entry ∈ entries, ∃ part, encode texts entry.2 = .ok part := by
  induction entries generalizing parts with
  | nil => exact nofun
  | cons first entries ih =>
      rw [encodeEntries] at written
      obtain ⟨part, firstWritten, rest⟩ := Results.bind_ok.mp written
      obtain ⟨later, restWritten, _⟩ := map_ok rest
      intro entry member
      rcases List.mem_cons.mp member with rfl | inRest
      · exact ⟨part, firstWritten⟩
      · exact ih restWritten entry inRest

theorem decodeFirst_sound {tried : Hint Day Moment → Bool} {options : List (Hint Day Moment)}
    (decoded : decodeFirst texts tried options json place = .ok value) :
    ∃ option ∈ options, decode texts option json place = .ok value := by
  induction options with
  | nil => cases decoded
  | cons option options ih =>
      rw [decodeFirst] at decoded
      split at decoded
      · split at decoded
        · rename_i found reply
          cases decoded
          exact ⟨option, List.mem_cons_self, reply⟩
        · obtain ⟨other, member, both⟩ := ih decoded
          exact ⟨other, List.mem_cons_of_mem _ member, both⟩
        · cases decoded
      · obtain ⟨other, member, both⟩ := ih decoded
        exact ⟨other, List.mem_cons_of_mem _ member, both⟩

theorem decodeFields_sound {fields : List (Field Day Moment)} {given : List (String × Json)}
    {values : List (String × Value Day Moment)}
    (decoded : decodeFields texts fields given place = .ok values) :
    values.map Prod.fst = fields.map Field.name ∧ ∀ pair ∈ fields.zip values,
      (∃ json here, decode texts pair.1.hint json here = .ok pair.2.2) ∨
        pair.1.fallback = some pair.2.2 := by
  induction fields generalizing values with
  | nil =>
      rw [decodeFields] at decoded
      cases decoded
      exact ⟨rfl, by simp⟩
  | cons field fields ih =>
      obtain ⟨name, hint, fallback⟩ := field
      rw [decodeFields] at decoded
      obtain ⟨first, read, rest⟩ := Results.bind_ok.mp decoded
      obtain ⟨later, restRead, rfl⟩ := map_ok rest
      obtain ⟨names, each⟩ := ih restRead
      refine ⟨congrArg (name :: ·) names, fun pair member => ?_⟩
      rcases List.mem_cons.mp member with rfl | inRest
      · split at read
        · exact .inl ⟨_, _, read⟩
        · exact .inr (expect_ok read)
      · exact each pair inRest

theorem read_item {Part Found : Type} {read : Part → Except Problem Found} {parts : List Part}
    {founds : List Found} (all : parts.mapM read = .ok founds) {found : Found}
    (member : found ∈ founds) : ∃ part ∈ parts, read part = .ok found := by
  have pairs := Results.forall₂_of_mapM all
  obtain ⟨part, included⟩ := exists_zip pairs.length_eq member
  exact ⟨part, (List.of_mem_zip included).1, (List.forall₂_iff_zip.mp pairs).2 included⟩

theorem isNone_iff : hint.isNone = true ↔ hint = .none := by
  cases hint <;> simp [Hint.isNone]

theorem floatOf_ok {read : Option Binary64.Number}
    (done : floatOf read = .ok value) : ∃ number, value = .float number := by
  cases read with
  | none => cases done
  | some number => exact ⟨number, (Except.ok.inj done).symm⟩

theorem decode_float (decoded : decode texts .float json place = .ok value) :
    ∃ number, value = .float number := by
  cases json with
  | float number => exact ⟨number, (Except.ok.inj decoded).symm⟩
  | int number => exact @floatOf_ok _ _ _ (Binary64.ofInt number) decoded
  | _ => cases decoded

theorem decode_none (flat : ∀ nested, hint ≠ .union nested)
    (decoded : decode texts hint json place = .ok .none) : json.isNull = true := by
  cases hint with
  | union options => exact absurd rfl (flat options)
  | any | none | bool | int | text | path =>
      cases json with
      | null => rfl
      | _ => cases decoded
  | float =>
      obtain ⟨_, same⟩ := decode_float decoded
      cases same
  | day | moment | enumeration | literal =>
      obtain ⟨_, _, same⟩ := map_ok decoded
      cases same
  | tuple item | list item | mapping item =>
      rw [decode] at decoded
      obtain ⟨_, _, rest⟩ := Results.bind_ok.mp decoded
      obtain ⟨_, _, same⟩ := map_ok rest
      cases same
  | data name schema fields accepts =>
      rw [decode] at decoded
      obtain ⟨_, _, rest⟩ := Results.bind_ok.mp decoded
      split at rest
      · obtain ⟨_, _, last⟩ := Results.bind_ok.mp rest
        split at last <;> cases last
      · cases rest

theorem decode_fits (lawful : texts.Lawful) (readable : Readable texts hint)
    (decoded : decode texts hint json place = .ok value)
    (written : ∃ again, encode texts value = .ok again) : Fits texts hint value := by
  induction readable generalizing json place value with
  | any =>
      obtain rfl : json.value = value := Except.ok.inj decoded
      obtain ⟨again, written⟩ := written
      rw [encode_value] at written
      split at written
      · rename_i finite
        exact .any finite
      · cases written
  | none =>
      cases json with
      | null =>
          cases decoded
          exact .none
      | _ => cases decoded
  | bool =>
      cases json with
      | bool value =>
          cases decoded
          exact .bool value
      | _ => cases decoded
  | int =>
      cases json with
      | int value =>
          cases decoded
          exact .int value
      | bool value =>
          cases decoded
          exact .truth value
      | _ => cases decoded
  | float =>
      obtain ⟨number, rfl⟩ := decode_float decoded
      obtain ⟨again, written⟩ := written
      rw [encode] at written
      split at written
      · rename_i finite
        exact .float finite
      · cases written
  | text =>
      cases json with
      | text value =>
          cases decoded
          exact .text value
      | _ => cases decoded
  | day =>
      obtain ⟨day, read, rfl⟩ := map_ok decoded
      exact .day (lawful.day (expect_ok read))
  | moment =>
      obtain ⟨moment, read, rfl⟩ := map_ok decoded
      exact .moment (lawful.moment (expect_ok read))
  | path =>
      cases json with
      | text value =>
          cases decoded
          exact .path (lawful.path value)
      | _ => cases decoded
  | enumeration name values =>
      obtain ⟨value, read, rfl⟩ := map_ok decoded
      exact .member (oneOf_ok read)
  | literal values =>
      obtain ⟨value, read, rfl⟩ := map_ok decoded
      exact .literal (oneOf_ok read)
  | tuple _ ih =>
      rw [decode] at decoded
      obtain ⟨parts, _, rest⟩ := Results.bind_ok.mp decoded
      obtain ⟨items, read, rfl⟩ := map_ok rest
      obtain ⟨again, written⟩ := written
      rw [encode] at written
      obtain ⟨_, written, _⟩ := map_ok written
      refine .tuple fun item member => ?_
      obtain ⟨part, _, found⟩ := read_item read member
      exact ih found (encodeItems_each written item member)
  | list _ ih =>
      rw [decode] at decoded
      obtain ⟨parts, _, rest⟩ := Results.bind_ok.mp decoded
      obtain ⟨items, read, rfl⟩ := map_ok rest
      obtain ⟨again, written⟩ := written
      rw [encode] at written
      obtain ⟨_, written, _⟩ := map_ok written
      refine .list fun item member => ?_
      obtain ⟨part, _, found⟩ := read_item read member
      exact ih found (encodeItems_each written item member)
  | mapping _ ih =>
      rw [decode] at decoded
      obtain ⟨parts, _, rest⟩ := Results.bind_ok.mp decoded
      obtain ⟨entries, read, rfl⟩ := map_ok rest
      obtain ⟨again, written⟩ := written
      rw [encode] at written
      obtain ⟨_, written, _⟩ := map_ok written
      refine .mapping fun entry member => ?_
      obtain ⟨part, _, found⟩ := read_item read member
      obtain ⟨value, valueFound, rfl⟩ := map_ok found
      exact ih valueFound (encodeEntries_each written _ member)
  | @optional options option member optional only flat _ ih =>
      rw [decode] at decoded
      split at decoded
      · cases decoded
        exact .absent optional
      · rename_i full
        have notNull : json.isNull = false := by
          by_contra null
          refine full (Bool.and_eq_true_iff.mpr ⟨by simpa using null, ?_⟩)
          exact List.any_eq_true.mpr ⟨_, optional, rfl⟩
        obtain ⟨other, included, read⟩ := decodeFirst_sound decoded
        have isOption : other = option := by
          rcases only other included with same | rfl
          · exact same
          · cases json with
            | null => cases notNull
            | _ => cases read
        subst isOption
        refine .optional included only (fun empty => ?_) (ih read written)
        rw [empty] at read
        rw [decode_none flat read] at notNull
        cases notNull
  | @named options each apart _ ih =>
      rw [decode] at decoded
      split at decoded
      · rename_i empty
        cases decoded
        obtain ⟨other, included, isNone⟩ :=
          List.any_eq_true.mp (Bool.and_eq_true_iff.mp empty).2
        exact .absent (isNone_iff.mp isNone ▸ included)
      · rename_i full
        obtain ⟨option, included, read⟩ := decodeFirst_sound decoded
        have fits := ih option included read written
        rcases each option included with rfl | ⟨name, schema, fields, accepts, rfl⟩
        · cases fits
          exact .absent included
        · exact .named included (fun other member same => apart _ included other member rfl same)
            fits
  | @data name schema fields accepts distinct unnamed defaults steady _ ih =>
      rw [decode] at decoded
      obtain ⟨given, _, rest⟩ := Results.bind_ok.mp decoded
      split at rest
      · obtain ⟨values, read, last⟩ := Results.bind_ok.mp rest
        split at last
        · rename_i accepted
          cases last
          obtain ⟨again, written⟩ := written
          rw [encode] at written
          obtain ⟨_, written, _⟩ := map_ok written
          obtain ⟨names, each⟩ := decodeFields_sound read
          refine .data distinct unnamed names (fun others => steady values others accepted)
            fun pair member => ?_
          obtain ⟨inFields, inValues⟩ := List.of_mem_zip member
          rcases each pair member with ⟨_, _, found⟩ | default
          · exact ih pair.1 inFields found (encodeEntries_each written pair.2 inValues)
          · exact defaults pair.1 inFields pair.2.2 default
        · cases last
      · cases rest

/-- Without the fields at their defaults, and with one that is not known here. -/
def shortRun : Json :=
  .object [("added", .bool true), ("schema", .text "etl-craft/run/1"), ("pipeline_run_id", .int 7)]

def fullRun : Json :=
  .object [("schema", .text "etl-craft/run/1"), ("pipeline_run_id", .int 7),
    ("run_label", .text ""), ("child_run_ids", .list []), ("task_counts", .object [])]

def shortRunValue : Value Empty Empty :=
  .data "RunView" (some "etl-craft/run/1")
    [("pipeline_run_id", .int 7), ("run_label", .text ""), ("child_run_ids", .tuple []),
      ("task_counts", .mapping [])]

theorem noTexts_lawful : noTexts.Lawful := ⟨nofun, nofun, fun _ => rfl⟩

theorem runs_readable : Readable noTexts (.union [attemptHint, runHint, .none]) := by
  refine .named (fun option member => ?_) (fun option member other included named same => ?_)
    fun option member => ?_
  · fin_cases member
    · exact .inr ⟨_, _, _, _, rfl⟩
    · exact .inr ⟨_, _, _, _, rfl⟩
    · exact .inl rfl
  · fin_cases member <;> fin_cases included <;>
      first | rfl | exact absurd same (by decide)
  · fin_cases member
    · refine .data (by decide) (fun _ => by decide) ?_ (fun _ _ _ _ => rfl) ?_
      · intro field member value default
        fin_cases member
        cases default
      · intro field member
        fin_cases member
        exact .int
    · refine .data (by decide) (fun _ => by decide) ?_ (fun _ _ _ _ => rfl) ?_
      · intro field member value default
        fin_cases member <;> cases default
        · exact .text ""
        · exact .tuple nofun
        · exact .mapping nofun
      · intro field member
        fin_cases member
        · exact .int
        · exact .text
        · exact .tuple .int
        · exact .mapping .int
    · exact .none

end Serialization

end EtlCraft
