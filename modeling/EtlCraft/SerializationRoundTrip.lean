import EtlCraft.Serialization

/-! Every document of a value decodes to an equal value, whatever it leaves at a default, whatever it
adds and in whatever order its keys stand, and encoding writes one of them. -/

namespace EtlCraft

namespace Serialization

variable {Day Moment : Type}

def Field.name : Field Day Moment → String
  | .mk name _ _ => name

def Field.hint : Field Day Moment → Hint Day Moment
  | .mk _ hint _ => hint

def Field.fallback : Field Day Moment → Option (Value Day Moment)
  | .mk _ _ fallback => fallback

/-- Equal values: the keys of a mapping compare in any order. -/
inductive Same : Value Day Moment → Value Day Moment → Prop
  | refl (value : Value Day Moment) : Same value value
  | tuple {items others : List (Value Day Moment)} (length : items.length = others.length)
      (each : ∀ pair ∈ items.zip others, Same pair.1 pair.2) : Same (.tuple items) (.tuple others)
  | list {items others : List (Value Day Moment)} (length : items.length = others.length)
      (each : ∀ pair ∈ items.zip others, Same pair.1 pair.2) : Same (.list items) (.list others)
  | mapping {entries ordered others : List (String × Value Day Moment)}
      (order : entries.Perm ordered) (keys : ordered.map Prod.fst = others.map Prod.fst)
      (each : ∀ pair ∈ ordered.zip others, Same pair.1.2 pair.2.2) :
      Same (.mapping entries) (.mapping others)
  | data {name : String} {schema : Option String} {values others : List (String × Value Day Moment)}
      (names : values.map Prod.fst = others.map Prod.fst)
      (each : ∀ pair ∈ values.zip others, Same pair.1.2 pair.2.2) :
      Same (.data name schema values) (.data name schema others)

mutual

def Json.finite : Json → Bool
  | .float value => value.isFinite
  | .list items => finiteItems items
  | .object entries => finiteEntries entries
  | _ => true

def Json.finiteItems : List Json → Bool
  | [] => true
  | item :: items => item.finite && finiteItems items

def Json.finiteEntries : List (String × Json) → Bool
  | [] => true
  | (_, value) :: entries => value.finite && finiteEntries entries

end

inductive Fits (texts : Texts Day Moment) : Hint Day Moment → Value Day Moment → Prop
  | any {json : Json} (finite : json.finite = true) : Fits texts .any json.value
  | none : Fits texts .none .none
  | bool (value : Bool) : Fits texts .bool (.bool value)
  | int (value : Int) : Fits texts .int (.int value)
  | truth (value : Bool) : Fits texts .int (.bool value)
  | float {value : Binary64.Number} (finite : value.isFinite = true) :
      Fits texts .float (.float value)
  | text (value : String) : Fits texts .text (.text value)
  | day {value : Day} (reads : texts.readDay (texts.dayText value) = some value) :
      Fits texts .day (.day value)
  | moment {value : Moment} (reads : texts.readMoment (texts.momentText value) = some value) :
      Fits texts .moment (.moment value)
  | path {value : String} (kept : texts.pathText value = value) : Fits texts .path (.path value)
  | member {name value : String} {values : List String} (known : value ∈ values) :
      Fits texts (.enumeration name values) (.member name value)
  | literal {value : String} {values : List String} (known : value ∈ values) :
      Fits texts (.literal values) (.text value)
  | tuple {item : Hint Day Moment} {items : List (Value Day Moment)}
      (each : ∀ value ∈ items, Fits texts item value) : Fits texts (.tuple item) (.tuple items)
  | list {item : Hint Day Moment} {items : List (Value Day Moment)}
      (each : ∀ value ∈ items, Fits texts item value) : Fits texts (.list item) (.list items)
  | mapping {item : Hint Day Moment} {entries : List (String × Value Day Moment)}
      (each : ∀ entry ∈ entries, Fits texts item entry.2) :
      Fits texts (.mapping item) (.mapping entries)
  | absent {options : List (Hint Day Moment)} (optional : .none ∈ options) :
      Fits texts (.union options) .none
  | optional {options : List (Hint Day Moment)} {option : Hint Day Moment}
      {value : Value Day Moment} (member : option ∈ options)
      (only : ∀ other ∈ options, other = option ∨ other = .none) (some_ : value ≠ .none)
      (fits : Fits texts option value) : Fits texts (.union options) value
  | named {options : List (Hint Day Moment)} {name schema : String}
      {fields : List (Field Day Moment)} {accepts : List (String × Value Day Moment) → Bool}
      {value : Value Day Moment} (member : .data name (some schema) fields accepts ∈ options)
      (only : ∀ other ∈ options, other.schema = some schema →
        other = .data name (some schema) fields accepts)
      (fits : Fits texts (.data name (some schema) fields accepts) value) :
      Fits texts (.union options) value
  | data {name : String} {schema : Option String} {fields : List (Field Day Moment)}
      {accepts : List (String × Value Day Moment) → Bool}
      {values : List (String × Value Day Moment)} (distinct : (fields.map Field.name).Nodup)
      (unnamed : schema.isSome = true → "schema" ∉ fields.map Field.name)
      (names : values.map Prod.fst = fields.map Field.name)
      (accepted : ∀ others, Same (.data name schema values) (.data name schema others) →
        accepts others = true)
      (each : ∀ pair ∈ fields.zip values, Fits texts pair.1.hint pair.2.2) :
      Fits texts (.data name schema fields accepts) (.data name schema values)

/-- A document of a value: the keys of its objects stand in any order, those of a dataclass among
others, and a field at its default may be missing. -/
inductive Document (texts : Texts Day Moment) :
    Hint Day Moment → Value Day Moment → Json → Prop
  | any {value : Value Day Moment} {json : Json} (same : Same value json.value) :
      Document texts .any value json
  | none : Document texts .none .none .null
  | bool (value : Bool) : Document texts .bool (.bool value) (.bool value)
  | int (value : Int) : Document texts .int (.int value) (.int value)
  | truth (value : Bool) : Document texts .int (.bool value) (.bool value)
  | float (value : Binary64.Number) : Document texts .float (.float value) (.float value)
  | text (value : String) : Document texts .text (.text value) (.text value)
  | day {value : Day} (reads : texts.readDay (texts.dayText value) = some value) :
      Document texts .day (.day value) (.text (texts.dayText value))
  | moment {value : Moment} (reads : texts.readMoment (texts.momentText value) = some value) :
      Document texts .moment (.moment value) (.text (texts.momentText value))
  | path {value : String} (kept : texts.pathText value = value) :
      Document texts .path (.path value) (.text value)
  | member {name value : String} {values : List String} (known : value ∈ values) :
      Document texts (.enumeration name values) (.member name value) (.text value)
  | literal {value : String} {values : List String} (known : value ∈ values) :
      Document texts (.literal values) (.text value) (.text value)
  | tuple {item : Hint Day Moment} {items : List (Value Day Moment)} {parts : List Json}
      (length : items.length = parts.length)
      (each : ∀ pair ∈ items.zip parts, Document texts item pair.1 pair.2) :
      Document texts (.tuple item) (.tuple items) (.list parts)
  | list {item : Hint Day Moment} {items : List (Value Day Moment)} {parts : List Json}
      (length : items.length = parts.length)
      (each : ∀ pair ∈ items.zip parts, Document texts item pair.1 pair.2) :
      Document texts (.list item) (.list items) (.list parts)
  | mapping {item : Hint Day Moment} {entries ordered : List (String × Value Day Moment)}
      {parts : List (String × Json)} (order : entries.Perm ordered)
      (keys : ordered.map Prod.fst = parts.map Prod.fst)
      (each : ∀ pair ∈ ordered.zip parts, Document texts item pair.1.2 pair.2.2) :
      Document texts (.mapping item) (.mapping entries) (.object parts)
  | absent {options : List (Hint Day Moment)} (optional : .none ∈ options) :
      Document texts (.union options) .none .null
  | optional {options : List (Hint Day Moment)} {option : Hint Day Moment}
      {value : Value Day Moment} {json : Json} (member : option ∈ options)
      (only : ∀ other ∈ options, other = option ∨ other = .none) (some_ : json.isNull = false)
      (document : Document texts option value json) : Document texts (.union options) value json
  | named {options : List (Hint Day Moment)} {name schema : String}
      {fields : List (Field Day Moment)} {accepts : List (String × Value Day Moment) → Bool}
      {value : Value Day Moment} {json : Json}
      (member : .data name (some schema) fields accepts ∈ options)
      (only : ∀ other ∈ options, other.schema = some schema →
        other = .data name (some schema) fields accepts)
      (names : json.schema = some (.text schema))
      (document : Document texts (.data name (some schema) fields accepts) value json) :
      Document texts (.union options) value json
  | data {name : String} {schema : Option String} {fields : List (Field Day Moment)}
      {accepts : List (String × Value Day Moment) → Bool}
      {values : List (String × Value Day Moment)} {given : List (String × Json)}
      (names : values.map Prod.fst = fields.map Field.name)
      (accepted : ∀ others, Same (.data name schema values) (.data name schema others) →
        accepts others = true)
      (sameSchema : schemaFits schema given = true)
      (each : ∀ pair ∈ fields.zip values, ∀ json, given.lookup pair.1.name = some json →
        Document texts pair.1.hint pair.2.2 json)
      (fallback : ∀ pair ∈ fields.zip values, given.lookup pair.1.name = none →
        pair.1.fallback = some pair.2.2) :
      Document texts (.data name schema fields accepts) (.data name schema values) (.object given)

section Decode

variable {texts : Texts Day Moment} {hint item : Hint Day Moment} {value : Value Day Moment}
  {json : Json} {place : String}

theorem decode_items {items : List (Value Day Moment)} {parts : List Json}
    (length : items.length = parts.length)
    (each : ∀ pair ∈ items.zip parts, ∀ place, ∃ found,
      decode texts item pair.2 place = .ok found ∧ Same pair.1 found) (start : Nat) :
    ∃ founds, (parts.zipIdx start).mapM (fun part =>
        decode texts item part.1 (place ++ "[" ++ toString part.2 ++ "]")) = .ok founds ∧
      items.length = founds.length ∧ ∀ pair ∈ items.zip founds, Same pair.1 pair.2 := by
  induction parts generalizing items start with
  | nil =>
      rw [List.eq_nil_of_length_eq_zero length]
      exact ⟨[], rfl, rfl, nofun⟩
  | cons part parts ih =>
      cases items with
      | nil => cases length
      | cons value items =>
          obtain ⟨found, first, same⟩ := each (value, part) List.mem_cons_self
            (place ++ "[" ++ toString start ++ "]")
          obtain ⟨founds, later, lengths, others⟩ := ih (Nat.succ.inj length)
            (fun pair member => each pair (List.mem_cons_of_mem _ member)) (start + 1)
          refine ⟨found :: founds, ?_, congrArg Nat.succ lengths, fun pair member => ?_⟩
          · rw [List.zipIdx_cons, List.mapM_cons, first, later]
            rfl
          · rcases List.mem_cons.mp member with rfl | rest
            · exact same
            · exact others pair rest

theorem decode_entries {entries : List (String × Value Day Moment)}
    {parts : List (String × Json)} (keys : entries.map Prod.fst = parts.map Prod.fst)
    (each : ∀ pair ∈ entries.zip parts, ∀ place, ∃ found,
      decode texts item pair.2.2 place = .ok found ∧ Same pair.1.2 found) :
    ∃ founds, parts.mapM (fun entry =>
        (decode texts item entry.2 (place ++ "." ++ entry.1)).map (entry.1, ·)) = .ok founds ∧
      entries.map Prod.fst = founds.map Prod.fst ∧
      ∀ pair ∈ entries.zip founds, Same pair.1.2 pair.2.2 := by
  induction parts generalizing entries with
  | nil =>
      rw [List.map_eq_nil_iff.mp keys]
      exact ⟨[], rfl, rfl, nofun⟩
  | cons part parts ih =>
      cases entries with
      | nil => cases keys
      | cons entry entries =>
          rw [List.map_cons, List.map_cons, List.cons.injEq] at keys
          obtain ⟨found, first, same⟩ := each (entry, part) List.mem_cons_self
            (place ++ "." ++ part.1)
          obtain ⟨founds, later, names, others⟩ :=
            ih keys.2 fun pair member => each pair (List.mem_cons_of_mem _ member)
          refine ⟨(part.1, found) :: founds, ?_, ?_, fun pair member => ?_⟩
          · rw [List.mapM_cons, first, later]
            rfl
          · rw [List.map_cons, List.map_cons, names, keys.1]
          · rcases List.mem_cons.mp member with rfl | rest
            · exact same
            · exact others pair rest

theorem decodeFirst_ok {tried : Hint Day Moment → Bool} {options : List (Hint Day Moment)}
    (some_ : ∃ option ∈ options, tried option = true)
    (all : ∀ option ∈ options, tried option = true → decode texts option json place = .ok value) :
    decodeFirst texts tried options json place = .ok value := by
  induction options with
  | nil =>
      obtain ⟨_, member, _⟩ := some_
      cases member
  | cons option options ih =>
      rw [decodeFirst]
      by_cases isTried : tried option = true
      · rw [if_pos isTried, all option List.mem_cons_self isTried]
      · rw [if_neg isTried]
        refine ih ?_ fun other member => all other (List.mem_cons_of_mem _ member)
        obtain ⟨other, member, triedOther⟩ := some_
        rcases List.mem_cons.mp member with rfl | later
        · exact absurd triedOther isTried
        · exact ⟨other, later, triedOther⟩

theorem decodeFields_ok {fields : List (Field Day Moment)}
    {values : List (String × Value Day Moment)} {given : List (String × Json)}
    (names : values.map Prod.fst = fields.map Field.name)
    (each : ∀ pair ∈ fields.zip values, ∀ json, given.lookup pair.1.name = some json →
      ∀ place, ∃ found, decode texts pair.1.hint json place = .ok found ∧ Same pair.2.2 found)
    (fallback : ∀ pair ∈ fields.zip values, given.lookup pair.1.name = none →
      pair.1.fallback = some pair.2.2) (place : String) :
    ∃ founds, decodeFields texts fields given place = .ok founds ∧
      values.map Prod.fst = founds.map Prod.fst ∧
      ∀ pair ∈ values.zip founds, Same pair.1.2 pair.2.2 := by
  induction fields generalizing values with
  | nil =>
      rw [List.map_eq_nil_iff.mp names, decodeFields]
      exact ⟨[], rfl, rfl, by simp⟩
  | cons field fields ih =>
      cases values with
      | nil => cases names
      | cons entry values =>
          obtain ⟨name, hint, default⟩ := field
          rw [List.map_cons, List.map_cons, List.cons.injEq] at names
          obtain ⟨founds, later, keys, others⟩ := ih names.2
            (fun pair member => each pair (List.mem_cons_of_mem _ member))
            fun pair member => fallback pair (List.mem_cons_of_mem _ member)
          have first : ∃ found, decodeFields texts (.mk name hint default :: fields) given place =
              .ok ((name, found) :: founds) ∧ Same entry.2 found := by
            rw [decodeFields, later]
            cases looked : given.lookup name with
            | some json =>
                obtain ⟨found, read, same⟩ :
                    ∃ found, decode texts hint json (place ++ "." ++ name) = .ok found ∧
                      Same entry.2 found :=
                  each (⟨name, hint, default⟩, entry) List.mem_cons_self json looked _
                dsimp only
                exact ⟨found, by rw [read]; rfl, same⟩
            | none =>
                obtain rfl : default = some entry.2 :=
                  fallback (⟨name, hint, default⟩, entry) List.mem_cons_self looked
                exact ⟨entry.2, rfl, .refl _⟩
          obtain ⟨found, read, same⟩ := first
          refine ⟨(name, found) :: founds, read, ?_, fun pair member => ?_⟩
          · rw [List.map_cons, List.map_cons, keys, names.1]
            rfl
          · rcases List.mem_cons.mp member with rfl | rest
            · exact same
            · exact others pair rest

theorem Document.isNone (document : Document texts hint value json) (none_ : hint.isNone = true) :
    json.isNull = true := by
  cases document <;> first | rfl | cases none_

theorem named_iff {option : Hint Day Moment} {schema : String}
    (names : json.schema = some (.text schema)) :
    option.named json = true ↔ option.schema = some schema := by
  rw [Hint.named, names]
  cases option.schema with
  | none => simp
  | some other => simp [eq_comm]

theorem decode_document (document : Document texts hint value json) (place : String) :
    ∃ found, decode texts hint json place = .ok found ∧ Same value found := by
  induction document generalizing place with
  | any same => exact ⟨_, rfl, same⟩
  | none => exact ⟨_, rfl, .refl _⟩
  | bool value => exact ⟨_, rfl, .refl _⟩
  | int value => exact ⟨_, rfl, .refl _⟩
  | truth value => exact ⟨_, rfl, .refl _⟩
  | float value => exact ⟨_, rfl, .refl _⟩
  | text value => exact ⟨_, rfl, .refl _⟩
  | day reads =>
      refine ⟨_, ?_, .refl _⟩
      show (expect place (texts.readDay (texts.dayText _))).map _ = _
      rw [reads]
      rfl
  | moment reads =>
      refine ⟨_, ?_, .refl _⟩
      show (expect place (texts.readMoment (texts.momentText _))).map _ = _
      rw [reads]
      rfl
  | path kept => exact ⟨_, congrArg (fun text => Except.ok (Value.path text)) kept, .refl _⟩
  | member known =>
      refine ⟨_, ?_, .refl _⟩
      show (oneOf place _ (.text _)).map _ = _
      rw [oneOf, if_pos known]
      rfl
  | literal known =>
      refine ⟨_, ?_, .refl _⟩
      show (oneOf place _ (.text _)).map _ = _
      rw [oneOf, if_pos known]
      rfl
  | tuple length _ ih =>
      obtain ⟨founds, read, lengths, same⟩ :=
        decode_items length (fun pair member place => ih pair member place) 0
      refine ⟨.tuple founds, ?_, .tuple lengths same⟩
      rw [decode]
      exact congrArg (Except.map Value.tuple) read
  | list length _ ih =>
      obtain ⟨founds, read, lengths, same⟩ :=
        decode_items length (fun pair member place => ih pair member place) 0
      refine ⟨.list founds, ?_, .list lengths same⟩
      rw [decode]
      exact congrArg (Except.map Value.list) read
  | mapping order keys _ ih =>
      obtain ⟨founds, read, names, same⟩ :=
        decode_entries keys fun pair member place => ih pair member place
      refine ⟨.mapping founds, ?_, .mapping order names same⟩
      rw [decode]
      exact congrArg (Except.map Value.mapping) read
  | absent optional =>
      refine ⟨_, ?_, .refl _⟩
      rw [decode, if_pos]
      exact Bool.and_eq_true_iff.mpr ⟨rfl, List.any_eq_true.mpr ⟨_, optional, rfl⟩⟩
  | @optional options option value json member only some_ document ih =>
      have full : option.isNone = false := by
        by_contra isNone
        have null := document.isNone (by simpa using isNone)
        rw [some_] at null
        cases null
      obtain ⟨found, read, same⟩ := ih place
      refine ⟨found, ?_, same⟩
      rw [decode, if_neg (by simp [some_])]
      refine decodeFirst_ok ⟨option, member, ?_⟩ fun other included tried => ?_
      · unfold Hint.tried
        split
        · rename_i named
          obtain ⟨other, included, named⟩ := List.any_eq_true.mp named
          rcases only other included with rfl | rfl
          · exact named
          · rw [Hint.named] at named
            simp [Hint.schema] at named
        · rw [full]
          rfl
      · rcases only other included with rfl | rfl
        · exact read
        · unfold Hint.tried at tried
          split at tried
          · rw [Hint.named] at tried
            simp [Hint.schema] at tried
          · cases tried
  | @named options name schema fields accepts value json member only names document ih =>
      have some_ : json.isNull = false := by
        cases json <;> first | rfl | cases names
      have tries : ∀ option : Hint Day Moment, option.named json = true ↔
          option.schema = some schema := fun option => named_iff names
      have named : options.any (·.named json) = true :=
        List.any_eq_true.mpr ⟨_, member, (tries _).mpr rfl⟩
      obtain ⟨found, read, same⟩ := ih place
      refine ⟨found, ?_, same⟩
      rw [decode, if_neg (by simp [some_])]
      refine decodeFirst_ok ⟨_, member, ?_⟩ fun other included tried => ?_
      · rw [Hint.tried, if_pos named]
        exact (tries _).mpr rfl
      · rw [Hint.tried, if_pos named] at tried
        rw [only other included ((tries other).mp tried)]
        exact read
  | @data name schema fields accepts values given names accepted sameSchema _ fallback ih =>
      obtain ⟨founds, read, keys, same⟩ := decodeFields_ok names
        (fun pair member json found place => ih pair member json found place) fallback place
      have equal : Same (.data name schema values) (.data name schema founds) := .data keys same
      refine ⟨_, ?_, equal⟩
      rw [decode]
      show (if schemaFits _ _ = true then _ else _) = _
      rw [if_pos sameSchema, read]
      exact if_pos (accepted founds equal)

end Decode

section Encode

variable {texts : Texts Day Moment} {hint item : Hint Day Moment} {value : Value Day Moment}

theorem encodeItems_ok {items : List (Value Day Moment)}
    (each : ∀ value ∈ items, ∃ json, encode texts value = .ok json ∧
      Document texts item value json) :
    ∃ parts, encodeItems texts items = .ok parts ∧ items.length = parts.length ∧
      ∀ pair ∈ items.zip parts, Document texts item pair.1 pair.2 := by
  induction items with
  | nil => exact ⟨[], rfl, rfl, nofun⟩
  | cons value items ih =>
      obtain ⟨json, encoded, document⟩ := each value List.mem_cons_self
      obtain ⟨parts, later, length, documents⟩ :=
        ih fun other member => each other (List.mem_cons_of_mem _ member)
      refine ⟨json :: parts, ?_, congrArg Nat.succ length, fun pair member => ?_⟩
      · rw [encodeItems, encoded, later]
        rfl
      · rcases List.mem_cons.mp member with rfl | rest
        · exact document
        · exact documents pair rest

theorem map_ok {Start Final : Type} {change : Start → Final} {first : Except Problem Start}
    {result : Final} (done : first.map change = .ok result) :
    ∃ value, first = .ok value ∧ change value = result := by
  cases first with
  | error problem => cases done
  | ok value => exact ⟨value, rfl, Except.ok.inj done⟩

theorem encodeEntries_keys {entries : List (String × Value Day Moment)}
    {parts : List (String × Json)} (encoded : encodeEntries texts entries = .ok parts) :
    entries.map Prod.fst = parts.map Prod.fst := by
  induction entries generalizing parts with
  | nil =>
      cases encoded
      rfl
  | cons entry entries ih =>
      rw [encodeEntries] at encoded
      obtain ⟨json, _, rest⟩ := Results.bind_ok.mp encoded
      obtain ⟨later, written, rfl⟩ := map_ok rest
      exact congrArg (entry.1 :: ·) (ih written)

theorem encodeEntries_ok {entries : List (String × Value Day Moment)}
    (each : ∀ entry ∈ entries, ∃ json, encode texts entry.2 = .ok json) :
    ∃ parts, encodeEntries texts entries = .ok parts ∧
      entries.map Prod.fst = parts.map Prod.fst ∧
      ∀ pair ∈ entries.zip parts, encode texts pair.1.2 = .ok pair.2.2 := by
  induction entries with
  | nil => exact ⟨[], rfl, rfl, nofun⟩
  | cons entry entries ih =>
      obtain ⟨json, encoded⟩ := each entry List.mem_cons_self
      obtain ⟨parts, later, keys, documents⟩ :=
        ih fun other member => each other (List.mem_cons_of_mem _ member)
      refine ⟨(entry.1, json) :: parts, ?_, congrArg (entry.1 :: ·) keys, fun pair member => ?_⟩
      · rw [encodeEntries, encoded, later]
        rfl
      · rcases List.mem_cons.mp member with rfl | rest
        · exact encoded
        · exact documents pair rest

theorem encode_null (encoded : encode texts value = .ok .null) : value = .none := by
  cases value with
  | none => rfl
  | float value =>
      rw [encode] at encoded
      split at encoded <;> cases encoded
  | tuple items =>
      rw [encode] at encoded
      cases parts : encodeItems texts items <;> rw [parts] at encoded <;> cases encoded
  | list items =>
      rw [encode] at encoded
      cases parts : encodeItems texts items <;> rw [parts] at encoded <;> cases encoded
  | mapping entries =>
      rw [encode] at encoded
      cases parts : encodeEntries texts entries <;> rw [parts] at encoded <;> cases encoded
  | data name schema fields =>
      rw [encode] at encoded
      cases parts : encodeEntries texts fields <;> rw [parts] at encoded <;> cases encoded
  | _ => cases encoded

mutual

theorem encode_value (texts : Texts Day Moment) (json : Json) :
    encode texts json.value = if json.finite then .ok json else .error .usage := by
  cases json with
  | list items =>
      rw [Json.value, encode, encode_values texts items, Json.finite]
      cases Json.finiteItems items <;> rfl
  | object entries =>
      rw [Json.value, encode, encode_valueEntries texts entries, Json.finite]
      cases Json.finiteEntries entries <;> rfl
  | _ => rfl

theorem encode_values (texts : Texts Day Moment) (items : List Json) :
    encodeItems texts (Json.valueItems items) =
      if Json.finiteItems items then .ok items else .error .usage := by
  cases items with
  | nil => rfl
  | cons item items =>
      rw [Json.valueItems, encodeItems, encode_value texts item, encode_values texts items,
        Json.finiteItems]
      cases item.finite <;> cases Json.finiteItems items <;> rfl

theorem encode_valueEntries (texts : Texts Day Moment) (entries : List (String × Json)) :
    encodeEntries texts (Json.valueEntries entries) =
      if Json.finiteEntries entries then .ok entries else .error .usage := by
  cases entries with
  | nil => rfl
  | cons entry entries =>
      obtain ⟨key, value⟩ := entry
      rw [Json.valueEntries, encodeEntries, encode_value texts value,
        encode_valueEntries texts entries, Json.finiteEntries]
      cases value.finite <;> cases Json.finiteEntries entries <;> rfl

end

theorem lookup_filter_ne (parts : List (String × Json)) {key other : String} (differ : key ≠ other) :
    (parts.filter (·.1 ≠ other)).lookup key = parts.lookup key := by
  induction parts with
  | nil => rfl
  | cons part parts ih =>
      by_cases same : part.1 = other
      · have skipped : (key == part.1) = false := by
          rw [same]
          exact beq_false_of_ne differ
        rw [List.filter_cons_of_neg (by simp [same]), ih, List.lookup_cons, skipped]
      · rw [List.filter_cons_of_pos (by simp [same]), List.lookup_cons, List.lookup_cons, ih]

theorem lookup_withSchema {schema : Option String} (parts : List (String × Json)) {key : String}
    (unnamed : schema.isSome = true → key ≠ "schema") :
    (withSchema schema parts).lookup key = parts.lookup key := by
  cases schema with
  | none => rfl
  | some schema =>
      have differ := unnamed rfl
      rw [withSchema, List.lookup_cons, beq_false_of_ne differ, lookup_filter_ne parts differ]

theorem lookup_of_mem {parts : List (String × Json)} (distinct : (parts.map Prod.fst).Nodup)
    {entry : String × Json} (member : entry ∈ parts) :
    parts.lookup entry.1 = some entry.2 := by
  induction parts with
  | nil => cases member
  | cons part parts ih =>
      rw [List.map_cons, List.nodup_cons] at distinct
      rcases List.mem_cons.mp member with rfl | later
      · rw [List.lookup_cons, beq_self_eq_true]
      · have differ : entry.1 ≠ part.1 := by
          intro same
          exact distinct.1 (same ▸ List.mem_map_of_mem later)
        rw [List.lookup_cons, beq_false_of_ne differ]
        exact ih distinct.2 later

theorem schema_withSchema {schema : String} {parts : List (String × Json)}
    (unnamed : "schema" ∉ parts.map Prod.fst) :
    (withSchema (some schema) parts).lookup "schema" = some (.text schema) := by
  have absent : parts.lookup "schema" = none := by
    rw [List.lookup_eq_none_iff]
    intro part member
    rw [bne_iff_ne]
    rintro same
    exact unnamed (same ▸ List.mem_map_of_mem member)
  rw [withSchema, List.lookup_cons_self, absent]
  rfl

theorem zip_agree {Left Right Key : Type} {left : Left → Key} {right : Right → Key}
    {lefts : List Left} {rights : List Right} (same : rights.map right = lefts.map left)
    {pair : Left × Right} (member : pair ∈ lefts.zip rights) : right pair.2 = left pair.1 := by
  induction lefts generalizing rights with
  | nil => cases member
  | cons first lefts ih =>
      cases rights with
      | nil => cases same
      | cons second rights =>
          rw [List.map_cons, List.map_cons, List.cons.injEq] at same
          rcases List.mem_cons.mp member with rfl | later
          · exact same.1
          · exact ih same.2 later

theorem exists_zip {Left Right : Type} {lefts : List Left} {rights : List Right}
    (length : lefts.length = rights.length) {right : Right} (member : right ∈ rights) :
    ∃ left, (left, right) ∈ lefts.zip rights := by
  rw [← List.map_snd_zip length.ge] at member
  obtain ⟨pair, included, rfl⟩ := List.mem_map.mp member
  exact ⟨pair.1, included⟩

theorem exists_zip_left {Left Right : Type} {lefts : List Left} {rights : List Right}
    (length : lefts.length = rights.length) {left : Left} (member : left ∈ lefts) :
    ∃ right, (left, right) ∈ lefts.zip rights := by
  rw [← List.map_fst_zip length.le] at member
  obtain ⟨pair, included, rfl⟩ := List.mem_map.mp member
  exact ⟨pair.2, included⟩

theorem schema_of_encode {name schema : String} {fields : List (Field Day Moment)}
    {accepts : List (String × Value Day Moment) → Bool} {json : Json}
    (fits : Fits texts (.data name (some schema) fields accepts) value)
    (encoded : encode texts value = .ok json) : json.schema = some (.text schema) := by
  cases fits with
  | data distinct unnamed names =>
      rw [encode] at encoded
      obtain ⟨parts, written, rfl⟩ := map_ok encoded
      have absent := unnamed rfl
      rw [← names, encodeEntries_keys written] at absent
      exact schema_withSchema absent

theorem encode_document (fits : Fits texts hint value) :
    ∃ json, encode texts value = .ok json ∧ Document texts hint value json := by
  induction fits with
  | @any json finite => exact ⟨json, by rw [encode_value, if_pos finite], .any (.refl _)⟩
  | none => exact ⟨_, rfl, .none⟩
  | bool value => exact ⟨_, rfl, .bool value⟩
  | int value => exact ⟨_, rfl, .int value⟩
  | truth value => exact ⟨_, rfl, .truth value⟩
  | @float value finite => exact ⟨_, by rw [encode, if_pos finite], .float value⟩
  | text value => exact ⟨_, rfl, .text value⟩
  | day reads => exact ⟨_, rfl, .day reads⟩
  | moment reads => exact ⟨_, rfl, .moment reads⟩
  | path kept => exact ⟨_, rfl, .path kept⟩
  | member known => exact ⟨_, rfl, .member known⟩
  | literal known => exact ⟨_, rfl, .literal known⟩
  | tuple _ ih =>
      obtain ⟨parts, encoded, length, documents⟩ := encodeItems_ok ih
      exact ⟨.list parts, by rw [encode, encoded]; rfl, .tuple length documents⟩
  | list _ ih =>
      obtain ⟨parts, encoded, length, documents⟩ := encodeItems_ok ih
      exact ⟨.list parts, by rw [encode, encoded]; rfl, .list length documents⟩
  | mapping _ ih =>
      obtain ⟨parts, encoded, keys, same⟩ :=
        encodeEntries_ok fun entry member => (ih entry member).imp fun _ both => both.1
      refine ⟨.object parts, by rw [encode, encoded]; rfl, .mapping (.refl _) keys fun pair member => ?_⟩
      obtain ⟨json, written, document⟩ := ih pair.1 (List.of_mem_zip member).1
      rw [same pair member, Except.ok.injEq] at written
      rw [written]
      exact document
  | absent optional => exact ⟨_, rfl, .absent optional⟩
  | @optional options option value member only some_ _ ih =>
      obtain ⟨json, encoded, document⟩ := ih
      refine ⟨json, encoded, .optional member only ?_ document⟩
      cases json with
      | null => exact absurd (encode_null encoded) some_
      | _ => rfl
  | named member only fits ih =>
      obtain ⟨json, encoded, document⟩ := ih
      exact ⟨json, encoded, .named member only (schema_of_encode fits encoded) document⟩
  | @data name schema fields accepts values distinct unnamed names accepted _ ih =>
      have length : fields.length = values.length := by
        simpa using congrArg List.length names.symm
      have each : ∀ entry ∈ values, ∃ json, encode texts entry.2 = .ok json := by
        intro entry member
        obtain ⟨field, included⟩ := exists_zip length member
        exact (ih (field, entry) included).imp fun _ both => both.1
      obtain ⟨parts, encoded, keys, same⟩ := encodeEntries_ok each
      have found : ∀ pair ∈ fields.zip values, ∃ json,
          (withSchema schema parts).lookup pair.1.name = some json ∧
            encode texts pair.2.2 = .ok json := by
        intro pair member
        obtain ⟨part, included⟩ := exists_zip_left
          (by simpa using congrArg List.length keys) (List.of_mem_zip member).2
        have named : part.1 = pair.1.name :=
          (zip_agree keys.symm included).trans (zip_agree names member)
        refine ⟨part.2, ?_, same (pair.2, part) included⟩
        rw [lookup_withSchema parts, ← named]
        · exact lookup_of_mem (by rw [← keys, names]; exact distinct) (List.of_mem_zip included).2
        · intro isSchema same
          exact unnamed isSchema (same ▸ List.mem_map_of_mem (List.of_mem_zip member).1)
      refine ⟨.object (withSchema schema parts), by rw [encode, encoded]; rfl,
        .data names accepted ?_ (fun pair member json given => ?_) fun pair member missing => ?_⟩
      · cases schema with
        | none => rfl
        | some schema =>
            have absent := unnamed rfl
            rw [← names, keys] at absent
            simp [schemaFits, schema_withSchema absent]
      · obtain ⟨other, isOther, written⟩ := found pair member
        rw [isOther] at given
        cases given
        obtain ⟨json, encodes, document⟩ := ih pair member
        rw [written, Except.ok.injEq] at encodes
        rw [encodes]
        exact document
      · obtain ⟨_, isOther, _⟩ := found pair member
        rw [isOther] at missing
        cases missing

end Encode

/-! ## Two documents of one union -/

def noTexts : Texts Empty Empty where
  dayText := Empty.elim
  momentText := Empty.elim
  readDay _ := none
  readMoment _ := none
  pathText := id
  plain _ := ""

def runHint : Hint Empty Empty :=
  .data "RunView" (some "etl-craft/run/1")
    [.mk "pipeline_run_id" .int none, .mk "run_label" .text (some (.text "")),
      .mk "child_run_ids" (.tuple .int) (some (.tuple [])),
      .mk "task_counts" (.mapping .int) (some (.mapping []))] fun _ => true

def attemptHint : Hint Empty Empty :=
  .data "AttemptView" (some "etl-craft/attempt/1") [.mk "attempt_id" .int none] fun _ => true

def runValue : Value Empty Empty :=
  .data "RunView" (some "etl-craft/run/1")
    [("pipeline_run_id", .int 7), ("run_label", .text "nightly"),
      ("child_run_ids", .tuple [.int 8, .int 9]),
      ("task_counts", .mapping [("SUCCESS", .int 3), ("FAILED", .int 1)])]

theorem runValue_fits : Fits noTexts (.union [attemptHint, runHint, .none]) runValue := by
  refine .named (List.mem_cons_of_mem _ List.mem_cons_self) ?_
    (.data (by decide) (fun _ => by decide) rfl (fun _ _ => rfl) ?_)
  · intro other member named
    fin_cases member
    · exact absurd named (by decide)
    · rfl
    · cases named
  · intro pair member
    fin_cases member
    · exact .int 7
    · exact .text "nightly"
    · refine .tuple fun value member => ?_
      fin_cases member
      · exact .int 8
      · exact .int 9
    · refine .mapping fun entry member => ?_
      fin_cases member
      · exact .int 3
      · exact .int 1

end Serialization

end EtlCraft
