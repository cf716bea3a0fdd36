import EtlCraft.Binary64
import EtlCraft.Results

/-! Operation documents: `_encode` writes a value as JSON, `_decode` reads one back as a type hint
says. -/

namespace EtlCraft

namespace Serialization

inductive Json
  | null
  | bool (value : Bool)
  | int (value : Int)
  | float (value : Binary64.Number)
  | text (value : String)
  | list (items : List Json)
  | object (entries : List (String × Json))

/-- The values of the documents. A `member` is one of an enumeration of texts; a dataclass carries its
`SCHEMA` and its fields in their order. -/
inductive Value (Day Moment : Type)
  | none
  | bool (value : Bool)
  | int (value : Int)
  | float (value : Binary64.Number)
  | text (value : String)
  | day (value : Day)
  | moment (value : Moment)
  | path (value : String)
  | member (enumeration value : String)
  | tuple (items : List (Value Day Moment))
  | list (items : List (Value Day Moment))
  | mapping (entries : List (String × Value Day Moment))
  | data (name : String) (schema : Option String) (fields : List (String × Value Day Moment))

mutual

/-- A type hint; `accepts` is the check that a dataclass makes of its fields. -/
inductive Hint (Day Moment : Type)
  | any
  | none
  | bool
  | int
  | float
  | text
  | day
  | moment
  | path
  | enumeration (name : String) (values : List String)
  | literal (values : List String)
  | tuple (item : Hint Day Moment)
  | list (item : Hint Day Moment)
  | mapping (item : Hint Day Moment)
  | union (options : List (Hint Day Moment))
  | data (name : String) (schema : Option String) (fields : List (Field Day Moment))
      (accepts : List (String × Value Day Moment) → Bool)

inductive Field (Day Moment : Type)
  | mk (name : String) (hint : Hint Day Moment) (fallback : Option (Value Day Moment))

end

/-- `ServerError` at a place of the document, and what the callers do not take for one. -/
inductive Problem
  | server (place : String)
  | usage
  | overflow
  deriving DecidableEq

/-- ISO 8601 texts, the text of a path once it is a `Path`, and `str` of what is not a text. -/
structure Texts (Day Moment : Type) where
  dayText : Day → String
  momentText : Moment → String
  readDay : String → Option Day
  readMoment : String → Option Moment
  pathText : String → String
  plain : Json → String

variable {Day Moment : Type}

/-! ## `_encode` -/

/-- The schema of a document goes first, under a name that a field may take over. -/
def withSchema (schema : Option String) (entries : List (String × Json)) : List (String × Json) :=
  match schema with
  | none => entries
  | some schema =>
      ("schema", (entries.lookup "schema").getD (.text schema)) ::
        entries.filter (·.1 ≠ "schema")

mutual

def encode (texts : Texts Day Moment) : Value Day Moment → Except Problem Json
  | .none => .ok .null
  | .bool value => .ok (.bool value)
  | .int value => .ok (.int value)
  | .float value => if value.isFinite then .ok (.float value) else .error .usage
  | .text value => .ok (.text value)
  | .day value => .ok (.text (texts.dayText value))
  | .moment value => .ok (.text (texts.momentText value))
  | .path value => .ok (.text value)
  | .member _ value => .ok (.text value)
  | .tuple items => (encodeItems texts items).map .list
  | .list items => (encodeItems texts items).map .list
  | .mapping entries => (encodeEntries texts entries).map .object
  | .data _ schema fields =>
      (encodeEntries texts fields).map fun entries => .object (withSchema schema entries)

def encodeItems (texts : Texts Day Moment) :
    List (Value Day Moment) → Except Problem (List Json)
  | [] => .ok []
  | item :: items =>
      (encode texts item).bind fun first => (encodeItems texts items).map (first :: ·)

def encodeEntries (texts : Texts Day Moment) :
    List (String × Value Day Moment) → Except Problem (List (String × Json))
  | [] => .ok []
  | (key, value) :: entries =>
      (encode texts value).bind fun first =>
        (encodeEntries texts entries).map ((key, first) :: ·)

end

/-! ## `_decode` -/

mutual

def Json.value : Json → Value Day Moment
  | .null => .none
  | .bool value => .bool value
  | .int value => .int value
  | .float value => .float value
  | .text value => .text value
  | .list items => .list (valueItems items)
  | .object entries => .mapping (valueEntries entries)

def Json.valueItems : List Json → List (Value Day Moment)
  | [] => []
  | item :: items => item.value :: valueItems items

def Json.valueEntries : List (String × Json) → List (String × Value Day Moment)
  | [] => []
  | (key, value) :: entries => (key, value.value) :: valueEntries entries

end

def Json.isNull : Json → Bool
  | .null => true
  | _ => false

def Texts.str (texts : Texts Day Moment) : Json → String
  | .text value => value
  | value => texts.plain value

def Json.schema : Json → Option Json
  | .object entries => entries.lookup "schema"
  | _ => none

def Hint.isNone : Hint Day Moment → Bool
  | .none => true
  | _ => false

def Hint.schema : Hint Day Moment → Option String
  | .data _ schema _ _ => schema
  | _ => .none

def Hint.named (value : Json) (option : Hint Day Moment) : Bool :=
  match value.schema, option.schema with
  | some (.text name), some schema => name = schema
  | _, _ => false

/-- The options of a union that are tried: those the document names, or all. -/
def Hint.tried (options : List (Hint Day Moment)) (value : Json) (option : Hint Day Moment) :
    Bool :=
  if options.any (·.named value) then option.named value else !option.isNone

def schemaFits (schema : Option String) (given : List (String × Json)) : Bool :=
  match schema, given.lookup "schema" with
  | some schema, some (.text name) => name = schema
  | some _, some _ => false
  | _, _ => true

def expect (place : String) {Value : Type} : Option Value → Except Problem Value
  | some value => .ok value
  | none => .error (.server place)

def Json.items : Json → Option (List Json)
  | .list items => some items
  | _ => none

def Json.entries : Json → Option (List (String × Json))
  | .object entries => some entries
  | _ => none

def oneOf (place : String) (values : List String) : Json → Except Problem String
  | .text value => if value ∈ values then .ok value else .error (.server place)
  | _ => .error (.server place)

def floatOf : Option Binary64.Number → Except Problem (Value Day Moment)
  | some value => .ok (.float value)
  | none => .error .overflow

def decodeValue (texts : Texts Day Moment) (place : String) :
    Hint Day Moment → Json → Except Problem (Value Day Moment)
  | .any, value => .ok value.value
  | .none, .null => .ok .none
  | .bool, .bool value => .ok (.bool value)
  | .int, .int value => .ok (.int value)
  | .int, .bool value => .ok (.bool value)
  | .float, .float value => .ok (.float value)
  | .float, .int value => floatOf (Binary64.ofInt value)
  | .text, .text value => .ok (.text value)
  | .day, value => (expect place (texts.readDay (texts.str value))).map .day
  | .moment, value => (expect place (texts.readMoment (texts.str value))).map .moment
  | .path, .text value => .ok (.path (texts.pathText value))
  | .enumeration name values, value => (oneOf place values value).map (.member name)
  | .literal values, value => (oneOf place values value).map .text
  | _, _ => .error (.server place)

mutual

def decode (texts : Texts Day Moment) :
    Hint Day Moment → Json → String → Except Problem (Value Day Moment)
  | .tuple item, value, place =>
      (expect place value.items).bind fun items =>
        (items.zipIdx.mapM fun part =>
          decode texts item part.1 (place ++ "[" ++ toString part.2 ++ "]")).map .tuple
  | .list item, value, place =>
      (expect place value.items).bind fun items =>
        (items.zipIdx.mapM fun part =>
          decode texts item part.1 (place ++ "[" ++ toString part.2 ++ "]")).map .list
  | .mapping item, value, place =>
      (expect place value.entries).bind fun entries =>
        (entries.mapM fun entry =>
          (decode texts item entry.2 (place ++ "." ++ entry.1)).map (entry.1, ·)).map .mapping
  | .union options, value, place =>
      if value.isNull && options.any (·.isNone) then .ok .none
      else decodeFirst texts (Hint.tried options value) options value place
  | .data name schema fields accepts, value, place =>
      (expect place value.entries).bind fun given =>
        if schemaFits schema given then
          (decodeFields texts fields given place).bind fun values =>
            if accepts values then .ok (.data name schema values) else .error .usage
        else .error (.server (place ++ ".schema"))
  | hint, value, place => decodeValue texts place hint value

/-- The first option that decodes; an option's `ServerError` leaves the next one. -/
def decodeFirst (texts : Texts Day Moment) (tried : Hint Day Moment → Bool) :
    List (Hint Day Moment) → Json → String → Except Problem (Value Day Moment)
  | [], _, place => .error (.server place)
  | option :: options, value, place =>
      if tried option then
        match decode texts option value place with
        | .ok found => .ok found
        | .error (.server _) => decodeFirst texts tried options value place
        | .error problem => .error problem
      else decodeFirst texts tried options value place

def decodeFields (texts : Texts Day Moment) :
    List (Field Day Moment) → List (String × Json) → String →
      Except Problem (List (String × Value Day Moment))
  | [], _, _ => .ok []
  | .mk name hint fallback :: fields, given, place =>
      let here := place ++ "." ++ name
      (match given.lookup name with
        | some value => decode texts hint value here
        | none => expect here fallback).bind fun value =>
          (decodeFields texts fields given place).map ((name, value) :: ·)

end

end Serialization

end EtlCraft
