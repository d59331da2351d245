import Ordo.Text.Quoted
import Ordo.Text.Search
import Ordo.Value.Equal
import Ordo.Value.Text

namespace Ordo

/-!
# Access to data

Data that comes from outside may lack what a reader of it asks for.

* `AccessError` — what is wrong with the data;
* `Value.entry`, `Value.entryOr` — the entry of a dictionary, required or with a default;
* `Value.recordField` — the field of a record, where records are kept as dictionaries;
* `Value.part` — the field of a syntax node;
* `Value.iterate`, `Value.texts` — the items of something that has items, and as texts;
* `Value.holds`, `Value.includes` — whether a text or value is in something that can hold one;
* `Value.searchable`, `Value.textFor` — a text, where nothing else will do.
-/

/-- What is wrong with data that is read. -/
inductive AccessError
  | missingEntry (key : String)
  /-- A dictionary is asked for an entry by number. -/
  | missingNumber (index : Int)
  | notSubscriptable (className : String)
  | noAttribute (className name : String)
  | notIterable (className : String)
  /-- What is asked for a text in it can hold none. -/
  | notContainer (className : String)
  /-- A text is searched for something that is none. -/
  | searchedFor (className : String)
  /-- What is searched is no text. -/
  | notSearchable (className : String)
  /-- What is asked for its number of items has none. -/
  | notSized (className : String)
  /-- What is looked up cannot be the key of anything. -/
  | notKey (className : String)
  | notSerializable (className : String)
  /-- Values of these classes cannot be combined. -/
  | badOperands (operator left right : String)
  /-- Values of these classes have no order. -/
  | notComparable (left right : String)
  /-- What counts something is no whole number. -/
  | notCount (className : String)
  | notJoinable
  | notText (index : Nat) (className : String)
  deriving DecidableEq, Repr

/-- What is said about values that cannot be combined.  To a text, a list or a tuple only its
    like can be added. -/
def operandText (operator left right : String) : String :=
  if (operator = "+" ∨ operator = "+=") ∧ left ∈ ["str", "Token", "list", "tuple"] then
    let kind := if left = "Token" then "str" else left
    "can only concatenate " ++ kind ++ " (not \"" ++ right ++ "\") to " ++ kind
  else
    "unsupported operand type(s) for " ++ operator ++ ": '" ++ left ++ "' and '" ++ right ++ "'"

/-- What is said about data that cannot be read. -/
def AccessError.message : AccessError → String
  | missingEntry key => Text.quote key
  | missingNumber index => toString index
  | notSubscriptable className =>
      if className = "str" ∨ className = "Token" then
        "string indices must be integers, not 'str'"
      else if className = "list" ∨ className = "tuple" then
        className ++ " indices must be integers or slices, not str"
      else "'" ++ className ++ "' object is not subscriptable"
  | noAttribute className name =>
      "'" ++ className ++ "' object has no attribute '" ++ name ++ "'"
  | notIterable className => "'" ++ className ++ "' object is not iterable"
  | notContainer className => "argument of type '" ++ className ++ "' is not iterable"
  | searchedFor className => "'in <string>' requires string as left operand, not " ++ className
  | notSearchable className =>
      "expected string or bytes-like object, got '" ++ className ++ "'"
  | notSized className => "object of type '" ++ className ++ "' has no len()"
  | notKey className => "unhashable type: '" ++ className ++ "'"
  | notSerializable className =>
      "Object of type " ++ className ++ " is not JSON serializable"
  | badOperands operator left right => operandText operator left right
  | notComparable left right =>
      "'>' not supported between instances of '" ++ left ++ "' and '" ++ right ++ "'"
  | notCount className =>
      "'" ++ className ++ "' object cannot be interpreted as an integer"
  | notJoinable => "can only join an iterable"
  | notText index className =>
      "sequence item " ++ toString index ++ ": expected str instance, " ++ className ++ " found"

namespace Value

/-- The entry of a dictionary. -/
def entry (v : Value) (key : String) : Except AccessError Value :=
  match v with
  | dict es =>
      match es.lookup key with
      | some x => .ok x
      | Option.none => .error (.missingEntry key)
  | v => .error (.notSubscriptable v.className)

/-- The entry of a dictionary, or a default if there is none. -/
def entryOr (v : Value) (key : String) (default : Value) : Except AccessError Value :=
  match v with
  | dict es => .ok ((es.lookup key).getD default)
  | v => .error (.noAttribute v.className "get")

/-- The field of a record. -/
def recordField (v : Value) (name : String) : Except AccessError Value :=
  match v with
  | dict es =>
      match es.lookup name with
      | some x => .ok x
      | Option.none => .error (.noAttribute "Record" name)
  | v => .error (.noAttribute v.className name)

/-- The field of a syntax node, or the value of a token, which is its text. -/
def part (v : Value) (name : String) : Except AccessError Value :=
  match v, v.field? name with
  | token _ s, _ => if name = "value" then .ok (str s) else .error (.noAttribute "Token" name)
  | _, some x => .ok x
  | v, Option.none => .error (.noAttribute v.className name)

/-- Whether something is there: a record always is, any other value if it counts as true. -/
def isPresent : Value → Bool
  | dict _ => true
  | v => v.isTrue

/-- Whether a value is absent. -/
def isNone : Value → Bool
  | none => true
  | _ => false

/-- The items of a list; none in anything else. -/
def items : Value → List Value
  | list xs | tuple xs => xs
  | _ => []

/-- The items of a value: those of a list, the keys of a dictionary, the characters of a
    text. -/
def iterate : Value → Except AccessError (List Value)
  | list xs | tuple xs => .ok xs
  | dict es => .ok (es.map fun e => str e.1)
  | str s | token _ s => .ok (s.toList.map fun c => str (String.singleton c))
  | v => .error (.notIterable v.className)

/-- The text that a value is, if it is one. -/
def text? : Value → Option String
  | str s | token _ s => some s
  | _ => Option.none

/-- Whether a value is the given text. -/
def isText (s : String) (v : Value) : Bool := v.text? == some s

/-- Whether a text is in a value: as a part of a text, an item of a list or a key of a
    dictionary. -/
def holds (v : Value) (s : String) : Except AccessError Bool :=
  match v with
  | str t | token _ t => .ok (Text.occurs s.toList t.toList)
  | list xs | tuple xs => .ok (xs.any (isText s))
  | dict es => .ok (es.any fun e => e.1 == s)
  | v => .error (.notContainer v.className)

mutual

/-- Why a value cannot be looked up, if it cannot: it is, or holds, something that may
    change. -/
def keyFault? : Value → Option AccessError
  | list _ => some (.notKey "list")
  | dict _ => some (.notKey "dict")
  | node .bare _ => Option.none
  | node k _ => some (.notKey k.name)
  | tuple xs => keyFaultIn? xs
  | tree _ cs => keyFaultIn? cs
  | _ => Option.none

/-- Why one of several values cannot be looked up. -/
def keyFaultIn? : List Value → Option AccessError
  | [] => Option.none
  | v :: vs => (keyFault? v).or (keyFaultIn? vs)

end

/-- Whether one value is in another: a text as a part of a text, any value as an item of a list,
    or as a key of a dictionary. -/
def includes (v item : Value) : Except AccessError Bool :=
  match v with
  | str t | token _ t =>
      match item.text? with
      | some s => .ok (Text.occurs s.toList t.toList)
      | Option.none => .error (.searchedFor item.className)
  | list xs | tuple xs => .ok (xs.any item.same)
  | dict es =>
      match item.keyFault? with
      | some e => .error e
      | Option.none => .ok (es.any fun e => item.isText e.1)
  | v => .error (.notContainer v.className)

/-- A text to be searched. -/
def searchable (v : Value) : Except AccessError String :=
  match v.text? with
  | some s => .ok s
  | Option.none => .error (.notSearchable v.className)

/-- A text to be used with the named operation of texts. -/
def textFor (operation : String) (v : Value) : Except AccessError String :=
  match v.text? with
  | some s => .ok s
  | Option.none => .error (.noAttribute v.className operation)

/-- Items as texts, counted from `index`. -/
def textsFrom (index : Nat) : List Value → Except AccessError (List String)
  | [] => .ok []
  | str s :: vs | token _ s :: vs => do return s :: (← textsFrom (index + 1) vs)
  | v :: _ => .error (.notText index v.className)

/-- The items of a value as texts, which they have to be. -/
def texts (v : Value) : Except AccessError (List String) :=
  match v.iterate with
  | .ok vs => textsFrom 0 vs
  | .error _ => .error .notJoinable

/-- A text; of any other value, its text. -/
def asText : Value → String
  | str s => s
  | v => v.text

/-- A text that may be absent. -/
def asText? : Value → Option String
  | none => Option.none
  | v => some v.asText

/-- A text that may be absent, as data. -/
def ofText? : Option String → Value
  | some s => str s
  | Option.none => none

/-- A truth value; of any other value, whether it counts as true. -/
def asBool : Value → Bool
  | bool b => b
  | v => v.isTrue

/-- A whole number; zero for any other value. -/
def asInt : Value → Int
  | int i => i
  | bool true => 1
  | _ => 0

/-- The value if it counts as true, else another. -/
def orElse (v other : Value) : Value := if v.isTrue then v else other

/-- The next number. -/
def successor : Value → Except AccessError Value
  | int i => .ok (int (i + 1))
  | bool b => .ok (int (if b then 2 else 1))
  | float f => .ok (float (f + 1.0))
  | v => .error (.badOperands "+" v.className "int")

end Value

end Ordo
