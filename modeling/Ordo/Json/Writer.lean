import Ordo.Decimal.Shortest
import Ordo.Text.Quoted
import Ordo.Value.Basic

namespace Ordo.Json

/-!
# Writing JSON

* `Style` — whether characters beyond the first 128 are escaped, and whether items stand on
  lines of their own;
* `write` — the JSON text of plain data.  Tuples are written as arrays and tokens as strings.
-/

/-- How JSON is laid out. -/
structure Style where
  /-- Whether every character outside printable ASCII is escaped. -/
  ascii : Bool
  /-- The blanks by which a level is indented; with none, everything is on one line. -/
  indent : Option Nat

/-- On one line, escaped to ASCII. -/
def escapedStyle : Style := ⟨true, none⟩

/-- On one line, characters as they are. -/
def plainStyle : Style := ⟨false, none⟩

/-- Two blanks for each level, characters as they are. -/
def indentedStyle : Style := ⟨false, some 2⟩

/-- A unit of sixteen bits as an escape. -/
def unitEscape (n : Nat) : List Char := '\\' :: 'u' :: Text.hex 4 n

/-- One character of a string. -/
def writeChar (ascii : Bool) (c : Char) : List Char :=
  if c = '"' then ['\\', '"']
  else if c = '\\' then ['\\', '\\']
  else if c = '\n' then ['\\', 'n']
  else if c = '\r' then ['\\', 'r']
  else if c = '\t' then ['\\', 't']
  else if c = '\x08' then ['\\', 'b']
  else if c = '\x0c' then ['\\', 'f']
  else if c.toNat < 32 then unitEscape c.toNat
  else if ascii && 127 ≤ c.toNat then
    if c.toNat < 0x10000 then unitEscape c.toNat
    else
      let n := c.toNat - 0x10000
      unitEscape (0xD800 + n / 0x400) ++ unitEscape (0xDC00 + n % 0x400)
  else [c]

/-- A string. -/
def writeString (ascii : Bool) (s : String) : String :=
  "\"" ++ String.ofList (s.toList.flatMap (writeChar ascii)) ++ "\""

/-- A double; the values that are no numbers have names. -/
def writeFloat (f : Float) : String :=
  if f.isNaN then "NaN"
  else if f.isInf then (if f < 0.0 then "-Infinity" else "Infinity")
  else Decimal.write f

/-- A line break and the blanks of a level, or nothing. -/
def lineBreak (style : Style) (level : Nat) : String :=
  match style.indent with
  | some n => "\n" ++ String.ofList (List.replicate (n * level) ' ')
  | none => ""

/-- What stands between two items. -/
def separator (style : Style) (level : Nat) : String :=
  match style.indent with
  | some _ => "," ++ lineBreak style level
  | none => ", "

mutual

/-- The text of a value at a level of nesting. -/
def writeAt (style : Style) (level : Nat) : Value → String
  | .none => "null"
  | .bool b => if b then "true" else "false"
  | .int i => toString i
  | .float f => writeFloat f
  | .str s => writeString style.ascii s
  | .token _ s => writeString style.ascii s
  | .list xs => writeItems style level xs
  | .tuple xs => writeItems style level xs
  | .dict [] => "\x7b\x7d"
  | .dict es =>
      "\x7b" ++ lineBreak style (level + 1)
        ++ String.intercalate (separator style (level + 1)) (writeEntries style (level + 1) es)
        ++ lineBreak style level ++ "\x7d"
  | .tree _ _ => "null"
  | .node _ _ => "null"

/-- An array. -/
def writeItems (style : Style) (level : Nat) : List Value → String
  | [] => "[]"
  | v :: vs =>
      "[" ++ lineBreak style (level + 1)
        ++ String.intercalate (separator style (level + 1))
            (writeAt style (level + 1) v :: writeAll style (level + 1) vs)
        ++ lineBreak style level ++ "]"

/-- Several values. -/
def writeAll (style : Style) (level : Nat) : List Value → List String
  | [] => []
  | v :: vs => writeAt style level v :: writeAll style level vs

/-- The entries of an object. -/
def writeEntries (style : Style) (level : Nat) : List (String × Value) → List String
  | [] => []
  | (k, v) :: es =>
      (writeString style.ascii k ++ ": " ++ writeAt style level v) :: writeEntries style level es

end

/-- The JSON text of plain data. -/
def write (style : Style) (v : Value) : String := writeAt style 0 v

end Ordo.Json
