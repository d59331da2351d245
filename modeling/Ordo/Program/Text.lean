import Ordo.Program.Data
import Ordo.Value.Text

namespace Ordo

/-!
# The text of expressions

Expressions are shown in two ways.

* `Expr.shortText` — for reports: a variable is shown by its name alone;
* `Expr.fullText` — for diagrams: variables are shown with their indices, field and range;
* `Expr.shortForm`, `Expr.fullForm` — the same, but a variable that is shown by its name alone
  stays its name, even if that is no text.

Neither writes parentheses around operands.
-/

/-- The text of a number. -/
def Numeral.text : Numeral → String
  | whole i => toString i
  | real f => Decimal.write f

/-- Anything that is no expression, as reports show it: a number by what it holds, a variable by
    its name. -/
def Value.shortText : Value → String
  | .node .number [v] => v.text
  | .node .var (name :: _) => name.text
  | v => v.text

/-- Anything that is no expression, as diagrams show it: a number by what it holds, a truth
    value by whether that counts as true. -/
def Value.fullText : Value → String
  | .node .number [v] => v.text
  | .node .boolean [v] => if v.isTrue then "T" else "F"
  | v => v.text

mutual

/-- An expression as reports show it. -/
def Expr.shortText : Expr → String
  | .number n => n.text
  | .var name _ _ _ => name.shown
  | .slice name _ _ _ _ _ => name.shown
  | .binary operator left right =>
      Expr.shortText left ++ " " ++ operator ++ " " ++ Expr.shortText right
  | .unary operator operand => operator ++ Expr.shortText operand
  | .call name arguments =>
      name.shown ++ "(" ++ Value.joined ", " (Expr.shortTexts arguments) ++ ")"
  | .other v => v.shortText
  | e => (Expr.toValue e).text

/-- Several expressions as reports show them. -/
def Expr.shortTexts : List Expr → List String
  | [] => []
  | e :: es => Expr.shortText e :: Expr.shortTexts es

end

/-- What an expression is shown as in reports. -/
def Expr.shortForm : Expr → Name
  | .var name _ _ _ => name
  | .slice name _ _ _ _ _ => name
  | .other (.node .var (name :: _)) => .ofValue name
  | e => .text e.shortText

/-- Indices in brackets; nothing if there are none. -/
def indexText : List String → String
  | [] => ""
  | texts => "[" ++ Value.joined "][" texts ++ "]"

/-- A field after a point; nothing if there is none. -/
def fieldText : Option String → String
  | none => ""
  | some f => "." ++ f

/-- What is written after the name of a variable: its indices, and its field. -/
def accessText (indices : List String) (field : Option String) : String :=
  indexText indices ++ fieldText field

mutual

/-- An expression as diagrams show it. -/
def Expr.fullText : Expr → String
  | .number n => n.text
  | .boolean b => if b then "T" else "F"
  | .null => "NULL"
  | .var name indices field _ => (name.extend (accessText (Expr.fullTexts indices) field)).shown
  | .slice name indices field _ start stop =>
      (name.extend (accessText (Expr.fullTexts indices) field
        ++ "[" ++ Expr.fullText start ++ ".." ++ Expr.fullText stop ++ "]")).shown
  | .binary operator left right =>
      Expr.fullText left ++ " " ++ operator ++ " " ++ Expr.fullText right
  | .unary operator operand => operator ++ Expr.fullText operand
  | .call name arguments =>
      name.shown ++ "(" ++ Value.joined ", " (Expr.fullTexts arguments) ++ ")"
  | .length operand => "length(" ++ Expr.fullText operand ++ ")"
  | .ceiling operand => "ceil(" ++ Expr.fullText operand ++ ")"
  | .floor operand => "floor(" ++ Expr.fullText operand ++ ")"
  | .other v => v.fullText

/-- Several expressions as diagrams show them. -/
def Expr.fullTexts : List Expr → List String
  | [] => []
  | e :: es => Expr.fullText e :: Expr.fullTexts es

end

/-- What an expression is shown as in diagrams. -/
def Expr.fullForm : Expr → Name
  | .var name indices field _ => name.extend (accessText (Expr.fullTexts indices) field)
  | .slice name indices field _ start stop =>
      name.extend (accessText (Expr.fullTexts indices) field
        ++ "[" ++ start.fullText ++ ".." ++ stop.fullText ++ "]")
  | e => .text e.fullText

end Ordo
