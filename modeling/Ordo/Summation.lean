import Ordo.Recurrence.Basic
import Ordo.Text.Search
import Ordo.Text.Word
import Ordo.Value.Access
import Ordo.Value.Text

namespace Ordo

/-!
# Sums

Sums of costs over loops are brought into a normal form and looked up.

* `Summation.normalize` — the normal form of a sum's text;
* `Summation.Nested`, `Summation.Nested.read` — a sum of sums;
* `Summation.Formula`, `Summation.formulas` — known sums with their closed forms;
* `Summation.report` — a sum, solved;
* `Summation.orderOf` — a number by which complexities are ordered.
-/

namespace Summation

open Text (Piece Template)
open Text.Template (text)
open Recurrence (blanks anything)

/-! ### Normal form -/

/-- A constant cost with blanks in it. -/
def looseConstant : Template :=
  [.char 'O', blanks, .char '(', blanks, .char '1', blanks, .char ')']

/-- A cost of one word with blanks in it. -/
def looseWord : Template :=
  [.char 'O', blanks, .char '(', blanks, .longest Text.isWord, blanks, .char ')']

/-- Words with one space between them. -/
def spaced (cs : List Char) : List Char := [' '].intercalate (Text.words cs)

/-- The normal form: single spaces, and none inside a cost of one word. -/
def normalizeChars (cs : List Char) : List Char :=
  let once := looseConstant.replace (fun _ => "O(1)".toList) (spaced cs)
  looseWord.replace (fun runs => "O(".toList ++ runs.flatten ++ [')']) once

/-- The normal form of a sum's text. -/
def normalize (s : String) : String := String.ofList (normalizeChars s.toList)

/-! ### Sums of sums -/

/-- How the range of an inner sum depends on the outer one. -/
inductive Extent
  | triangular | rectangular
  deriving DecidableEq, Repr

/-- The name of an extent. -/
def Extent.name : Extent → String
  | triangular => "triangular" | rectangular => "rectangular"

/-- The extent with a given name. -/
def Extent.ofName? (s : String) : Option Extent :=
  [Extent.triangular, .rectangular].find? (·.name == s)

/-- A sum of sums. -/
structure Nested where
  range : String
  term : String
  extent : Extent
  deriving DecidableEq, Repr

namespace Nested

/-- The form of a sum of sums. -/
def form : Template :=
  text "Σ(i=1 to n)" ++ [blanks] ++ text "Σ(j=" ++ [.longest (· != ')'), .char ')', blanks]
    ++ [anything]

/-- The extent that a range shows. -/
def extentOf (range : List Char) : Option Extent :=
  let has (s : String) : Bool := Text.occurs s.toList range
  if has "j=1 to i" || has "j=i to n" then some .triangular
  else if has "j=1 to n" then some .rectangular
  else none

/-- Reads a sum of sums. -/
def read (s : String) : Option Nested :=
  match form.search s.toList with
  | some [range, term] =>
      let range := Text.trim range
      (extentOf range).map fun e => ⟨String.ofList range, String.ofList (Text.trim term), e⟩
  | _ => none

/-- A sum of sums as data. -/
def toValue (n : Nested) : Value :=
  .dict [("type", .str "nested"), ("outer", .str "i=1 to n"), ("inner_range", .str n.range),
    ("inner_expr", .str n.term), ("pattern", .str n.extent.name)]

/-- A constant cost. -/
def unitCost : String := "O(1)"

/-- Whether the term of a sum is constant. -/
def isConstant (term : String) : Bool := Text.occurs unitCost.toList term.toList || term == "1"

/-- What is answered when a sum of sums has no known solution. -/
def unsolved : Value :=
  .dict [("success", .bool false), ("error", .str "Patrón de sumatoria anidada no reconocido")]

/-- The sum of a constant over an extent. -/
def constantSum : Extent → Value
  | .triangular =>
      .dict [("success", .bool true), ("simplified", .str "n(n+1)/2"),
        ("complexity", .str "O(n²)"),
        ("steps", .list [
          .str "Sumatoria anidada: Σ(i=1 to n) Σ(j=1 to i) O(1)",
          .str "La sumatoria interna da: Σ(j=1 to i) O(1) = i",
          .str "Queda: Σ(i=1 to n) i",
          .str "Aplicando fórmula de suma aritmética: n(n+1)/2",
          .str "Por lo tanto: O(n²)"]),
        ("explanation", .str ("Sumatoria triangular donde la sumatoria interna depende del "
          ++ "índice externo"))]
  | .rectangular =>
      .dict [("success", .bool true), ("simplified", .str "n²"), ("complexity", .str "O(n²)"),
        ("steps", .list [
          .str "Sumatoria anidada: Σ(i=1 to n) Σ(j=1 to n) O(1)",
          .str "La sumatoria interna da: Σ(j=1 to n) O(1) = n",
          .str "Queda: Σ(i=1 to n) n = n × n",
          .str "Por lo tanto: O(n²)"]),
        ("explanation", .str ("Sumatoria rectangular donde ambos loops van hasta n "
          ++ "independientemente"))]

/-- The solution of a sum of sums, which is known if its term is constant. -/
def solve (n : Nested) : Value :=
  if isConstant n.term then constantSum n.extent else unsolved

/-- The solution of a sum of sums that is given as data.  Its term may be anything that can
    hold a text, which is looked at only for a known extent. -/
def solveData (v : Value) : Except AccessError Value := do
  let extent ← v.entry "pattern"
  let term ← v.entry "inner_expr"
  match extent.text?.bind Extent.ofName? with
  | some e => return if (← term.holds unitCost) || term.isText "1" then constantSum e else unsolved
  | none => return unsolved

end Nested

/-! ### Known sums -/

/-- A known sum: a text that shows it, its closed form, complexity and description. -/
structure Formula where
  shown : String
  closed : String
  complexity : String
  description : String
  deriving DecidableEq, Repr

/-- The known sums, in the order in which they are looked for. -/
def formulas : List Formula :=
  [⟨"Σ(i=1 to n) O(1)", "n", "O(n)", "Sumatoria de constante n veces"⟩,
   ⟨"Σ(i=1 to n) 1", "n", "O(n)", "Sumatoria de 1 desde 1 hasta n"⟩,
   ⟨"Σ(i=1 to n) i", "n(n+1)/2", "O(n²)", "Suma aritmética: 1+2+3+...+n"⟩,
   ⟨"Σ(i=1 to n) i^2", "n(n+1)(2n+1)/6", "O(n³)", "Suma de cuadrados"⟩,
   ⟨"Σ(i=1 to n) i^3", "[n(n+1)/2]²", "O(n⁴)", "Suma de cubos"⟩,
   ⟨"Σ(i=1 to n) 2^i", "2^(n+1) - 2", "O(2^n)", "Serie geométrica con r=2"⟩,
   ⟨"Σ(i=0 to log n) 2^i", "2n - 1", "O(n)", "Serie geométrica hasta log n"⟩]

/-- The first known sum that a text shows. -/
def formula? (s : String) : Option Formula :=
  formulas.find? fun f => Text.occurs f.shown.toList s.toList

/-- A known sum as the solution of what was given. -/
def Formula.solution (f : Formula) (given : Value) : Value :=
  .dict [("success", .bool true), ("original", given), ("simplified", .str f.closed),
    ("complexity", .str f.complexity), ("explanation", .str f.description),
    ("steps", .list [
      .str ("Identificado patrón: " ++ f.description),
      .str ("Aplicando fórmula: " ++ f.closed),
      .str ("Complejidad: " ++ f.complexity)])]

/-- What is answered for the text of a sum that was given as `given`. -/
def report (given : Value) (s : String) : Value :=
  let normal := normalize s
  match Nested.read normal with
  | some n => n.solve
  | none =>
      match formula? normal with
      | some f => f.solution given
      | none =>
          .dict [("success", .bool false),
            ("error", .str "No se reconoció el patrón de la sumatoria"), ("original", given),
            ("suggestion", .str "Puede requerir análisis manual o método de sustitución")]

/-! ### Orders -/

/-- Complexities with their place in the order. -/
def orders : List (String × Value) :=
  [("O(1)", .int 0), ("O(log n)", .float 0.5), ("O(n)", .int 1), ("O(n log n)", .float 1.5),
   ("O(n²)", .int 2), ("O(n³)", .int 3), ("O(2^n)", .int 10)]

/-- The place of a complexity in the order; that of linear ones for any other. -/
def orderOf (complexity : String) : Value := (orders.lookup complexity).getD (.int 1)

end Summation

end Ordo
