import Ordo.Recurrence.Basic

namespace Ordo.Recurrence

/-!
# Recursion trees

The first levels of the tree of calls of a dividing recurrence.

* `Tree.read` — the recurrence in a text, in the form that trees are drawn for;
* `Tree.Level`, `Tree.levels` — the levels with their nodes and work;
* `Tree.report` — the tree as data.
-/

namespace Tree

/-- The form of recurrence that trees are drawn for: a coefficient right before the call, and
    a cost in parentheses. -/
def form : Text.Template :=
  head ++ [digits] ++ divided ++ plus ++ [.optional 'O', .char '(', brief, .char ')']

/-- Reads a recurrence. -/
def read (s : String) : Except SolverError (Option Divide) :=
  match form.search s.toList with
  | some runs => Divide.ofFit runs
  | none => .ok none

/-- A level of the tree. -/
structure Level where
  depth : Nat
  nodes : Nat
  /-- What the problem's size is divided by. -/
  divisor : Nat
  deriving DecidableEq, Repr

/-- A level of the tree of a recurrence. -/
def level (d : Divide) (depth : Nat) : Level :=
  ⟨depth, Nat.pow d.branches depth, Nat.pow d.factor depth⟩

/-- The levels that are shown. -/
def levels (d : Divide) : List Level := (List.range 4).map (level d)

/-- The size of a problem on a level. -/
def Level.size (l : Level) : Except SolverError String :=
  if l.depth = 0 then .ok "n" else do return "n/" ++ (← written l.divisor)

/-- The number of nodes on a level, as text. -/
def Level.nodeText (l : Level) : Except SolverError String := do
  return "Nivel " ++ toString l.depth ++ ": " ++ (← written l.nodes) ++ " nodos"

/-- The work on a level, as text. -/
def Level.workText (cost : String) (l : Level) : Except SolverError String := do
  let size ← l.size
  let nodes ← written l.nodes
  if cost = "1" then return nodes ++ " × O(1) = O(" ++ nodes ++ ")"
  else if cost = "n" then return nodes ++ " × O(" ++ size ++ ") = O(n)"
  else return nodes ++ " × O(" ++ cost ++ ") en tamaño " ++ size

/-- The depth of the tree. -/
def depthText (d : Divide) : String := "log_" ++ toString d.factor ++ "(n)"

/-- The work of all levels. -/
def totalWork (d : Divide) : String :=
  if d.cost = "n" then "O(n) por nivel × " ++ depthText d ++ " niveles = O(n log n)"
  else if d.cost = "1" then
    "Hojas: " ++ toString d.branches ++ "^" ++ depthText d ++ " = n^(log_" ++ toString d.factor
      ++ "(" ++ toString d.branches ++ "))"
  else "Ver Teorema Maestro para cálculo exacto"

/-- The tree of a recurrence as data. -/
def describe (d : Divide) : Except SolverError Value := do
  let nodes ← (levels d).mapM Level.nodeText
  let work ← (levels d).mapM (Level.workText d.cost)
  return .dict [("success", .bool true), ("a", .int d.branches), ("b", .int d.factor),
    ("f_n", .str d.cost), ("tree_depth", .str (depthText d)),
    ("nodes_per_level", .list (nodes.map .str)), ("work_per_level", .list (work.map .str)),
    ("total_work", .str (totalWork d)),
    ("explanation", .str ("Árbol con ramificación " ++ toString d.branches
      ++ " y profundidad " ++ depthText d ++ ". Trabajo de O(" ++ d.cost
      ++ ") en cada nodo."))]

/-- What is answered for a text: the tree, or that there is no recurrence in it. -/
def report (s : String) : Except SolverError Value := do
  match ← read s with
  | some d => describe d
  | none =>
      return .dict [("success", .bool false),
        ("error", .str "No se pudo parsear como recurrencia divide-y-conquista")]

end Tree

end Ordo.Recurrence
