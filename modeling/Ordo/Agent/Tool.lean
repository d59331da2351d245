import Ordo.Value.Basic

namespace Ordo

/-!
# Tools

What a language model may ask to have computed.

* `Tool`, `Tool.name` — the tools;
* `Tool.parameters`, `Tool.definition` — what a tool is told to the model to take;
* `Tool.analysis`, `Tool.recursion`, `Tool.iteration`, `Tool.equations` — the sets of tools.
-/

/-- The tools: six look at programs, four at equations. -/
inductive Tool
  | selfCalls | baseCase | reduction | loops | operations | conditionals
  | master | summation | substitution | recursionTree
  deriving DecidableEq, Repr

/-- What a tool takes: a name, a kind of data, and a description. -/
structure ToolParameter where
  name : String
  type : String
  description : String
  deriving DecidableEq, Repr

namespace Tool

/-- The name by which a tool is asked for. -/
def name : Tool → String
  | selfCalls => "find_recursive_calls"
  | baseCase => "detect_base_case"
  | reduction => "analyze_recursion_parameter"
  | loops => "analyze_loops"
  | operations => "count_operations_in_loop"
  | conditionals => "detect_conditionals"
  | master => "apply_master_theorem"
  | summation => "simplify_summation"
  | substitution => "solve_by_substitution"
  | recursionTree => "analyze_recursion_tree"

/-- The name by which a tool is called when its arguments do not fit. -/
def callName : Tool → String
  | master => "ResolverAgent._wrap_master_theorem"
  | summation => "ResolverAgent._wrap_summation"
  | substitution => "ResolverAgent._wrap_substitution"
  | recursionTree => "ResolverAgent._wrap_recursion_tree"
  | t => t.name

/-- The tools that look at equations. -/
def equations : List Tool := [master, summation, substitution, recursionTree]

/-- The name by which a tool is called when its arguments are not given by name. -/
def qualifiedName (t : Tool) : String :=
  (if t ∈ equations then "app.analysis.agents.resolver_agent."
    else "app.analysis.tools.ast_analyzer.") ++ t.callName

/-- The names that cannot be given to a tool because something is known by them already. -/
def fixed (t : Tool) : List String := if t ∈ equations then ["self"] else []

/-- The tools that look at programs. -/
def analysis : List Tool :=
  [selfCalls, baseCase, reduction, loops, operations, conditionals]

/-- Of these, the ones for recursive algorithms. -/
def recursion : List Tool := [selfCalls, baseCase, reduction, conditionals]

/-- Of these, the ones for iterative algorithms. -/
def iteration : List Tool := [loops, operations, conditionals]

/-- What a tool does, in the words told to the model. -/
def description : Tool → String
  | selfCalls =>
      "Encuentra todas las llamadas recursivas en una subrutina. "
        ++ "Retorna el número de llamadas, posiciones y argumentos usados."
  | baseCase =>
      "Detecta el caso base en una función recursiva. "
        ++ "Retorna la condición del caso base, el valor de retorno y su posición."
  | reduction =>
      "Analiza cómo se reduce el parámetro en las llamadas recursivas. "
        ++ "Identifica patrones como n-1, n/2, n-k, etc."
  | loops =>
      "Analiza todos los loops en un algoritmo. "
        ++ "Retorna tipo, bounds, nivel de anidamiento de cada loop."
  | operations =>
      "Cuenta el número de operaciones dentro de un loop. "
        ++ "Útil para determinar el costo por iteración."
  | conditionals =>
      "Detecta condicionales (IF) en el algoritmo. "
        ++ "Útil para identificar casos best/worst/average diferentes."
  | master =>
      "Aplica el Teorema Maestro para resolver recurrencias de la forma "
        ++ "T(n) = aT(n/b) + f(n). "
        ++ "Identifica automáticamente el caso (1, 2 o 3) y calcula la complejidad. "
        ++ "Úsalo para recurrencias divide-y-conquista como Merge Sort, Binary Search, etc. "
        ++ "Devuelve los pasos detallados y la complejidad final."
  | summation =>
      "Simplifica sumatorias y calcula su complejidad. "
        ++ "Maneja sumatorias simples (Σ(i=1 to n) i) y anidadas (Σ Σ). "
        ++ "Úsalo para algoritmos iterativos como Selection Sort, Bubble Sort, etc. "
        ++ "Devuelve la fórmula simplificada y los pasos de resolución."
  | substitution =>
      "Resuelve recurrencias lineales por método de sustitución. "
        ++ "Úsalo para recurrencias como T(n) = T(n-1) + O(1), útil para Factorial, "
        ++ "Fibonacci iterativo, etc. "
        ++ "Muestra la expansión paso a paso y el patrón identificado."
  | recursionTree =>
      "Analiza complejidad usando árbol de recursión. "
        ++ "Método alternativo para visualizar el trabajo en cada nivel del árbol. "
        ++ "Úsalo cuando otros métodos no sean suficientes o como método complementario."

/-- What a tool takes, in order. -/
def parameters : Tool → List ToolParameter
  | selfCalls | baseCase =>
      [⟨"subroutine", "object", "Objeto AST de la subrutina a analizar"⟩]
  | reduction =>
      [⟨"subroutine", "object", "Objeto AST de la subrutina"⟩,
       ⟨"param_name", "string", "Nombre del parámetro a analizar (ej: 'n')"⟩]
  | loops | conditionals => [⟨"subroutine", "object", "Objeto AST de la subrutina"⟩]
  | operations => [⟨"loop_body", "array", "Lista de statements dentro del loop"⟩]
  | master =>
      [⟨"recurrence", "string", "Recurrencia a resolver, como 'T(n) = 2T(n/2) + O(n)'"⟩]
  | summation => [⟨"summation", "string", "Sumatoria a simplificar, como 'Σ(i=1 to n) i'"⟩]
  | substitution =>
      [⟨"recurrence", "string", "Recurrencia lineal, como 'T(n) = T(n-1) + O(1)'"⟩]
  | recursionTree =>
      [⟨"recurrence", "string", "Recurrencia a analizar, como 'T(n) = 2T(n/2) + O(n)'"⟩]

/-- A tool as it is told to the model. -/
def definition (t : Tool) : Value :=
  .dict [("name", .str t.name), ("description", .str t.description),
    ("input_schema", .dict [("type", .str "object"),
      ("properties", .dict (t.parameters.map fun p =>
        (p.name, .dict [("type", .str p.type), ("description", .str p.description)]))),
      ("required", .list (t.parameters.map fun p => .str p.name))])]

end Tool

end Ordo
