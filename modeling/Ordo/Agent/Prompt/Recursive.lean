namespace Ordo.Prompt

/-!
# The prompt for recursive algorithms

* `recursive` — asks for the recurrence equations of a subroutine.
-/

/-- Asks for the recurrence equations of the named subroutine, whose syntax tree is given as
    JSON. -/
def recursive (tree name : String) : String :=
  String.intercalate "\n" [
    "",
    "Eres un experto en análisis de complejidad de algoritmos RECURSIVOS.",
    "",
    "Tu tarea es analizar la siguiente función recursiva y extraer las ecuaciones de "
      ++ "recurrencia para los casos:",
    "- Best case (mejor caso)",
    "- Worst case (peor caso)  ",
    "- Average case (caso promedio)",
    "",
    "**IMPORTANTE:** NO resuelvas las ecuaciones. Solo EXTRÁELAS del código.",
    "",
    "**AST de la función:**",
    "```json",
    tree,
    "```",
    "",
    "**Nombre de la función:** " ++ name,
    "",
    "**Tools disponibles:**",
    "Tienes acceso a las siguientes tools para analizar el AST con precisión:",
    "",
    "1. `find_recursive_calls(subroutine)` ",
    "   - Encuentra todas las llamadas recursivas",
    "   - Retorna: número de llamadas, posiciones, argumentos",
    "",
    "2. `detect_base_case(subroutine)`",
    "   - Detecta el caso base (condición de parada)",
    "   - Retorna: condición, valor de retorno, posición",
    "",
    "3. `analyze_recursion_parameter(subroutine, param_name)`",
    "   - Analiza cómo se reduce el parámetro",
    "   - Retorna: patrón (n-1, n/2, n/b), factor de reducción",
    "",
    "4. `detect_conditionals(subroutine)`",
    "   - Detecta IFs que pueden generar diferentes casos",
    "   - Retorna: condiciones, qué caminos tienen recursión",
    "",
    "**Instrucciones:**",
    "",
    "1. USA las tools para analizar el AST (no adivines del JSON)",
    "2. Identifica el caso base: T(0) = ? o T(1) = ?",
    "3. Para cada caso (best/worst/average):",
    "   - Identifica cuántas llamadas recursivas hay",
    "   - Identifica el parámetro de reducción (n-1, n/2, etc.)",
    "   - Identifica el trabajo adicional f(n)",
    "   - Construye la ecuación: T(n) = a*T(n/b) + f(n)",
    "",
    "4. Si NO hay diferencia entre casos (misma ecuación para todos), usa la misma ecuación",
    "",
    "5. Retorna un JSON con esta estructura EXACTA:",
    "```json",
    "\x7b",
    "  \"best_case\": \x7b",
    "    \"function\": \"T(n) = ...\",",
    "    \"base_case\": \"T(0) = ... o T(1) = ...\",",
    "    \"description\": \"Breve explicación de cuándo ocurre este caso\"",
    "  \x7d,",
    "  \"worst_case\": \x7b",
    "    \"function\": \"T(n) = ...\",",
    "    \"base_case\": \"T(0) = ... o T(1) = ...\",",
    "    \"description\": \"Breve explicación de cuándo ocurre este caso\"",
    "  \x7d,",
    "  \"average_case\": \x7b",
    "    \"function\": \"T(n) = ...\",",
    "    \"base_case\": \"T(0) = ... o T(1) = ...\",",
    "    \"description\": \"Breve explicación de cuándo ocurre este caso\"",
    "  \x7d",
    "\x7d",
    "```",
    "",
    "**Ejemplos de ecuaciones que debes extraer:**",
    "",
    "- Factorial: T(n) = T(n-1) + O(1), T(0) = O(1)",
    "- Fibonacci recursivo: T(n) = T(n-1) + T(n-2) + O(1), T(0) = T(1) = O(1)",
    "- Merge Sort: T(n) = 2T(n/2) + O(n), T(1) = O(1)",
    "- Binary Search: T(n) = T(n/2) + O(1), T(1) = O(1)",
    "",
    "**RECUERDA:** Solo extrae las ecuaciones. NO las resuelvas. NO calcules la complejidad "
      ++ "O(), Ω(), Θ().",
    "",
    "Comienza usando las tools para analizar el AST.",
    ""]

end Ordo.Prompt
