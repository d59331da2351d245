namespace Ordo.Prompt

/-!
# The prompt for iterative algorithms

* `iterative` — asks for the sums of a subroutine.
-/

/-- Asks for the sums of the named subroutine, whose syntax tree is given as JSON. -/
def iterative (tree name : String) : String :=
  String.intercalate "\n" [
    "",
    "Eres un experto en análisis de complejidad de algoritmos ITERATIVOS.",
    "",
    "Tu tarea es analizar la siguiente función iterativa y extraer las funciones de "
      ++ "eficiencia (sumatorias) para los casos:",
    "- Best case (mejor caso)",
    "- Worst case (peor caso)  ",
    "- Average case (caso promedio)",
    "",
    "**IMPORTANTE:** NO resuelvas las sumatorias. Solo EXTRÁELAS del código.",
    "",
    "**AST de la función:**",
    "```json",
    tree,
    "```",
    "",
    "**Nombre de la función:** " ++ name,
    "",
    "**Tools disponibles:**",
    "Tienes acceso a las siguientes tools para analizar el AST con precisión:",
    "",
    "1. `analyze_loops(subroutine)` ",
    "   - Analiza todos los loops en el algoritmo",
    "   - Retorna: tipo (FOR/WHILE/REPEAT), bounds (inicio, fin), nivel de anidamiento",
    "",
    "2. `count_operations_in_loop(loop_body)`",
    "   - Cuenta operaciones dentro de un loop",
    "   - Retorna: número de operaciones por iteración",
    "",
    "3. `detect_conditionals(subroutine)`",
    "   - Detecta IFs que pueden generar diferentes casos",
    "   - Retorna: condiciones, posiciones",
    "",
    "**Instrucciones:**",
    "",
    "1. USA las tools para analizar el AST (no adivines del JSON)",
    "",
    "2. Para cada loop:",
    "   - Identifica el rango: de dónde a dónde itera (ej: i=1 to n)",
    "   - Identifica cuántas operaciones hay por iteración",
    "   - Si hay loops anidados, construye sumatorias anidadas",
    "",
    "3. Para cada caso (best/worst/average):",
    "   - Si hay condicionales (IF), determina cuándo se ejecuta más/menos código",
    "   - Construye la sumatoria que representa el trabajo total",
    "   - Formato: Σ(i=inicio to fin) costo_por_iteracion",
    "",
    "4. Si NO hay diferencia entre casos (misma sumatoria para todos), usa la misma",
    "",
    "5. Retorna un JSON con esta estructura EXACTA:",
    "```json",
    "\x7b",
    "  \"best_case\": \x7b",
    "    \"function\": \"Σ(...) o expresión matemática\",",
    "    \"description\": \"Breve explicación de cuándo ocurre este caso\"",
    "  \x7d,",
    "  \"worst_case\": \x7b",
    "    \"function\": \"Σ(...) o expresión matemática\",",
    "    \"description\": \"Breve explicación de cuándo ocurre este caso\"",
    "  \x7d,",
    "  \"average_case\": \x7b",
    "    \"function\": \"Σ(...) o expresión matemática\",",
    "    \"description\": \"Breve explicación de cuándo ocurre este caso\"",
    "  \x7d",
    "\x7d",
    "```",
    "",
    "**Ejemplos de funciones que debes extraer:**",
    "",
    "- Loop simple: Σ(i=1 to n) O(1) ",
    "- Loops anidados: Σ(i=1 to n) Σ(j=1 to i) O(1)",
    "- Loop con condición: ",
    "  - Best: Σ(i=1 to n) O(1)  (no entra al IF)",
    "  - Worst: Σ(i=1 to n) O(n)  (siempre entra al IF con loop interno)",
    "- Loop logarítmico: Σ(i=1 to log(n)) O(1)  (cuando i *= 2)",
    "",
    "**Notación:**",
    "- Usa Σ() para sumatorias",
    "- Usa O(1), O(n), O(log n) para representar costos",
    "- Si el bound del loop es variable (ej: j=1 to i), menciónalo en la sumatoria",
    "",
    "**RECUERDA:** Solo extrae las sumatorias. NO las resuelvas. NO calcules la complejidad "
      ++ "O(), Ω(), Θ().",
    "",
    "Comienza usando las tools para analizar el AST.",
    ""]

end Ordo.Prompt
