namespace Ordo.Prompt

/-!
# The prompt for programs

* `languageGuide`, `samples` — the language, and programs in it;
* `correction` — what is said about a mistake;
* `drafting` — asks for a program.
-/

/-- The line around a heading. -/
def doubleRule : String := "".pushn '═' 67

/-- The line under the name of a sample. -/
def singleRule : String := "".pushn '─' 67

/-- The rules of the language. -/
def languageGuide : String :=
  String.intercalate "\n" [
    "",
    "GRAMÁTICA COMPLETA (basada en grammar.lark):",
    "",
    doubleRule,
    "1. ESTRUCTURA GENERAL DEL PROGRAMA",
    doubleRule,
    "",
    "programa ::= [definiciones_de_clases]* [definiciones_de_subrutinas]* algoritmo_principal",
    "",
    "algoritmo_principal ::= ",
    "    begin",
    "        [sentencias]*",
    "    end",
    "",
    "definición_de_subrutina ::=",
    "    nombre_subrutina(parámetros)",
    "    begin",
    "        [sentencias]*",
    "    end",
    "",
    doubleRule,
    "2. DEFINICIÓN DE CLASES (opcional, antes de subrutinas)",
    doubleRule,
    "",
    "clase ::= NombreClase \x7b atributo1 atributo2 ... \x7d",
    "",
    "Ejemplo:",
    "    Casa \x7b area color propietario \x7d",
    "",
    doubleRule,
    "3. PARÁMETROS DE SUBRUTINAS",
    doubleRule,
    "",
    "parámetro_array ::= nombre[] ",
    "                 | nombre[n]",
    "                 | nombre[n]..[m]",
    "",
    "parámetro_objeto ::= NombreClase nombre_objeto",
    "",
    "parámetro_simple ::= nombre",
    "",
    "Ejemplos:",
    "    buscar(A[], x, n)",
    "    procesar(matriz[10][10], Casa miCasa, valor)",
    "",
    doubleRule,
    "4. SENTENCIAS (statements)",
    doubleRule,
    "",
    "Las siguientes sentencias son válidas:",
    "",
    "a) Declaraciones:",
    "   - Arrays: nombre[tamaño]",
    "   - Objetos: NombreClase nombre_objeto",
    "   ",
    "   Ejemplos:",
    "   A[100]",
    "   resultado[50]",
    "   Casa miCasa",
    "",
    "b) Asignaciones:",
    "   variable := expresión",
    "   ",
    "   Ejemplos:",
    "   x := 5",
    "   suma := suma + A[i]",
    "   miCasa.color := \"rojo\"",
    "",
    "c) Loops FOR:",
    "   for variable := inicio to fin do",
    "   begin",
    "       [sentencias]",
    "   end",
    "   ",
    "   Ejemplo:",
    "   for i := 1 to n do",
    "   begin",
    "       suma := suma + A[i]",
    "   end",
    "",
    "d) Loops WHILE:",
    "   while (condición) do",
    "   begin",
    "       [sentencias]",
    "   end",
    "   ",
    "   Ejemplo:",
    "   while (i < n) do",
    "   begin",
    "       i := i + 1",
    "   end",
    "",
    "e) Loops REPEAT:",
    "   repeat",
    "       [sentencias]",
    "   until (condición)",
    "   ",
    "   Ejemplo:",
    "   repeat",
    "       i := i + 1",
    "   until (i >= n)",
    "",
    "f) Condicionales IF:",
    "   if (condición) then",
    "   begin",
    "       [sentencias]",
    "   end",
    "   else",
    "   begin",
    "       [sentencias]",
    "   end",
    "   ",
    "   Nota: El else es opcional",
    "   ",
    "   Ejemplo:",
    "   if (x = 0) then",
    "   begin",
    "       return 1",
    "   end",
    "   else",
    "   begin",
    "       return x * factorial(x - 1)",
    "   end",
    "",
    "g) Llamadas a subrutinas:",
    "   call nombre_subrutina(argumentos)",
    "   ",
    "   O para asignar resultado:",
    "   variable := nombre_subrutina(argumentos)",
    "   ",
    "   Ejemplos:",
    "   call quicksort(A, 1, n)",
    "   resultado := buscar(A, x, n)",
    "",
    "h) Return:",
    "   return expresión",
    "   ",
    "   Ejemplo:",
    "   return A[i]",
    "",
    "i) Comentarios:",
    "   ► texto del comentario",
    "   ",
    "   Ejemplo:",
    "   ► Este es un comentario",
    "",
    doubleRule,
    "5. OPERADORES",
    doubleRule,
    "",
    "ASIGNACIÓN:",
    "    := (OBLIGATORIO, no usar =)",
    "",
    "COMPARACIÓN (en condiciones):",
    "    =   (igual)",
    "    !=  (diferente)  ← Usar != en lugar de <>",
    "    <   (menor)",
    "    >   (mayor)",
    "    <=  (menor o igual)",
    "    >=  (mayor o igual)",
    "",
    "ARITMÉTICOS:",
    "    +       (suma)",
    "    -       (resta)",
    "    *       (multiplicación)",
    "    /       (división real)",
    "    div     (división entera, NO usar //)",
    "    mod     (módulo, NO usar %)",
    "    ^       (potencia)",
    "",
    "LÓGICOS:",
    "    and     (y lógico)",
    "    or      (o lógico)",
    "    not     (negación)",
    "",
    "FUNCIONES ESPECIALES:",
    "    length(A)       (longitud de array)",
    "    ┌expresión┐     (techo/ceiling)",
    "    └expresión┘     (piso/floor)",
    "",
    doubleRule,
    "6. VARIABLES Y ACCESO A DATOS",
    doubleRule,
    "",
    "Variables simples:",
    "    x, suma, contador",
    "",
    "Arrays:",
    "    A[i]",
    "    matriz[i][j]",
    "    A[1..n]  (rango)",
    "",
    "Objetos:",
    "    miCasa.area",
    "    miCasa.color",
    "",
    "Arrays de objetos:",
    "    casas[i].area",
    "",
    doubleRule,
    "7. VALORES ESPECIALES",
    doubleRule,
    "",
    "Booleanos: T, F, true, false",
    "Nulo: NULL, null",
    "Números: 123, 45.67",
    "",
    doubleRule,
    "8. BLOQUES",
    doubleRule,
    "",
    "SIEMPRE usar begin...end para:",
    "- Cuerpo de subrutinas",
    "- Bloques de IF/ELSE",
    "- Cuerpos de loops FOR y WHILE",
    "- Algoritmo principal",
    "",
    "Ejemplo correcto:",
    "    if (x > 0) then",
    "    begin",
    "        y := x",
    "    end",
    "",
    "Ejemplo INCORRECTO:",
    "    if (x > 0) then",
    "        y := x",
    "",
    doubleRule,
    "9. REGLAS CRÍTICAS",
    doubleRule,
    "",
    "HACER:",
    "- Usar := para asignación",
    "- Usar = para comparación",
    "- Usar <> para diferente",
    "- Usar div para división entera",
    "- Usar mod para módulo",
    "- Siempre usar begin...end en bloques",
    "- Terminar con bloque principal begin...end",
    "",
    "NO HACER:",
    "- Usar = para asignación (es :=)",
    "- Usar != (es <>)",
    "- Usar == (es =)",
    "- Usar // o / para división entera (es div)",
    "- Usar % para módulo (es mod)",
    "- Omitir begin...end en bloques",
    "- Usar sintaxis de otros lenguajes (Python, C, Java)",
    ""]

/-- Programs in the language. -/
def samples : String :=
  String.intercalate "\n" [
    "",
    doubleRule,
    "EJEMPLOS VALIDADOS",
    doubleRule,
    "",
    "EJEMPLO 1: Búsqueda Lineal (iterativo con return temprano)",
    singleRule,
    "linear_search(A[], x, n)",
    "begin",
    "  for i := 1 to n do",
    "  begin",
    "    if (A[i] = x) then",
    "    begin",
    "      return i",
    "    end",
    "  end",
    "  return -1",
    "end",
    "",
    "begin",
    "  A[100]",
    "  resultado := linear_search(A, 42, 100)",
    "end",
    "",
    "EJEMPLO 2: Factorial (recursivo simple)",
    singleRule,
    "factorial(n)",
    "begin",
    "  if (n = 0) then",
    "  begin",
    "    return 1",
    "  end",
    "  else",
    "  begin",
    "    return n * factorial(n - 1)",
    "  end",
    "end",
    "",
    "begin",
    "  resultado := factorial(5)",
    "end",
    "",
    "EJEMPLO 3: Búsqueda Binaria (recursivo con múltiples parámetros)",
    singleRule,
    "binary_search(A[], x, low, high)",
    "begin",
    "  if (low > high) then",
    "  begin",
    "    return -1",
    "  end",
    "  ",
    "  mid := (low + high) div 2",
    "  ",
    "  if (A[mid] = x) then",
    "  begin",
    "    return mid",
    "  end",
    "  else",
    "  begin",
    "    if (A[mid] > x) then",
    "    begin",
    "      return binary_search(A, x, low, mid - 1)",
    "    end",
    "    else",
    "    begin",
    "      return binary_search(A, x, mid + 1, high)",
    "    end",
    "  end",
    "end",
    "",
    "begin",
    "  A[100]",
    "  resultado := binary_search(A, 42, 1, 100)",
    "end",
    "",
    "EJEMPLO 4: Bubble Sort (loops anidados con intercambio)",
    singleRule,
    "bubble_sort(A[], n)",
    "begin",
    "  for i := 1 to n do",
    "  begin",
    "    for j := 1 to n - 1 do",
    "    begin",
    "      if (A[j] > A[j + 1]) then",
    "      begin",
    "        temp := A[j]",
    "        A[j] := A[j + 1]",
    "        A[j + 1] := temp",
    "      end",
    "    end",
    "  end",
    "end",
    "",
    "begin",
    "  A[100]",
    "  call bubble_sort(A, 100)",
    "end",
    "",
    "EJEMPLO 5: Fibonacci (recursión múltiple)",
    singleRule,
    "fibonacci(n)",
    "begin",
    "  if (n <= 1) then",
    "  begin",
    "    return n",
    "  end",
    "  else",
    "  begin",
    "    return fibonacci(n - 1) + fibonacci(n - 2)",
    "  end",
    "end",
    "",
    "begin",
    "  resultado := fibonacci(10)",
    "end",
    "",
    "EJEMPLO 6: QuickSort (múltiples subrutinas, recursión)",
    singleRule,
    "partition(A[], low, high)",
    "begin",
    "  pivot := A[high]",
    "  i := low - 1",
    "  ",
    "  for j := low to high - 1 do",
    "  begin",
    "    if (A[j] <= pivot) then",
    "    begin",
    "      i := i + 1",
    "      temp := A[i]",
    "      A[i] := A[j]",
    "      A[j] := temp",
    "    end",
    "  end",
    "  ",
    "  temp := A[i + 1]",
    "  A[i + 1] := A[high]",
    "  A[high] := temp",
    "  ",
    "  return i + 1",
    "end",
    "",
    "quicksort(A[], low, high)",
    "begin",
    "  if (low < high) then",
    "  begin",
    "    pivot := partition(A, low, high)",
    "    call quicksort(A, low, pivot - 1)",
    "    call quicksort(A, pivot + 1, high)",
    "  end",
    "end",
    "",
    "begin",
    "  A[100]",
    "  call quicksort(A, 1, 100)",
    "end",
    ""]

/-- What is said about a mistake. -/
def mistake (error : String) : String :=
  String.intercalate "\n" [
    "",
    "  ERROR EN INTENTO ANTERIOR:",
    error,
    "",
    "IMPORTANTE: Corrige SOLO el error de sintaxis. La lógica está bien.",
    ""]

/-- What is said about the mistake of the last draft, if there is one. -/
def correction : Option String → String
  | some error => if error.isEmpty then "" else mistake error
  | none => ""

/-- Asks for a program that does what is described.  The last draft may have had a mistake. -/
def drafting (description : String) (previous : Option String) : String :=
  String.intercalate "\n" [
    languageGuide,
    "",
    samples,
    "",
    doubleRule,
    "INSTRUCCIONES FINALES",
    doubleRule,
    "",
    "1. Lee la descripción del usuario",
    "2. Identifica qué tipo de algoritmo es (recursivo, iterativo, etc.)",
    "3. Genera pseudocódigo siguiendo EXACTAMENTE las reglas de gramática",
    "4. Usa los ejemplos como referencia de estilo",
    "5. VERIFICA que uses := para asignación, = para comparación",
    "6. VERIFICA que todos los bloques tengan begin...end",
    "7. VERIFICA que el programa termine con begin...end principal",
    "",
    correction previous,
    "",
    "DESCRIPCIÓN DEL USUARIO:",
    description,
    "",
    "Genera SOLO el pseudocódigo completo y válido. Sin explicaciones adicionales.",
    ""]

end Ordo.Prompt
