namespace Ordo.Prompt

/-!
# The prompt for equations

* `resolution` — asks for the bounds of an equation.
-/

/-- Asks for the bounds of the equation of a case. -/
def resolution (equation kind : String) : String :=
  String.intercalate "\n" [
    "Eres un experto en análisis de algoritmos. Tu tarea es resolver la siguiente ecuación "
      ++ "de complejidad y proporcionar las notaciones O (Big-O), Ω (Omega) y Θ (Theta).",
    "",
    "**Ecuación a resolver (" ++ kind ++ " case):**",
    equation,
    "",
    "**Instrucciones OBLIGATORIAS:**",
    "",
    "1. **IDENTIFICA el tipo de ecuación:**",
    "   - ¿Es T(n) = aT(n/b) + f(n)? → USA apply_master_theorem",
    "   - ¿Es T(n) = T(n-k) + f(n)? → USA solve_by_substitution",
    "   - ¿Es Σ(...)? → USA simplify_summation",
    "   - ¿Es O(1) o constante? → análisis directo (no necesitas tool)",
    "",
    "2. **DEBES USAR UNA TOOL** (excepto para O(1)):",
    "   - NO intentes resolver manualmente",
    "   - SIEMPRE llama a la tool apropiada primero",
    "   - Usa el resultado de la tool para construir tu respuesta",
    "",
    "3. **Calcula las tres notaciones:**",
    "   - **O (Big-O)**: Cota superior",
    "   - **Ω (Omega)**: Cota inferior  ",
    "   - **Θ (Theta)**: Cota ajustada (solo si O = Ω)",
    "",
    "4. **Devuelve el resultado en formato JSON** con esta estructura:",
    "```json",
    "\x7b",
    "    \"O\": \"O(...)\",",
    "    \"Omega\": \"Ω(...)\",",
    "    \"Theta\": \"Θ(...)\" o null,",
    "    \"is_tight_bound\": true/false,",
    "    \"method\": \"nombre_del_metodo\",",
    "    \"steps\": [\"paso 1\", \"paso 2\", ...],",
    "    \"explanation\": \"Explicación narrativa completa\"",
    "\x7d",
    "```",
    "",
    "**IMPORTANTE:**",
    "- Para O y Ω, SIEMPRE deben tener el mismo orden si la ecuación es determinística",
    "- is_tight_bound = true si O = Ω (entonces existe Theta)",
    "- Los steps deben ser detallados y mostrar el razonamiento matemático",
    "- La explanation debe ser narrativa y académica",
    "- El method debe ser uno de: \"teorema_maestro\", \"sustitucion\", \"arbol_recursion\", "
      ++ "\"analisis_directo\", \"simplificacion_sumatorias\", \"unknown\"",
    "",
    "Comienza el análisis."]

end Ordo.Prompt
