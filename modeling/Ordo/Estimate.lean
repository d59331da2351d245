import Ordo.Value.Access

namespace Ordo

/-!
# Rough estimates

* `estimate` — bounds that are linear in the number of assignments in a block.
-/

/-- The assignments in a block; none in anything else. -/
def assignmentCount (v : Value) : Except AccessError Nat :=
  match v.field? "statements" with
  | some statements => do
      return (← statements.iterate).countP fun s => s.isKind .assignment
  | none => .ok 0

/-- A rough estimate as data. -/
def estimate (v : Value) : Except AccessError Value := do
  let count ← assignmentCount v
  return .dict [
    ("bounds", .dict [("big_o", .str "O(n)"), ("big_omega", .str "Ω(n)"),
      ("big_theta", .str "Θ(n)"), ("strong_bounds", .none)]),
    ("steps", .list [
      .str ("Se detectaron " ++ toString count ++ " asignaciones en el bloque principal."),
      .str ("Asumiendo costo constante por asignación, el costo total es "
        ++ "proporcional a n (número de sentencias).")]),
    ("artifacts", .dict [])]

end Ordo
