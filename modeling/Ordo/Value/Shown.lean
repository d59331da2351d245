import Ordo.Value.Access

namespace Ordo.Value

/-!
# Values that can be shown

The text of a syntax node tells the size of some of its fields.  A node whose field has no size
has no text, and neither has a value that such a node is part of.

* `fault?` — why a value cannot be shown;
* `shown` — the text of a value that can be shown;
* `outline` — a syntax tree as indented lines;
* `summaries` — the written forms of all nodes of a tree, parents first.
-/

/-- Why a value has no size. -/
def sizeFault? : Value → Option AccessError
  | str _ | token _ _ | list _ | tuple _ | dict _ => Option.none
  | v => some (.notSized v.className)

/-- Why a value has no beginning that could be shown. -/
def sliceFault? : Value → Option AccessError
  | str _ | token _ _ | list _ | tuple _ => Option.none
  | dict _ => some (.notKey "slice")
  | v => some (.notSubscriptable v.className)

mutual

/-- Why a value cannot be shown, if it cannot: what is met first on the way through it. -/
def fault? : Value → Option AccessError
  | tree r cs => (fault? r).or (faultIn? cs)
  | list xs => faultIn? xs
  | tuple xs => faultIn? xs
  | dict es => entryFault? es
  | node k fs => nodeFault? k fs
  | _ => Option.none

/-- Why one of several values cannot be shown. -/
def faultIn? : List Value → Option AccessError
  | [] => Option.none
  | v :: vs => (fault? v).or (faultIn? vs)

/-- Why one of the first `n` values cannot be shown. -/
def faultAmong? (n : Nat) : List Value → Option AccessError
  | [] => Option.none
  | v :: vs => if n = 0 then Option.none else (fault? v).or (faultAmong? (n - 1) vs)

/-- Why one of the entries of a dictionary cannot be shown. -/
def entryFault? : List (String × Value) → Option AccessError
  | [] => Option.none
  | (_, v) :: es => (fault? v).or (entryFault? es)

/-- Why a node cannot be shown. -/
def nodeFault? : Kind → List Value → Option AccessError
  | .program, [classes, algorithm] => classes.sizeFault?.or (fault? algorithm)
  | .algorithm, [subroutines, _] => subroutines.sizeFault?
  | .subroutine, [name, parameters, _, _] => (fault? name).or parameters.sizeFault?
  | .mainAlgorithm, [_, body] => body.sizeFault?
  | .repeatLoop, [body, _] => body.sizeFault?
  | .block, [statements] => statements.sizeFault?
  | .callStatement, [name, arguments] => arguments.sizeFault?.or (fault? name)
  | .functionCall, [name, arguments] => arguments.sizeFault?.or (fault? name)
  | .comment, [list xs] => faultAmong? commentLength xs
  | .comment, [tuple xs] => faultAmong? commentLength xs
  | .comment, [text] => text.sliceFault?
  | .parameter, [name, type, _, _] => (fault? name).or (fault? type)
  | .declaration, [name, type, _, _] => (fault? name).or (fault? type)
  | .forLoop, [name, start, stop, _] => (fault? name).or ((fault? start).or (fault? stop))
  | .whileLoop, [condition, _] => fault? condition
  | .ifStatement, _ => Option.none
  | .var, [name, indices, field, _, isRange, start, stop] =>
      if indices.isTrue then fault? name
      else if field.isTrue then (fault? name).or (fault? field)
      else if isRange.isTrue then (fault? name).or ((fault? start).or (fault? stop))
      else fault? name
  | .binaryOp, [operator, left, right] => (fault? left).or ((fault? operator).or (fault? right))
  | _, [v] => fault? v
  | _, [v, w] => (fault? v).or (fault? w)
  | _, _ => Option.none

end

/-- The text of a value that can be shown. -/
def shown (v : Value) : Except AccessError String :=
  match v.fault? with
  | some e => .error e
  | Option.none => .ok v.text

/-- The size of a value that has one. -/
def sizeText (v : Value) : Except AccessError String :=
  match v.sizeFault? with
  | some e => .error e
  | Option.none => .ok (toString v.size)

/-! ### Outlines -/

/-- Two spaces for each level. -/
def indentation (level : Nat) : String := String.ofList (List.replicate (2 * level) ' ')

/-- The line of a text. -/
def textLine (level : Nat) (s : String) : String := indentation level ++ "str: " ++ s ++ "\n"

mutual

/-- A syntax tree as lines, each indented by its level.  Program parts, blocks, loops over
    ranges, assignments and binary operations are opened; any other node is summarised. -/
def outlineAt (level : Nat) : Value → Except AccessError String
  | node .program [classes, algorithm] => do
      let rest ← outlineItems (level + 1) classes
      return indentation level ++ "Program\n" ++ rest ++ (← outlineAt (level + 1) algorithm)
  | node .algorithm [subroutines, main] => do
      let rest ← outlineItems (level + 1) subroutines
      return indentation level ++ "Algorithm\n" ++ rest ++ (← outlineAt (level + 1) main)
  | node .mainAlgorithm [_, body] => do
      let size ← body.sizeText
      return indentation level ++ "MainAlgorithm (" ++ size ++ " statements)\n"
        ++ (← outlineItems (level + 1) body)
  | node .forLoop [name, start, stop, body] => do
      let name ← name.shown
      let start ← start.shown
      let stop ← stop.shown
      return indentation level ++ "ForLoop (" ++ name ++ ": " ++ start ++ " to " ++ stop ++ ")\n"
        ++ (← outlineAt (level + 1) body)
  | node .block [statements] => do
      let size ← statements.sizeText
      return indentation level ++ "Block (" ++ size ++ " statements)\n"
        ++ (← outlineItems (level + 1) statements)
  | node .assignment [target, value] => do
      let target ← outlineAt 0 target
      return indentation level ++ "Assignment\n"
        ++ indentation level ++ "  Variable: " ++ target
        ++ indentation level ++ "  Value: " ++ (← outlineAt 0 value)
  | node .binaryOp [operator, left, right] => do
      let operator ← operator.shown
      let left ← outlineAt (level + 1) left
      return indentation level ++ "BinaryOp (" ++ operator ++ ")\n" ++ left
        ++ (← outlineAt (level + 1) right)
  | v => do return indentation level ++ v.className ++ ": " ++ (← v.shown) ++ "\n"

/-- The lines of the items of a value. -/
def outlineItems (level : Nat) : Value → Except AccessError String
  | list xs => outlineAll level xs
  | tuple xs => outlineAll level xs
  | dict es => .ok (String.join (es.map fun e => textLine level e.1))
  | str s => .ok (String.join (s.toList.map fun c => textLine level (String.singleton c)))
  | token _ s => .ok (String.join (s.toList.map fun c => textLine level (String.singleton c)))
  | v => .error (.notIterable v.className)

/-- The lines of several values. -/
def outlineAll (level : Nat) : List Value → Except AccessError String
  | [] => .ok ""
  | v :: vs => do
      let first ← outlineAt level v
      return first ++ (← outlineAll level vs)

end

/-- A syntax tree as indented lines. -/
def outline (v : Value) : Except AccessError String := outlineAt 0 v

mutual

/-- The written forms of all nodes in a value, parents first. -/
def summaries : Value → Except AccessError (List String)
  | node k fs => do
      let first ← (node k fs).shown
      return first :: (← summariesAll fs)
  | list xs => summariesAll xs
  | _ => .ok []

/-- The written forms of all nodes in several values. -/
def summariesAll : List Value → Except AccessError (List String)
  | [] => .ok []
  | v :: vs => do
      let first ← summaries v
      return first ++ (← summariesAll vs)

end

end Ordo.Value
