import Ordo.Program.Text
import Ordo.Value.Shown

namespace Ordo.Value

/-!
# Data that are no programs

Data may lack the shape of a program: a block may be missing, arguments may be no list.  An
analysis fails at the first place where it cannot go on, and each analysis goes its own way.

* `shortFault?`, `fullFault?` — why it cannot be told what an expression is shown as;
* `shortForm`, `fullForm` — what an expression is shown as, if it can be told;
* `formFault?` — why what an expression is shown as has no text;
* `Walk`, `walkFault?` — why a walk through statements fails;
* `unlessFault` — a result, unless there is a fault.
-/

/-- A result, unless there is a fault. -/
def unlessFault {α : Type} (fault : Option AccessError) (result : α) : Except AccessError α :=
  match fault with
  | some e => .error e
  | Option.none => .ok result

/-- Why the items of a value cannot be gone through. -/
def iterateFault? : Value → Option AccessError
  | list _ | tuple _ | dict _ | str _ | token _ _ => Option.none
  | v => some (.notIterable v.className)

/-! ### Texts of expressions -/

/-- Why what an expression is shown as has no text. -/
def formFault? (form : Expr → Name) (v : Value) : Option AccessError :=
  (form (Expr.ofValue v)).toValue.fault?

/-- Why expressions cannot be joined: one of them, counted from `index`, is shown as something
    that is no text. -/
def joinFault? (form : Expr → Name) (index : Nat) : List Value → Option AccessError
  | [] => Option.none
  | v :: vs =>
      let shown := (form (Expr.ofValue v)).toValue
      match shown.text? with
      | some _ => joinFault? form (index + 1) vs
      | Option.none => some (.notText index shown.className)

mutual

/-- Why it cannot be told what an expression is shown as in reports. -/
def shortFault? : Value → Option AccessError
  | node .number [v] => v.fault?
  | node .var _ => Option.none
  | node .binaryOp [operator, left, right] =>
      (shortFault? left).or ((shortFault? right).or ((left.formFault? Expr.shortForm).or
        (operator.fault?.or (right.formFault? Expr.shortForm))))
  | node .unaryOp [operator, operand] =>
      (shortFault? operand).or (operator.fault?.or (operand.formFault? Expr.shortForm))
  | node .functionCall [name, arguments] => (shortItemsFault? arguments).or name.fault?
  | v => v.fault?

/-- Why the items of a value cannot be shown in reports with commas between them. -/
def shortItemsFault? : Value → Option AccessError
  | list xs => (shortFaultIn? xs).or (joinFault? Expr.shortForm 0 xs)
  | tuple xs => (shortFaultIn? xs).or (joinFault? Expr.shortForm 0 xs)
  | v => v.iterateFault?

/-- Why one of several expressions cannot be shown in reports. -/
def shortFaultIn? : List Value → Option AccessError
  | [] => Option.none
  | v :: vs => (shortFault? v).or (shortFaultIn? vs)

end

/-- Why nothing can be written after a name: it is neither a text nor a list. -/
def suffixFault? : Value → Option AccessError
  | str _ | token _ _ | list _ => Option.none
  | name => some (.badOperands "+=" name.className "str")

mutual

/-- Why it cannot be told what an expression is shown as in diagrams. -/
def fullFault? : Value → Option AccessError
  | node .number [v] => v.fault?
  | node .boolean _ => Option.none
  | node .var [name, indices, field, _, ranged, start, stop] =>
      let indexed :=
        if indices.isTrue then (fullItemsFault? indices).or name.suffixFault? else Option.none
      let chosen := if field.isTrue then field.fault?.or name.suffixFault? else Option.none
      let limited :=
        if ranged.isTrue then
          (fullFault? start).or ((fullFault? stop).or ((start.formFault? Expr.fullForm).or
            ((stop.formFault? Expr.fullForm).or name.suffixFault?)))
        else Option.none
      indexed.or (chosen.or limited)
  | node .binaryOp [operator, left, right] =>
      (fullFault? left).or ((fullFault? right).or ((left.formFault? Expr.fullForm).or
        (operator.fault?.or (right.formFault? Expr.fullForm))))
  | node .unaryOp [operator, operand] =>
      (fullFault? operand).or (operator.fault?.or (operand.formFault? Expr.fullForm))
  | node .functionCall [name, arguments] => (fullItemsFault? arguments).or name.fault?
  | node .length [operand] => (fullFault? operand).or (operand.formFault? Expr.fullForm)
  | node .ceiling [operand] => (fullFault? operand).or (operand.formFault? Expr.fullForm)
  | node .floor [operand] => (fullFault? operand).or (operand.formFault? Expr.fullForm)
  | v => v.fault?

/-- Why the items of a value cannot be shown in diagrams with something between them. -/
def fullItemsFault? : Value → Option AccessError
  | list xs => (fullFaultIn? xs).or (joinFault? Expr.fullForm 0 xs)
  | tuple xs => (fullFaultIn? xs).or (joinFault? Expr.fullForm 0 xs)
  | v => v.iterateFault?

/-- Why one of several expressions cannot be shown in diagrams. -/
def fullFaultIn? : List Value → Option AccessError
  | [] => Option.none
  | v :: vs => (fullFault? v).or (fullFaultIn? vs)

end

/-- An expression as reports show it. -/
def shortForm (v : Value) : Except AccessError Value :=
  unlessFault v.shortFault? (Expr.ofValue v).shortForm.toValue

/-- An expression as diagrams show it. -/
def fullForm (v : Value) : Except AccessError Value :=
  unlessFault v.fullFault? (Expr.ofValue v).fullForm.toValue

/-- The items of a value as reports show them. -/
def shortForms (v : Value) : Except AccessError (List Value) := do
  (← v.iterate).mapM shortForm

/-! ### Walks -/

/-- A way through statements: what may go wrong at a statement before its parts are entered,
    and whether repeat loops are entered. -/
structure Walk where
  visit : Value → Option AccessError
  entersRepeat : Bool

/-- Why repeat loops cannot be entered. -/
def repeatFault : AccessError := .noAttribute Kind.repeatLoop.name "statements"

mutual

/-- Why a walk fails at a statement. -/
def walkFault? (w : Walk) : Value → Option AccessError
  | node .forLoop [name, start, stop, body] =>
      (w.visit (node .forLoop [name, start, stop, body])).or (blockFault? w body)
  | node .whileLoop [condition, body] =>
      (w.visit (node .whileLoop [condition, body])).or (blockFault? w body)
  | node .repeatLoop fs =>
      (w.visit (node .repeatLoop fs)).or
        (if w.entersRepeat then some repeatFault else Option.none)
  | node .ifStatement [condition, body, otherwise] =>
      (w.visit (node .ifStatement [condition, body, otherwise])).or
        ((blockFault? w body).or
          (if otherwise.isTrue then blockFault? w otherwise else Option.none))
  | v => w.visit v

/-- Why a walk fails at a block. -/
def blockFault? (w : Walk) : Value → Option AccessError
  | node .block [statements] => bodyFault? w statements
  | v => some (.noAttribute v.className "statements")

/-- Why a walk fails among the items of a value. -/
def bodyFault? (w : Walk) : Value → Option AccessError
  | list xs => walkFaultIn? w xs
  | tuple xs => walkFaultIn? w xs
  | v => v.iterateFault?

/-- Why a walk fails among several statements. -/
def walkFaultIn? (w : Walk) : List Value → Option AccessError
  | [] => Option.none
  | v :: vs => (walkFault? w v).or (walkFaultIn? w vs)

end

/-- A walk that only goes through statements. -/
def Walk.plain : Walk := ⟨fun _ => Option.none, true⟩

end Ordo.Value
