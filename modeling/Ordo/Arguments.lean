import Ordo.Value.Basic

namespace Ordo

/-!
# Arguments

A procedure that is asked for by name is given its arguments in a row or by name, and they have
to fit its parameters.

* `ArgumentError`, `ArgumentError.message` — how arguments do not fit;
* `Signature` — the parameters of a procedure, of which the last may have a default;
* `Signature.inOrder`, `Signature.byName` — the arguments for the parameters.
-/

/-- How arguments do not fit the parameters of a procedure. -/
inductive ArgumentError
  | unexpected (procedure name : String)
  /-- An argument is given that is fixed already. -/
  | fixed (procedure name : String)
  | missing (procedure : String) (names : List String)
  | tooMany (procedure : String) (least most given : Nat)
  /-- Arguments by name are given as something of the named class. -/
  | notNamed (procedure className : String)
  deriving DecidableEq, Repr

/-- A name in quotes. -/
def quotedName (s : String) : String := "'" ++ s ++ "'"

/-- Names in quotes, with an "and" before the last. -/
def listNames : List String → String
  | [] => ""
  | [a] => quotedName a
  | [a, b] => quotedName a ++ " and " ++ quotedName b
  | [a, b, c] => quotedName a ++ ", " ++ quotedName b ++ ", and " ++ quotedName c
  | a :: rest => quotedName a ++ ", " ++ listNames rest

/-- A number of arguments; the plural is used unless there is exactly one. -/
def positional (number : String) (one : Bool) : String :=
  number ++ " positional " ++ if one then "argument" else "arguments"

/-- What is said about arguments that do not fit. -/
def ArgumentError.message : ArgumentError → String
  | unexpected procedure name =>
      procedure ++ "() got an unexpected keyword argument " ++ quotedName name
  | fixed procedure name =>
      procedure ++ "() got multiple values for argument " ++ quotedName name
  | missing procedure names =>
      procedure ++ "() missing " ++ toString names.length ++ " required positional "
        ++ (if names.length = 1 then "argument" else "arguments") ++ ": " ++ listNames names
  | tooMany procedure least most given =>
      procedure ++ "() takes "
        ++ (if least = most then positional (toString most) (most == 1)
          else positional ("from " ++ toString least ++ " to " ++ toString most) false)
        ++ " but " ++ toString given ++ " were given"
  | notNamed procedure className =>
      procedure ++ "() argument after ** must be a mapping, not " ++ className

/-- The parameters of a procedure.  Those with a default come last. -/
structure Signature where
  /-- The name by which the procedure is called when its arguments do not fit. -/
  procedure : String
  required : List String
  defaults : List Value := []

namespace Signature

/-- The most arguments that a procedure takes. -/
def most (g : Signature) : Nat := g.required.length + g.defaults.length

/-- The arguments for the parameters, given in a row. -/
def inOrder (g : Signature) (arguments : List Value) : Except ArgumentError (List Value) :=
  if g.most < arguments.length then
    .error (.tooMany g.procedure g.required.length g.most arguments.length)
  else
    match g.required.drop arguments.length with
    | [] => .ok (arguments ++ g.defaults.drop (arguments.length - g.required.length))
    | missing => .error (.missing g.procedure missing)

/-- The arguments for the parameters, given by name.  Those in `taken` must not be given. -/
def byName (g : Signature) (taken : List String) (arguments : List (String × Value)) :
    Except ArgumentError (List Value) :=
  match arguments.find? fun a => !g.required.contains a.1 with
  | some (name, _) =>
      if taken.contains name then .error (.fixed g.procedure name)
      else .error (.unexpected g.procedure name)
  | none =>
      match g.required.filter fun n => (arguments.lookup n).isNone with
      | [] => .ok (g.required.map fun n => (arguments.lookup n).getD .none)
      | missing => .error (.missing g.procedure missing)

end Signature

end Ordo
