import Ordo.Grammar.Terminal

namespace Ordo

/-!
# The grammar of pseudocode

A program is a list of class definitions, a list of subroutines and a main algorithm.
Rules are written as phrases with optional parts and repetition, and unfolded into plain
productions:

* `Rule`, `Repetition` — the named rules and the phrases that may repeat;
* `Phrase` — sequence, choice and option over terminals, rules and repetitions;
* `Rule.phrase`, `Repetition.phrase` — the grammar itself;
* `Production`, `Nonterminal.productions` — the plain productions it stands for.

No production is empty: an optional part is unfolded into one production with it and one
without it, and a repetition stands for one occurrence or more.
-/

/-- The rules that give a parse tree its nodes. -/
inductive Rule
  | start | program | classDefinition | attributeList | algorithm | mainAlgorithm
  | subroutineDefinition | parameterList | parameter | arrayParameter | objectParameter
  | simpleParameter | statement | declaration | arrayDeclaration | objectDeclaration
  | assignment | forLoop | whileLoop | repeatLoop | ifStatement | callStatement | argumentList
  | returnStatement | block | designator | range | expression | logicalOr | logicalAnd
  | logicalNot | comparison | compOp | arithmetic | term | factor | power | atom | length
  | ceiling | floor | functionCall | condition | comment
  deriving DecidableEq, Repr

/-- The phrases that may repeat.  They leave no node of their own in a parse tree. -/
inductive Repetition
  | classes | names | subroutines | statements | parameters | brackets | arguments | indices
  | disjuncts | conjuncts | comparisons | summands | multiplicands | exponents
  deriving DecidableEq, Repr

namespace Rule

/-- Every rule. -/
def all : List Rule :=
  [start, program, classDefinition, attributeList, algorithm, mainAlgorithm,
   subroutineDefinition, parameterList, parameter, arrayParameter, objectParameter,
   simpleParameter, statement, declaration, arrayDeclaration, objectDeclaration,
   assignment, forLoop, whileLoop, repeatLoop, ifStatement, callStatement, argumentList,
   returnStatement, block, designator, range, expression, logicalOr, logicalAnd,
   logicalNot, comparison, compOp, arithmetic, term, factor, power, atom, length,
   ceiling, floor, functionCall, condition, comment]

/-- The label of a rule's nodes. -/
def name : Rule → String
  | start => "start" | program => "program" | classDefinition => "class_definition"
  | attributeList => "attribute_list" | algorithm => "algorithm"
  | mainAlgorithm => "main_algorithm" | subroutineDefinition => "subroutine_definition"
  | parameterList => "parameter_list" | parameter => "parameter"
  | arrayParameter => "array_parameter" | objectParameter => "object_parameter"
  | simpleParameter => "simple_parameter" | statement => "statement"
  | declaration => "declaration" | arrayDeclaration => "array_declaration"
  | objectDeclaration => "object_declaration" | assignment => "assignment"
  | forLoop => "for_loop" | whileLoop => "while_loop" | repeatLoop => "repeat_loop"
  | ifStatement => "if_statement" | callStatement => "call_statement"
  | argumentList => "argument_list" | returnStatement => "return_statement"
  | block => "block" | designator => "variable" | range => "range"
  | expression => "expression" | logicalOr => "logical_or" | logicalAnd => "logical_and"
  | logicalNot => "logical_not" | comparison => "comparison" | compOp => "comp_op"
  | arithmetic => "arithmetic" | term => "term" | factor => "factor" | power => "power"
  | atom => "atom" | length => "length" | ceiling => "ceiling" | floor => "floor"
  | functionCall => "function_call" | condition => "condition" | comment => "comment"

end Rule

/-- What a production defines: a rule, or one or more occurrences of a repeatable phrase. -/
inductive Nonterminal
  | rule (r : Rule)
  | many (r : Repetition)
  deriving DecidableEq, Repr

/-- How many nonterminals there are. -/
def Nonterminal.count : Nat := 58

/-- A grammar symbol. -/
inductive Symbol
  | terminal (t : Terminal)
  | nonterminal (n : Nonterminal)
  deriving DecidableEq, Repr

/-- The right side of a rule. -/
inductive Phrase
  | symbol (s : Symbol)
  | seq (first second : Phrase)
  | choice (first second : Phrase)
  | opt (p : Phrase)

namespace Phrase

instance : Coe Terminal Phrase := ⟨fun t => .symbol (.terminal t)⟩
instance : Coe Rule Phrase := ⟨fun r => .symbol (.nonterminal (.rule r))⟩
instance : Coe Repetition Phrase := ⟨fun r => .symbol (.nonterminal (.many r))⟩

/-- The phrases in turn. -/
def inTurn (first : Phrase) (rest : List Phrase) : Phrase := rest.foldl seq first

/-- One of the phrases. -/
def oneOf (first : Phrase) (rest : List Phrase) : Phrase := rest.foldl choice first

/-- The symbol sequences a phrase stands for. -/
def expansions : Phrase → List (List Symbol)
  | symbol s => [[s]]
  | seq p q => p.expansions.flatMap fun xs => q.expansions.map (xs ++ ·)
  | choice p q => p.expansions ++ q.expansions
  | opt p => p.expansions ++ [[]]

end Phrase

open Phrase Terminal Rule Repetition

/-- The phrase that a repetition repeats. -/
def Repetition.phrase : Repetition → Phrase
  | classes => classDefinition
  | names => cname
  | subroutines => subroutineDefinition
  | statements => statement
  | parameters => inTurn comma [parameter]
  | brackets => inTurn lsqb [opt expression, rsqb]
  | arguments => inTurn comma [expression]
  | indices => inTurn lsqb [expression, rsqb]
  | disjuncts => inTurn kwOr [logicalAnd]
  | conjuncts => inTurn kwAnd [logicalNot]
  | comparisons => inTurn compOp [arithmetic]
  | summands => inTurn (oneOf plus [minus]) [term]
  | multiplicands => inTurn (oneOf star [slash, kwMod, kwDiv]) [factor]
  | exponents => inTurn circumflex [atom]

/-- The phrase that a rule stands for. -/
def Rule.phrase : Rule → Phrase
  | start => program
  | program => inTurn (opt classes) [algorithm]
  | classDefinition => inTurn cname [lbrace, attributeList, rbrace]
  | attributeList => names
  | algorithm => inTurn (opt subroutines) [mainAlgorithm]
  | mainAlgorithm => inTurn kwBegin [opt statements, kwEnd]
  | subroutineDefinition =>
      inTurn cname [lpar, opt parameterList, rpar, kwBegin, opt statements, kwEnd]
  | parameterList => inTurn parameter [opt parameters]
  | parameter => oneOf arrayParameter [objectParameter, simpleParameter]
  | arrayParameter => inTurn cname [brackets, opt (inTurn dots [lsqb, expression, rsqb])]
  | objectParameter => inTurn cname [cname]
  | simpleParameter => cname
  | statement =>
      oneOf (inTurn declaration [opt semicolon])
        [inTurn assignment [opt semicolon], forLoop, whileLoop, repeatLoop, ifStatement,
         inTurn callStatement [opt semicolon], inTurn returnStatement [opt semicolon],
         Rule.comment]
  | declaration => oneOf arrayDeclaration [objectDeclaration]
  | arrayDeclaration => inTurn cname [lsqb, expression, rsqb]
  | objectDeclaration => inTurn cname [cname]
  | assignment => inTurn designator [assign, expression]
  | forLoop => inTurn kwFor [cname, assign, expression, kwTo, expression, kwDo, block]
  | whileLoop => inTurn kwWhile [lpar, condition, rpar, kwDo, block]
  | repeatLoop => inTurn kwRepeat [statements, kwUntil, lpar, condition, rpar]
  | ifStatement =>
      inTurn kwIf [lpar, condition, rpar, kwThen, block, opt (inTurn kwElse [block])]
  | callStatement => inTurn kwCall [cname, lpar, opt argumentList, rpar]
  | argumentList => inTurn expression [opt arguments]
  | returnStatement => inTurn kwReturn [expression]
  | block => oneOf (inTurn kwBegin [opt statements, kwEnd]) [statement]
  | designator =>
      oneOf (inTurn cname [dot, cname, indices])
        [inTurn cname [dot, cname], inTurn cname [indices],
         inTurn cname [lsqb, Rule.range, rsqb], cname]
  | Rule.range => inTurn expression [dots, expression]
  | expression => logicalOr
  | logicalOr => inTurn logicalAnd [opt disjuncts]
  | logicalAnd => inTurn logicalNot [opt conjuncts]
  | logicalNot => oneOf (inTurn kwNot [logicalNot]) [comparison]
  | comparison => inTurn arithmetic [opt comparisons]
  | compOp =>
      oneOf lessThan
        [moreThan, atMost, atLeast, equal, differs, atMostSign, atLeastSign, differsSign]
  | arithmetic => inTurn term [opt summands]
  | term => inTurn factor [opt multiplicands]
  | factor => oneOf (inTurn (oneOf plus [minus]) [factor]) [power]
  | power => inTurn atom [opt exponents]
  | atom =>
      oneOf number
        [boolean, null, designator, functionCall, inTurn lpar [expression, rpar],
         ceiling, floor, Rule.length]
  | Rule.length => inTurn kwLength [lpar, designator, rpar]
  | ceiling => inTurn ceilOpen [expression, ceilClose]
  | floor => inTurn floorOpen [expression, floorClose]
  | functionCall => inTurn cname [lpar, opt argumentList, rpar]
  | condition => expression
  | Rule.comment => Terminal.comment

/-- One way to write a nonterminal. -/
structure Production where
  lhs : Nonterminal
  rhs : List Symbol
  deriving DecidableEq, Repr

/-- The symbol sequences a nonterminal may be written as: the expansions of its phrase, and
    for a repetition also a shorter repetition followed by one more occurrence. -/
def Nonterminal.expansions : Nonterminal → List (List Symbol)
  | .rule r => r.phrase.expansions
  | .many r =>
      r.phrase.expansions
        ++ r.phrase.expansions.map (Symbol.nonterminal (.many r) :: ·)

/-- The productions of one nonterminal. -/
def Nonterminal.productions (n : Nonterminal) : List Production :=
  n.expansions.map fun rhs => ⟨n, rhs⟩

end Ordo
