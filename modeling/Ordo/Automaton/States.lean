import Ordo.Automaton.Following

namespace Ordo.Automaton

/-!
# States of the parsing automaton

A state is a set of places in productions where a parse may stand.  The comment at a state
shows what is read of one of them, up to a dot, unless it is the production that is completed;
the states are numbered from 0, the start of a text.

* `Reduction` — a production completed in a state, with what may then come next;
* `State` — what a state does: the states that tokens and completed phrases lead to, and its
  reductions;
* `definitionStates`, `statementStates`, `expressionStates` — the states, by what they are
  reading;
* `states` — all of them.

The states of expressions agree on where a term, a sum or a whole expression leads, so their
rows are built from shared lists.
-/

/-- A completed production, given by its index in `lhs.productions`, that is reduced before
    certain lookaheads. -/
structure Reduction where
  lhs : Nonterminal
  choice : Nat
  before : Following

/-- A state of the automaton. -/
structure State where
  /-- The state each token leads to. -/
  shifts : List (Terminal × Nat)
  /-- The state each phrase leads to that is completed on top of this state. -/
  gotos : List (Nonterminal × Nat)
  /-- The productions completed here. -/
  reductions : List Reduction

namespace State

/-- A state in which nothing is completed. -/
def reads (shifts : List (Terminal × Nat)) (gotos : List (Nonterminal × Nat)) : State :=
  ⟨shifts, gotos, []⟩

/-- A state in which one production is completed and nothing more is read. -/
def completes (lhs : Nonterminal) (choice : Nat) (before : Following) : State :=
  ⟨[], [], [⟨lhs, choice, before⟩]⟩

/-- A state in which a rule is completed before the given tokens. -/
def ends (r : Rule) (choice : Nat) (before : List Terminal) : State :=
  completes (.rule r) choice (.anyOf before)

end State

/-- Where an operand without a sign leads. -/
def atomShifts : List (Terminal × Nat) :=
  [(.number, 140), (.boolean, 141), (.null, 142), (.lpar, 145), (.cname, 149), (.ceilOpen, 150),
   (.floorOpen, 151), (.kwLength, 152)]

/-- Where an operand leads, a sign included. -/
def factorShifts : List (Terminal × Nat) :=
  (.plus, 136) :: (.minus, 137) :: atomShifts

/-- Where the first token of an expression leads. -/
def expressionShifts : List (Terminal × Nat) :=
  (.kwNot, 131) :: factorShifts

/-- Where the first token of a statement leads. -/
def statementShifts : List (Terminal × Nat) :=
  [(.kwFor, 73), (.kwWhile, 74), (.kwRepeat, 75), (.kwIf, 76), (.kwCall, 77), (.kwReturn, 78),
   (.comment, 79), (.cname, 80)]

/-- Where a comparison sign leads. -/
def comparisonShifts : List (Terminal × Nat) :=
  [(.lessThan, 162), (.moreThan, 163), (.atMost, 164), (.atLeast, 165), (.equal, 166),
   (.differs, 167), (.atMostSign, 168), (.atLeastSign, 169), (.differsSign, 170)]

/-- Where the parts of an operand lead that are more than one token. -/
def operandGotos : List (Nonterminal × Nat) :=
  [(.rule .designator, 143), (.rule .functionCall, 144), (.rule .ceiling, 146),
   (.rule .floor, 147), (.rule .length, 148)]

/-- Where the parts of a power lead. -/
def powerGotos : List (Nonterminal × Nat) :=
  (.rule .atom, 139) :: operandGotos

/-- Where the parts of a factor lead. -/
def factorGotos : List (Nonterminal × Nat) :=
  (.rule .power, 138) :: powerGotos

/-- Where the parts of a product lead. -/
def termGotos : List (Nonterminal × Nat) :=
  (.rule .factor, 135) :: factorGotos

/-- Where the parts of a sum lead. -/
def arithmeticGotos : List (Nonterminal × Nat) :=
  (.rule .term, 134) :: termGotos

/-- Where the parts of a comparison lead. -/
def comparisonGotos : List (Nonterminal × Nat) :=
  (.rule .arithmetic, 133) :: arithmeticGotos

/-- Where the parts of a negation lead. -/
def negationGotos : List (Nonterminal × Nat) :=
  (.rule .comparison, 132) :: comparisonGotos

/-- Where the parts of a conjunction lead. -/
def conjunctionGotos : List (Nonterminal × Nat) :=
  (.rule .logicalNot, 130) :: negationGotos

/-- Where the parts of a disjunction lead. -/
def disjunctionGotos : List (Nonterminal × Nat) :=
  (.rule .logicalAnd, 129) :: conjunctionGotos

/-- Where the parts of an expression lead. -/
def expressionGotos : List (Nonterminal × Nat) :=
  (.rule .logicalOr, 128) :: disjunctionGotos

/-- A state in which an expression is read. -/
def State.expects (target : Nat) : State :=
  .reads expressionShifts ((.rule .expression, target) :: expressionGotos)

/-- Where the parts of a statement lead. -/
def statementGotos : List (Nonterminal × Nat) :=
  [(.rule .declaration, 61), (.rule .assignment, 62), (.rule .forLoop, 63),
   (.rule .whileLoop, 64), (.rule .repeatLoop, 65), (.rule .ifStatement, 66),
   (.rule .callStatement, 67), (.rule .returnStatement, 68), (.rule .comment, 69),
   (.rule .arrayDeclaration, 70), (.rule .objectDeclaration, 71), (.rule .designator, 72)]

/-- The states of definitions and of the program as a whole. -/
def definitionStates : List State := [
  -- 0: start → ·
  .reads [(.cname, 7), (.kwBegin, 9)] [(.rule .program, 1), (.many .classes, 2),
    (.rule .algorithm, 3), (.rule .classDefinition, 4), (.many .subroutines, 5),
    (.rule .mainAlgorithm, 6), (.rule .subroutineDefinition, 8)],
  .completes (.rule .start) 0 .nothing,  -- 1
  -- 2: program → classes ·
  .reads [(.kwBegin, 9), (.cname, 7)] [(.rule .algorithm, 10), (.rule .classDefinition, 11),
    (.many .subroutines, 5), (.rule .mainAlgorithm, 6), (.rule .subroutineDefinition, 8)],
  .completes (.rule .program) 1 .nothing,  -- 3
  .completes (.many .classes) 0 (.anyOf beforeDefinition),  -- 4
  -- 5: algorithm → subroutines ·
  .reads [(.kwBegin, 9), (.cname, 14)] [(.rule .mainAlgorithm, 12),
    (.rule .subroutineDefinition, 13)],
  .completes (.rule .algorithm) 1 .nothing,  -- 6
  -- 7: classDefinition → cname ·
  .reads [(.lbrace, 15), (.lpar, 16)] [],
  .completes (.many .subroutines) 0 (.anyOf beforeDefinition),  -- 8
  -- 9: mainAlgorithm → kwBegin ·
  .reads ((.kwEnd, 18) :: statementShifts) ((.many .statements, 17) ::
    (.rule .statement, 60) :: statementGotos),
  .completes (.rule .program) 0 .nothing,  -- 10
  .completes (.many .classes) 1 (.anyOf beforeDefinition),  -- 11
  .completes (.rule .algorithm) 0 .nothing,  -- 12
  .completes (.many .subroutines) 1 (.anyOf beforeDefinition),  -- 13
  -- 14: subroutineDefinition → cname ·
  .reads [(.lpar, 16)] [],
  -- 15: classDefinition → cname lbrace ·
  .reads [(.cname, 21)] [(.rule .attributeList, 19), (.many .names, 20)],
  -- 16: subroutineDefinition → cname lpar ·
  .reads [(.rpar, 23), (.cname, 28)] [(.rule .parameterList, 22), (.rule .parameter, 24),
    (.rule .arrayParameter, 25), (.rule .objectParameter, 26), (.rule .simpleParameter, 27)],
  -- 17: mainAlgorithm → kwBegin statements ·
  .reads ((.kwEnd, 29) :: statementShifts) ((.rule .statement, 81) :: statementGotos),
  .completes (.rule .mainAlgorithm) 1 .nothing,  -- 18
  -- 19: classDefinition → cname lbrace attributeList ·
  .reads [(.rbrace, 30)] [],
  -- 20: attributeList → names ·
  ⟨[(.cname, 31)], [], [⟨.rule .attributeList, 0, .anyOf [.rbrace]⟩]⟩,
  .completes (.many .names) 0 (.anyOf [.cname, .rbrace]),  -- 21
  -- 22: subroutineDefinition → cname lpar parameterList ·
  .reads [(.rpar, 32)] [],
  -- 23: subroutineDefinition → cname lpar rpar ·
  .reads [(.kwBegin, 33)] [],
  -- 24: parameterList → parameter ·
  ⟨[(.comma, 35)], [(.many .parameters, 34)], [⟨.rule .parameterList, 1, .anyOf [.rpar]⟩]⟩,
  .ends .parameter 0 [.rpar, .comma],  -- 25
  .ends .parameter 1 [.rpar, .comma],  -- 26
  .ends .parameter 2 [.rpar, .comma],  -- 27
  -- 28: arrayParameter → cname ·
  ⟨[(.cname, 37), (.lsqb, 38)], [(.many .brackets, 36)],
    [⟨.rule .simpleParameter, 0, .anyOf [.rpar, .comma]⟩]⟩,
  .completes (.rule .mainAlgorithm) 0 .nothing,  -- 29
  .ends .classDefinition 0 beforeDefinition,  -- 30
  .completes (.many .names) 1 (.anyOf [.cname, .rbrace]),  -- 31
  -- 32: subroutineDefinition → cname lpar parameterList rpar ·
  .reads [(.kwBegin, 39)] [],
  -- 33: subroutineDefinition → cname lpar rpar kwBegin ·
  .reads ((.kwEnd, 41) :: statementShifts) ((.many .statements, 40) ::
    (.rule .statement, 60) :: statementGotos),
  -- 34: parameterList → parameter parameters ·
  ⟨[(.comma, 42)], [], [⟨.rule .parameterList, 0, .anyOf [.rpar]⟩]⟩,
  -- 35: parameters → comma ·
  .reads [(.cname, 28)] [(.rule .parameter, 43), (.rule .arrayParameter, 25),
    (.rule .objectParameter, 26), (.rule .simpleParameter, 27)],
  -- 36: arrayParameter → cname brackets ·
  ⟨[(.dots, 44), (.lsqb, 45)], [], [⟨.rule .arrayParameter, 1, .anyOf [.rpar, .comma]⟩]⟩,
  .ends .objectParameter 0 [.rpar, .comma],  -- 37
  -- 38: brackets → lsqb ·
  .reads ((.rsqb, 47) :: expressionShifts) ((.rule .expression, 46) :: expressionGotos),
  -- 39: subroutineDefinition → cname lpar parameterList rpar kwBegin ·
  .reads ((.kwEnd, 49) :: statementShifts) ((.many .statements, 48) ::
    (.rule .statement, 60) :: statementGotos),
  -- 40: subroutineDefinition → cname lpar rpar kwBegin statements ·
  .reads ((.kwEnd, 50) :: statementShifts) ((.rule .statement, 81) :: statementGotos),
  .ends .subroutineDefinition 3 beforeDefinition,  -- 41
  -- 42: parameters → parameters comma ·
  .reads [(.cname, 28)] [(.rule .parameter, 51), (.rule .arrayParameter, 25),
    (.rule .objectParameter, 26), (.rule .simpleParameter, 27)],
  .completes (.many .parameters) 0 (.anyOf [.rpar, .comma]),  -- 43
  -- 44: arrayParameter → cname brackets dots ·
  .reads [(.lsqb, 52)] [],
  -- 45: brackets → brackets lsqb ·
  .reads ((.rsqb, 54) :: expressionShifts) ((.rule .expression, 53) :: expressionGotos),
  -- 46: brackets → lsqb expression ·
  .reads [(.rsqb, 55)] [],
  .completes (.many .brackets) 1 (.anyOf [.dots, .rpar, .lsqb, .comma]),  -- 47
  -- 48: subroutineDefinition → cname lpar parameterList rpar kwBegin statements ·
  .reads ((.kwEnd, 56) :: statementShifts) ((.rule .statement, 81) :: statementGotos),
  .ends .subroutineDefinition 1 beforeDefinition,  -- 49
  .ends .subroutineDefinition 2 beforeDefinition,  -- 50
  .completes (.many .parameters) 1 (.anyOf [.rpar, .comma]),  -- 51
  -- 52: arrayParameter → cname brackets dots lsqb ·
  .expects 57,
  -- 53: brackets → brackets lsqb expression ·
  .reads [(.rsqb, 58)] [],
  .completes (.many .brackets) 3 (.anyOf [.dots, .rpar, .lsqb, .comma]),  -- 54
  .completes (.many .brackets) 0 (.anyOf [.dots, .rpar, .lsqb, .comma]),  -- 55
  .ends .subroutineDefinition 0 beforeDefinition,  -- 56
  -- 57: arrayParameter → cname brackets dots lsqb expression ·
  .reads [(.rsqb, 59)] [],
  .completes (.many .brackets) 2 (.anyOf [.dots, .rpar, .lsqb, .comma]),  -- 58
  .ends .arrayParameter 0 [.rpar, .comma]]  -- 59

/-- The states of statements. -/
def statementStates : List State := [
  .completes (.many .statements) 0 (.anyOf afterStatements),  -- 60
  -- 61: statement → declaration ·
  ⟨[(.semicolon, 82)], [], [⟨.rule .statement, 1, .anyOf afterStatement⟩]⟩,
  -- 62: statement → assignment ·
  ⟨[(.semicolon, 83)], [], [⟨.rule .statement, 3, .anyOf afterStatement⟩]⟩,
  .ends .statement 4 afterStatement,  -- 63
  .ends .statement 5 afterStatement,  -- 64
  .ends .statement 6 afterStatement,  -- 65
  .ends .statement 7 afterStatement,  -- 66
  -- 67: statement → callStatement ·
  ⟨[(.semicolon, 84)], [], [⟨.rule .statement, 9, .anyOf afterStatement⟩]⟩,
  -- 68: statement → returnStatement ·
  ⟨[(.semicolon, 85)], [], [⟨.rule .statement, 11, .anyOf afterStatement⟩]⟩,
  .ends .statement 12 afterStatement,  -- 69
  .ends .declaration 0 afterSimple,  -- 70
  .ends .declaration 1 afterSimple,  -- 71
  -- 72: assignment → designator ·
  .reads [(.assign, 86)] [],
  -- 73: forLoop → kwFor ·
  .reads [(.cname, 87)] [],
  -- 74: whileLoop → kwWhile ·
  .reads [(.lpar, 88)] [],
  -- 75: repeatLoop → kwRepeat ·
  .reads statementShifts ((.many .statements, 89) :: (.rule .statement, 60) :: statementGotos),
  -- 76: ifStatement → kwIf ·
  .reads [(.lpar, 90)] [],
  -- 77: callStatement → kwCall ·
  .reads [(.cname, 91)] [],
  -- 78: returnStatement → kwReturn ·
  .expects 92,
  .ends .comment 0 afterStatement,  -- 79
  -- 80: arrayDeclaration → cname ·
  ⟨[(.lsqb, 93), (.cname, 94), (.dot, 153)], [(.many .indices, 154)],
    [⟨.rule .designator, 4, .anyOf [.assign]⟩]⟩,
  .completes (.many .statements) 1 (.anyOf afterStatements),  -- 81
  .ends .statement 0 afterStatement,  -- 82
  .ends .statement 2 afterStatement,  -- 83
  .ends .statement 8 afterStatement,  -- 84
  .ends .statement 10 afterStatement,  -- 85
  -- 86: assignment → designator assign ·
  .expects 95,
  -- 87: forLoop → kwFor cname ·
  .reads [(.assign, 96)] [],
  -- 88: whileLoop → kwWhile lpar ·
  .reads expressionShifts ((.rule .condition, 97) :: (.rule .expression, 98) ::
    expressionGotos),
  -- 89: repeatLoop → kwRepeat statements ·
  .reads ((.kwUntil, 99) :: statementShifts) ((.rule .statement, 81) :: statementGotos),
  -- 90: ifStatement → kwIf lpar ·
  .reads expressionShifts ((.rule .condition, 100) :: (.rule .expression, 98) ::
    expressionGotos),
  -- 91: callStatement → kwCall cname ·
  .reads [(.lpar, 101)] [],
  .ends .returnStatement 0 afterSimple,  -- 92
  -- 93: arrayDeclaration → cname lsqb ·
  .reads expressionShifts ((.rule .expression, 102) :: (.rule .range, 189) :: expressionGotos),
  .ends .objectDeclaration 0 afterSimple,  -- 94
  .ends .assignment 0 afterSimple,  -- 95
  -- 96: forLoop → kwFor cname assign ·
  .expects 103,
  -- 97: whileLoop → kwWhile lpar condition ·
  .reads [(.rpar, 104)] [],
  .ends .condition 0 [.rpar],  -- 98
  -- 99: repeatLoop → kwRepeat statements kwUntil ·
  .reads [(.lpar, 105)] [],
  -- 100: ifStatement → kwIf lpar condition ·
  .reads [(.rpar, 106)] [],
  -- 101: callStatement → kwCall cname lpar ·
  .reads ((.rpar, 108) :: expressionShifts) ((.rule .argumentList, 107) ::
    (.rule .expression, 192) :: expressionGotos),
  -- 102: arrayDeclaration → cname lsqb expression ·
  .reads [(.rsqb, 109), (.dots, 221)] [],
  -- 103: forLoop → kwFor cname assign expression ·
  .reads [(.kwTo, 110)] [],
  -- 104: whileLoop → kwWhile lpar condition rpar ·
  .reads [(.kwDo, 111)] [],
  -- 105: repeatLoop → kwRepeat statements kwUntil lpar ·
  .reads expressionShifts ((.rule .condition, 112) :: (.rule .expression, 98) ::
    expressionGotos),
  -- 106: ifStatement → kwIf lpar condition rpar ·
  .reads [(.kwThen, 113)] [],
  -- 107: callStatement → kwCall cname lpar argumentList ·
  .reads [(.rpar, 114)] [],
  .ends .callStatement 1 afterSimple,  -- 108
  -- 109: arrayDeclaration → cname lsqb expression rsqb ·
  ⟨[], [], [⟨.rule .arrayDeclaration, 0, .anyOf afterSimple⟩,
    ⟨.many .indices, 0, .anyOf [.assign, .lsqb]⟩]⟩,
  -- 110: forLoop → kwFor cname assign expression kwTo ·
  .expects 115,
  -- 111: whileLoop → kwWhile lpar condition rpar kwDo ·
  .reads ((.kwBegin, 117) :: statementShifts) ((.rule .block, 116) ::
    (.rule .statement, 118) :: statementGotos),
  -- 112: repeatLoop → kwRepeat statements kwUntil lpar condition ·
  .reads [(.rpar, 119)] [],
  -- 113: ifStatement → kwIf lpar condition rpar kwThen ·
  .reads ((.kwBegin, 117) :: statementShifts) ((.rule .block, 120) ::
    (.rule .statement, 118) :: statementGotos),
  .ends .callStatement 0 afterSimple,  -- 114
  -- 115: forLoop → kwFor cname assign expression kwTo expression ·
  .reads [(.kwDo, 121)] [],
  .ends .whileLoop 0 afterStatement,  -- 116
  -- 117: block → kwBegin ·
  .reads ((.kwEnd, 123) :: statementShifts) ((.many .statements, 122) ::
    (.rule .statement, 60) :: statementGotos),
  .ends .block 2 afterStatement,  -- 118
  .ends .repeatLoop 0 afterStatement,  -- 119
  -- 120: ifStatement → kwIf lpar condition rpar kwThen block ·
  ⟨[(.kwElse, 124)], [], [⟨.rule .ifStatement, 1, .anyOf afterStatement⟩]⟩,
  -- 121: forLoop → kwFor cname assign expression kwTo expression kwDo ·
  .reads ((.kwBegin, 117) :: statementShifts) ((.rule .block, 125) ::
    (.rule .statement, 118) :: statementGotos),
  -- 122: block → kwBegin statements ·
  .reads ((.kwEnd, 126) :: statementShifts) ((.rule .statement, 81) :: statementGotos),
  .ends .block 1 afterStatement,  -- 123
  -- 124: ifStatement → kwIf lpar condition rpar kwThen block kwElse ·
  .reads ((.kwBegin, 117) :: statementShifts) ((.rule .block, 127) ::
    (.rule .statement, 118) :: statementGotos),
  .ends .forLoop 0 afterStatement,  -- 125
  .ends .block 0 afterStatement,  -- 126
  .ends .ifStatement 0 afterStatement]  -- 127

/-- The states of expressions and argument lists. -/
def expressionStates : List State := [
  .ends .expression 0 afterExpression,  -- 128
  -- 129: logicalOr → logicalAnd ·
  ⟨[(.kwOr, 156)], [(.many .disjuncts, 155)], [⟨.rule .logicalOr, 1, .anyOf afterExpression⟩]⟩,
  -- 130: logicalAnd → logicalNot ·
  ⟨[(.kwAnd, 158)], [(.many .conjuncts, 157)],
    [⟨.rule .logicalAnd, 1, .anyOf afterConjunction⟩]⟩,
  -- 131: logicalNot → kwNot ·
  .reads expressionShifts ((.rule .logicalNot, 159) :: negationGotos),
  .ends .logicalNot 1 afterNegation,  -- 132
  -- 133: comparison → arithmetic ·
  ⟨comparisonShifts, [(.many .comparisons, 160), (.rule .compOp, 161)],
    [⟨.rule .comparison, 1, .anyOf afterNegation⟩]⟩,
  -- 134: arithmetic → term ·
  ⟨[(.plus, 172), (.minus, 173)], [(.many .summands, 171)],
    [⟨.rule .arithmetic, 1, .anyOf afterComparand⟩]⟩,
  -- 135: term → factor ·
  ⟨[(.star, 175), (.slash, 176), (.kwMod, 177), (.kwDiv, 178)], [(.many .multiplicands, 174)],
    [⟨.rule .term, 1, .anyOf afterTerm⟩]⟩,
  -- 136: factor → plus ·
  .reads factorShifts ((.rule .factor, 179) :: factorGotos),
  -- 137: factor → minus ·
  .reads factorShifts ((.rule .factor, 180) :: factorGotos),
  .ends .factor 2 afterFactor,  -- 138
  -- 139: power → atom ·
  ⟨[(.circumflex, 182)], [(.many .exponents, 181)], [⟨.rule .power, 1, .anyOf afterFactor⟩]⟩,
  .ends .atom 0 afterAtom,  -- 140
  .ends .atom 1 afterAtom,  -- 141
  .ends .atom 2 afterAtom,  -- 142
  .ends .atom 3 afterAtom,  -- 143
  .ends .atom 4 afterAtom,  -- 144
  -- 145: atom → lpar ·
  .expects 183,
  .ends .atom 6 afterAtom,  -- 146
  .ends .atom 7 afterAtom,  -- 147
  .ends .atom 8 afterAtom,  -- 148
  -- 149: designator → cname ·
  ⟨[(.dot, 153), (.lsqb, 184), (.lpar, 185)], [(.many .indices, 154)],
    [⟨.rule .designator, 4, .anyOf afterAtom⟩]⟩,
  -- 150: ceiling → ceilOpen ·
  .expects 186,
  -- 151: floor → floorOpen ·
  .expects 187,
  -- 152: length → kwLength ·
  .reads [(.lpar, 188)] [],
  -- 153: designator → cname dot ·
  .reads [(.cname, 190)] [],
  -- 154: designator → cname indices ·
  ⟨[(.lsqb, 191)], [], [⟨.rule .designator, 2, .anyOf afterDesignator⟩]⟩,
  -- 155: logicalOr → logicalAnd disjuncts ·
  ⟨[(.kwOr, 193)], [], [⟨.rule .logicalOr, 0, .anyOf afterExpression⟩]⟩,
  -- 156: disjuncts → kwOr ·
  .reads expressionShifts ((.rule .logicalAnd, 194) :: conjunctionGotos),
  -- 157: logicalAnd → logicalNot conjuncts ·
  ⟨[(.kwAnd, 195)], [], [⟨.rule .logicalAnd, 0, .anyOf afterConjunction⟩]⟩,
  -- 158: conjuncts → kwAnd ·
  .reads expressionShifts ((.rule .logicalNot, 196) :: negationGotos),
  .ends .logicalNot 0 afterNegation,  -- 159
  -- 160: comparison → arithmetic comparisons ·
  ⟨comparisonShifts, [(.rule .compOp, 197)], [⟨.rule .comparison, 0, .anyOf afterNegation⟩]⟩,
  -- 161: comparisons → compOp ·
  .reads factorShifts ((.rule .arithmetic, 198) :: arithmeticGotos),
  .ends .compOp 0 operandStart,  -- 162
  .ends .compOp 1 operandStart,  -- 163
  .ends .compOp 2 operandStart,  -- 164
  .ends .compOp 3 operandStart,  -- 165
  .ends .compOp 4 operandStart,  -- 166
  .ends .compOp 5 operandStart,  -- 167
  .ends .compOp 6 operandStart,  -- 168
  .ends .compOp 7 operandStart,  -- 169
  .ends .compOp 8 operandStart,  -- 170
  -- 171: arithmetic → term summands ·
  ⟨[(.plus, 199), (.minus, 200)], [], [⟨.rule .arithmetic, 0, .anyOf afterComparand⟩]⟩,
  -- 172: summands → plus ·
  .reads factorShifts ((.rule .term, 201) :: termGotos),
  -- 173: summands → minus ·
  .reads factorShifts ((.rule .term, 202) :: termGotos),
  -- 174: term → factor multiplicands ·
  ⟨[(.star, 203), (.slash, 204), (.kwMod, 205), (.kwDiv, 206)], [],
    [⟨.rule .term, 0, .anyOf afterTerm⟩]⟩,
  -- 175: multiplicands → star ·
  .reads factorShifts ((.rule .factor, 207) :: factorGotos),
  -- 176: multiplicands → slash ·
  .reads factorShifts ((.rule .factor, 208) :: factorGotos),
  -- 177: multiplicands → kwMod ·
  .reads factorShifts ((.rule .factor, 209) :: factorGotos),
  -- 178: multiplicands → kwDiv ·
  .reads factorShifts ((.rule .factor, 210) :: factorGotos),
  .ends .factor 0 afterFactor,  -- 179
  .ends .factor 1 afterFactor,  -- 180
  -- 181: power → atom exponents ·
  ⟨[(.circumflex, 211)], [], [⟨.rule .power, 0, .anyOf afterFactor⟩]⟩,
  -- 182: exponents → circumflex ·
  .reads atomShifts ((.rule .atom, 212) :: operandGotos),
  -- 183: atom → lpar expression ·
  .reads [(.rpar, 213)] [],
  -- 184: designator → cname lsqb ·
  .reads expressionShifts ((.rule .range, 189) :: (.rule .expression, 214) :: expressionGotos),
  -- 185: functionCall → cname lpar ·
  .reads ((.rpar, 216) :: expressionShifts) ((.rule .argumentList, 215) ::
    (.rule .expression, 192) :: expressionGotos),
  -- 186: ceiling → ceilOpen expression ·
  .reads [(.ceilClose, 217)] [],
  -- 187: floor → floorOpen expression ·
  .reads [(.floorClose, 218)] [],
  -- 188: length → kwLength lpar ·
  .reads [(.cname, 220)] [(.rule .designator, 219)],
  -- 189: designator → cname lsqb range ·
  .reads [(.rsqb, 222)] [],
  -- 190: designator → cname dot cname ·
  ⟨[(.lsqb, 224)], [(.many .indices, 223)], [⟨.rule .designator, 1, .anyOf afterDesignator⟩]⟩,
  -- 191: indices → indices lsqb ·
  .expects 225,
  -- 192: argumentList → expression ·
  ⟨[(.comma, 227)], [(.many .arguments, 226)], [⟨.rule .argumentList, 1, .anyOf [.rpar]⟩]⟩,
  -- 193: disjuncts → disjuncts kwOr ·
  .reads expressionShifts ((.rule .logicalAnd, 228) :: conjunctionGotos),
  .completes (.many .disjuncts) 0 (.anyOf afterConjunction),  -- 194
  -- 195: conjuncts → conjuncts kwAnd ·
  .reads expressionShifts ((.rule .logicalNot, 229) :: negationGotos),
  .completes (.many .conjuncts) 0 (.anyOf afterNegation),  -- 196
  -- 197: comparisons → comparisons compOp ·
  .reads factorShifts ((.rule .arithmetic, 230) :: arithmeticGotos),
  .completes (.many .comparisons) 0 (.anyOf afterComparand),  -- 198
  -- 199: summands → summands plus ·
  .reads factorShifts ((.rule .term, 231) :: termGotos),
  -- 200: summands → summands minus ·
  .reads factorShifts ((.rule .term, 232) :: termGotos),
  .completes (.many .summands) 0 (.anyOf afterTerm),  -- 201
  .completes (.many .summands) 1 (.anyOf afterTerm),  -- 202
  -- 203: multiplicands → multiplicands star ·
  .reads factorShifts ((.rule .factor, 233) :: factorGotos),
  -- 204: multiplicands → multiplicands slash ·
  .reads factorShifts ((.rule .factor, 234) :: factorGotos),
  -- 205: multiplicands → multiplicands kwMod ·
  .reads factorShifts ((.rule .factor, 235) :: factorGotos),
  -- 206: multiplicands → multiplicands kwDiv ·
  .reads factorShifts ((.rule .factor, 236) :: factorGotos),
  .completes (.many .multiplicands) 0 (.anyOf afterFactor),  -- 207
  .completes (.many .multiplicands) 1 (.anyOf afterFactor),  -- 208
  .completes (.many .multiplicands) 2 (.anyOf afterFactor),  -- 209
  .completes (.many .multiplicands) 3 (.anyOf afterFactor),  -- 210
  -- 211: exponents → exponents circumflex ·
  .reads atomShifts ((.rule .atom, 237) :: operandGotos),
  .completes (.many .exponents) 0 (.anyOf afterAtom),  -- 212
  .ends .atom 5 afterAtom,  -- 213
  -- 214: range → expression ·
  .reads [(.dots, 221), (.rsqb, 238)] [],
  -- 215: functionCall → cname lpar argumentList ·
  .reads [(.rpar, 239)] [],
  .ends .functionCall 1 afterAtom,  -- 216
  .ends .ceiling 0 afterAtom,  -- 217
  .ends .floor 0 afterAtom,  -- 218
  -- 219: length → kwLength lpar designator ·
  .reads [(.rpar, 240)] [],
  -- 220: designator → cname ·
  ⟨[(.dot, 153), (.lsqb, 184)], [(.many .indices, 154)],
    [⟨.rule .designator, 4, .anyOf [.rpar]⟩]⟩,
  -- 221: range → expression dots ·
  .expects 241,
  .ends .designator 3 afterDesignator,  -- 222
  -- 223: designator → cname dot cname indices ·
  ⟨[(.lsqb, 191)], [], [⟨.rule .designator, 0, .anyOf afterDesignator⟩]⟩,
  -- 224: indices → lsqb ·
  .expects 242,
  -- 225: indices → indices lsqb expression ·
  .reads [(.rsqb, 243)] [],
  -- 226: argumentList → expression arguments ·
  ⟨[(.comma, 244)], [], [⟨.rule .argumentList, 0, .anyOf [.rpar]⟩]⟩,
  -- 227: arguments → comma ·
  .expects 245,
  .completes (.many .disjuncts) 1 (.anyOf afterConjunction),  -- 228
  .completes (.many .conjuncts) 1 (.anyOf afterNegation),  -- 229
  .completes (.many .comparisons) 1 (.anyOf afterComparand),  -- 230
  .completes (.many .summands) 2 (.anyOf afterTerm),  -- 231
  .completes (.many .summands) 3 (.anyOf afterTerm),  -- 232
  .completes (.many .multiplicands) 4 (.anyOf afterFactor),  -- 233
  .completes (.many .multiplicands) 5 (.anyOf afterFactor),  -- 234
  .completes (.many .multiplicands) 6 (.anyOf afterFactor),  -- 235
  .completes (.many .multiplicands) 7 (.anyOf afterFactor),  -- 236
  .completes (.many .exponents) 1 (.anyOf afterAtom),  -- 237
  .completes (.many .indices) 0 (.anyOf afterIndex),  -- 238
  .ends .functionCall 0 afterAtom,  -- 239
  .ends .length 0 afterAtom,  -- 240
  .ends .range 0 [.rsqb],  -- 241
  -- 242: indices → lsqb expression ·
  .reads [(.rsqb, 238)] [],
  .completes (.many .indices) 1 (.anyOf afterIndex),  -- 243
  -- 244: arguments → arguments comma ·
  .expects 246,
  .completes (.many .arguments) 0 (.anyOf [.rpar, .comma]),  -- 245
  .completes (.many .arguments) 1 (.anyOf [.rpar, .comma])]  -- 246

/-- Every state, by number. -/
def states : List State := definitionStates ++ statementStates ++ expressionStates

end Ordo.Automaton
