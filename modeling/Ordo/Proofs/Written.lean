import Ordo.Decimal.Numeral
import Ordo.Program.Data
import Ordo.Proofs.Spread

namespace Ordo

/-!
# How programs are written

The texts of a program.  A program has many: optional semicolons may stand or not, an expression
may have more parentheses than it needs, and any layout may stand between tokens.  So the text
is not a function of the program, and what is said here is which lexemes may stand for it.

* `Level`, `Operator` — how tightly the operators bind;
* `Fragment` — the parts of a program that are written;
* `Writes` — the lexemes that may stand for a part;
* `Program.Written` — the texts of a program.

Every block stands between `begin` and `end`.  A part of an expression that binds less tightly
than its place demands stands in parentheses; operators of one level group to the left, so the
left operand may be of the same level and the right operand may not.
-/

/-! ### Operators -/

/-- How tightly an expression binds, from disjunctions to single operands. -/
inductive Level
  | disjunction | conjunction | comparison | sum | product | signed | operand
  deriving DecidableEq, Repr

/-- The level that binds next more tightly. -/
def Level.next : Level → Level
  | disjunction => conjunction
  | conjunction => comparison
  | comparison => sum
  | sum => product
  | product => signed
  | signed | operand => operand

/-- The operators between two operands that a parse keeps apart. -/
inductive Operator
  | or | and | equal | plus | minus | times | divide
  deriving DecidableEq, Repr

namespace Operator

/-- Every operator. -/
def all : List Operator := [or, and, equal, plus, minus, times, divide]

/-- The text of an operator. -/
def sign : Operator → String
  | or => "or" | and => "and" | equal => "=" | plus => "+" | minus => "-" | times => "*"
  | divide => "/"

/-- The token of an operator. -/
def terminal : Operator → Terminal
  | or => .kwOr | and => .kwAnd | equal => .equal | plus => .plus | minus => .minus
  | times => .star | divide => .slash

/-- The level of an operation. -/
def level : Operator → Level
  | or => .disjunction | and => .conjunction | equal => .comparison | plus | minus => .sum
  | times | divide => .product

/-- The lexeme of an operator. -/
def lexeme (o : Operator) : Lexeme := ⟨o.terminal, o.sign⟩

/-- The operators that may also stand before a single operand. -/
def isSign : Operator → Bool
  | plus | minus => true
  | _ => false

end Operator

/-! ### Lexemes of programs -/

namespace Lexeme

/-- A reserved word or a mark; one that has several texts has none here. -/
def mark (t : Terminal) : Lexeme := ⟨t, t.spelling?.getD ""⟩

/-- A name. -/
def word (s : String) : Lexeme := ⟨.cname, s⟩

/-- A whole number. -/
def whole (n : Nat) : Lexeme := ⟨.number, n.repr⟩

/-- A semicolon, or nothing. -/
def semicolons (given : Bool) : List Lexeme := if given then [mark .semicolon] else []

end Lexeme

/-- The two arrows of an assignment. -/
def isArrow (l : Lexeme) : Bool := l = ⟨.assign, ":="⟩ || l = ⟨.assign, "🡨"⟩

/-- Whether a number has few enough digits to be read. -/
def isShort (n : Nat) : Bool := n.repr.length ≤ Decimal.digitLimit

/-! ### Written parts -/

/-- The parts of a program that are written. -/
inductive Fragment
  /-- An expression where one of the given level is due. -/
  | expr (level : Level) (e : Expr)
  /-- A variable. -/
  | target (e : Expr)
  /-- Indices, each in brackets. -/
  | indices (es : List Expr)
  /-- Expressions with commas between them. -/
  | listed (es : List Expr)
  /-- What stands between the parentheses of a call. -/
  | arguments (es : List Expr)
  | stmt (s : Stmt)
  | stmts (ss : List Stmt)
  | block (ss : List Stmt)
  | parameter (p : Parameter)
  /-- Parameters with commas between them. -/
  | parameters (ps : List Parameter)
  /-- What stands between the parentheses of a definition. -/
  | signature (ps : List Parameter)
  | names (xs : List String)
  | classDef (c : ClassDefinition)
  | classes (cs : List ClassDefinition)
  | subroutine (s : Subroutine)
  | subroutines (ss : List Subroutine)
  | program (p : Program)

open Lexeme in
/-- The lexemes that may stand for a part of a program. -/
inductive Writes : Fragment → List Lexeme → Prop
  -- expressions
  | tighter {level e ls} (h : Writes (.expr level.next e) ls) : Writes (.expr level e) ls
  | parentheses {e ls} (h : Writes (.expr .disjunction e) ls) :
      Writes (.expr .operand e) (mark .lpar :: (ls ++ [mark .rpar]))
  | binary {a b ls us} (o : Operator) (ha : Writes (.expr o.level a) ls)
      (hb : Writes (.expr o.level.next b) us) :
      Writes (.expr o.level (.binary o.sign a b)) (ls ++ o.lexeme :: us)
  | unary {e ls} (o : Operator) (ho : o.isSign = true) (h : Writes (.expr .signed e) ls) :
      Writes (.expr .signed (.unary o.sign e)) (o.lexeme :: ls)
  | number {n : Nat} (hn : isShort n = true) :
      Writes (.expr .operand (.number (.whole n))) [whole n]
  | designator {e ls} (h : Writes (.target e) ls) : Writes (.expr .operand e) ls
  | application {f es ls} (hf : isName f = true) (h : Writes (.arguments es) ls) :
      Writes (.expr .operand (.call (.text f) es)) (word f :: mark .lpar :: (ls ++ [mark .rpar]))
  | length {e ls} (h : Writes (.target e) ls) :
      Writes (.expr .operand (.length e)) (mark .kwLength :: mark .lpar :: (ls ++ [mark .rpar]))
  | ceiling {e ls} (h : Writes (.expr .disjunction e) ls) :
      Writes (.expr .operand (.ceiling e)) (mark .ceilOpen :: (ls ++ [mark .ceilClose]))
  | floor {e ls} (h : Writes (.expr .disjunction e) ls) :
      Writes (.expr .operand (.floor e)) (mark .floorOpen :: (ls ++ [mark .floorClose]))
  -- variables
  | plain {x} (hx : isName x = true) : Writes (.target (.var (.text x) [] none [])) [word x]
  | indexed {x es ls} (hx : isName x = true) (h : Writes (.indices es) ls) :
      Writes (.target (.var (.text x) es none [])) (word x :: ls)
  | field {x f} (hx : isName x = true) (hf : isName f = true) :
      Writes (.target (.var (.text x) [] (some f) [])) [word x, mark .dot, word f]
  | indexedField {x f es ls} (hx : isName x = true) (hf : isName f = true)
      (h : Writes (.indices es) ls) :
      Writes (.target (.var (.text x) [] (some f) es)) (word x :: mark .dot :: word f :: ls)
  | range {x a b ls us} (hx : isName x = true) (ha : Writes (.expr .disjunction a) ls)
      (hb : Writes (.expr .disjunction b) us) :
      Writes (.target (.slice (.text x) [] none [] a b))
        (word x :: mark .lsqb :: (ls ++ mark .dots :: (us ++ [mark .rsqb])))
  -- lists of expressions
  | oneIndex {e ls} (h : Writes (.expr .disjunction e) ls) :
      Writes (.indices [e]) (mark .lsqb :: (ls ++ [mark .rsqb]))
  | moreIndices {es e us ls} (hs : Writes (.indices es) us)
      (h : Writes (.expr .disjunction e) ls) :
      Writes (.indices (es ++ [e])) (us ++ mark .lsqb :: (ls ++ [mark .rsqb]))
  | oneListed {e ls} (h : Writes (.expr .disjunction e) ls) : Writes (.listed [e]) ls
  | moreListed {es e us ls} (hs : Writes (.listed es) us) (h : Writes (.expr .disjunction e) ls) :
      Writes (.listed (es ++ [e])) (us ++ mark .comma :: ls)
  | noArguments : Writes (.arguments []) []
  | someArguments {es ls} (h : Writes (.listed es) ls) : Writes (.arguments es) ls
  -- statements
  | assign {x e ls us} (arrow : Lexeme) (harrow : isArrow arrow = true)
      (hx : Writes (.target x) ls) (he : Writes (.expr .disjunction e) us) (ended : Bool) :
      Writes (.stmt (.assign x e)) (ls ++ arrow :: (us ++ semicolons ended))
  | forLoop {x a b ss ls us bs} (arrow : Lexeme) (harrow : isArrow arrow = true)
      (hx : isName x = true) (ha : Writes (.expr .disjunction a) ls)
      (hb : Writes (.expr .disjunction b) us) (hs : Writes (.block ss) bs) :
      Writes (.stmt (.forLoop (.text x) a b ss))
        (mark .kwFor :: word x :: arrow :: (ls ++ mark .kwTo :: (us ++ mark .kwDo :: bs)))
  | whileLoop {c ss ls bs} (hc : Writes (.expr .disjunction c) ls) (hs : Writes (.block ss) bs) :
      Writes (.stmt (.whileLoop c ss))
        (mark .kwWhile :: mark .lpar :: (ls ++ mark .rpar :: mark .kwDo :: bs))
  | repeatLoop {c ss ls bs} (hne : ss ≠ []) (hs : Writes (.stmts ss) bs)
      (hc : Writes (.expr .disjunction c) ls) :
      Writes (.stmt (.repeatLoop ss c))
        (mark .kwRepeat :: (bs ++ mark .kwUntil :: mark .lpar :: (ls ++ [mark .rpar])))
  | ifThen {c ss ls bs} (hc : Writes (.expr .disjunction c) ls) (hs : Writes (.block ss) bs) :
      Writes (.stmt (.ifThen c ss))
        (mark .kwIf :: mark .lpar :: (ls ++ mark .rpar :: mark .kwThen :: bs))
  | ifElse {c ss os ls bs ds} (hc : Writes (.expr .disjunction c) ls)
      (hs : Writes (.block ss) bs) (ho : Writes (.block os) ds) :
      Writes (.stmt (.ifElse c ss os)) (mark .kwIf :: mark .lpar ::
        (ls ++ mark .rpar :: mark .kwThen :: (bs ++ mark .kwElse :: ds)))
  | call {f es ls} (hf : isName f = true) (h : Writes (.arguments es) ls) (ended : Bool) :
      Writes (.stmt (.call (.text f) es))
        (mark .kwCall :: word f :: mark .lpar :: (ls ++ mark .rpar :: semicolons ended))
  | ret {e ls} (h : Writes (.expr .disjunction e) ls) (ended : Bool) :
      Writes (.stmt (.ret e)) (mark .kwReturn :: (ls ++ semicolons ended))
  | noStmts : Writes (.stmts []) []
  | moreStmts {ss s us ls} (hs : Writes (.stmts ss) us) (h : Writes (.stmt s) ls) :
      Writes (.stmts (ss ++ [s])) (us ++ ls)
  | block {ss ls} (h : Writes (.stmts ss) ls) :
      Writes (.block ss) (mark .kwBegin :: (ls ++ [mark .kwEnd]))
  -- definitions
  | simple {x} (hx : isName x = true) : Writes (.parameter ⟨.text x, .simple⟩) [word x]
  | object {c x} (hc : isName c = true) (hx : isName x = true) :
      Writes (.parameter ⟨.text x, .object c⟩) [word c, word x]
  | oneParameter {p ls} (h : Writes (.parameter p) ls) : Writes (.parameters [p]) ls
  | moreParameters {ps p us ls} (hs : Writes (.parameters ps) us) (h : Writes (.parameter p) ls) :
      Writes (.parameters (ps ++ [p])) (us ++ mark .comma :: ls)
  | noSignature : Writes (.signature []) []
  | someSignature {ps ls} (h : Writes (.parameters ps) ls) : Writes (.signature ps) ls
  | oneName {x} (hx : isName x = true) : Writes (.names [x]) [word x]
  | moreNames {xs x us} (hs : Writes (.names xs) us) (hx : isName x = true) :
      Writes (.names (xs ++ [x])) (us ++ [word x])
  | classDef {c xs ls} (hc : isName c = true) (h : Writes (.names xs) ls) :
      Writes (.classDef ⟨c, xs⟩) (word c :: mark .lbrace :: (ls ++ [mark .rbrace]))
  | noClasses : Writes (.classes []) []
  | moreClasses {cs c us ls} (hs : Writes (.classes cs) us) (h : Writes (.classDef c) ls) :
      Writes (.classes (cs ++ [c])) (us ++ ls)
  | subroutine {f ps ss ls bs} (hf : isName f = true) (hps : Writes (.signature ps) ls)
      (hss : Writes (.stmts ss) bs) :
      Writes (.subroutine ⟨.text f, ps, [], ss⟩) (word f :: mark .lpar ::
        (ls ++ mark .rpar :: mark .kwBegin :: (bs ++ [mark .kwEnd])))
  | noSubroutines : Writes (.subroutines []) []
  | moreSubroutines {ss s us ls} (hs : Writes (.subroutines ss) us)
      (h : Writes (.subroutine s) ls) : Writes (.subroutines (ss ++ [s])) (us ++ ls)
  | program {cs rs ss ls us bs} (hcs : Writes (.classes cs) ls) (hrs : Writes (.subroutines rs) us)
      (hss : Writes (.stmts ss) bs) :
      Writes (.program ⟨cs, rs, [], ss⟩)
        (ls ++ (us ++ mark .kwBegin :: (bs ++ [mark .kwEnd])))

/-- The texts of a program: lexemes that may stand for it, with any layout between them. -/
def Program.Written (p : Program) (text : String) : Prop :=
  ∃ ls, Writes (.program p) ls ∧ SpreadOut ls text

end Ordo
