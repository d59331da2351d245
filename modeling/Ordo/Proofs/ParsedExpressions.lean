import Ordo.Proofs.DrawableTrees
import Ordo.Proofs.Readings
import Ordo.Syntax.Build

namespace Ordo

/-!
# Parsed expressions

The expressions that stand for parts of a text, and what is read from the texts they are shown as.
Reports and diagrams show the operators and operands of an expression in their order, and some
operands by a summary or without their indices.

* `ParsedExpr`, `ParsedExpr.toValue` — expressions of texts;
* `ParsedExpr.full`, `ParsedExpr.short`, `ParsedExpr.summary` — what is read from their texts;
* `ParsedExpr.fullForm_toValue`, `ParsedExpr.shortForm_toValue` — they are shown so;
* `ParsedExpr.fullForm_eq_iff`, `ParsedExpr.shortForm_eq_iff` — two are shown alike if and only if
  the same is read from them.
-/

open Expr (ofValue ofValues fullTexts)

open Reading List

/-! ### Real numbers -/

namespace Decimal

theorem isNameChar_of_mem_replicate {n : Nat} {c : Char} (h : c ∈ List.replicate n '0') :
    isNameChar c = true := by
  rw [eq_of_mem_replicate h]
  rfl

/-- Name characters, a point and another word are a piece. -/
theorem exists_piece_point {cs : List Char} (hcs : cs ≠ [])
    (hname : ∀ c ∈ cs, isNameChar c = true) (w : Word) :
    ∃ p : Piece, p.text = cs ++ '.' :: w.chars :=
  ⟨.named (.ofName cs hcs hname) (.dot w), rfl⟩

/-- A digit, others after a point, and an exponent with its sign are a piece. -/
theorem exists_piece_exponent {c : Char} {rest sign size : List Char} (hc : isNameChar c = true)
    (hrest : ∀ d ∈ rest, isNameChar d = true) (hsign : ∀ d ∈ sign, isWordChar d = true)
    (hsize : ∀ d ∈ size, isNameChar d = true) : ∃ p : Piece,
      p.text = c :: (if rest = [] then [] else '.' :: rest) ++ 'e' :: (sign ++ size) := by
  have hexponent : ('e' :: (sign ++ size)).all isWordChar = true := by
    rw [all_cons, all_append, all_eq_true.mpr hsign, all_isWordChar hsize]
    rfl
  cases rest with
  | nil =>
    have hword : (c :: 'e' :: (sign ++ size)).all isWordChar = true := by
      rw [all_cons, hexponent, isWordChar, hc]
      rfl
    exact ⟨.word ⟨c :: 'e' :: (sign ++ size), hc, hword⟩, by simp⟩
  | cons d rest =>
    have hword : (d :: rest ++ 'e' :: (sign ++ size)).all isWordChar = true := by
      rw [all_append, all_isWordChar hrest, hexponent]
      rfl
    obtain ⟨p, hp⟩ := exists_piece_point (cons_ne_nil c [])
      (forall_mem_singleton.mpr hc)
      ⟨d :: rest ++ 'e' :: (sign ++ size), hrest d mem_cons_self, hword⟩
    exact ⟨p, by simpa using hp⟩

/-- The text of a positive number is a piece. -/
theorem Layout.exists_piece_place (l : Layout) (d : Nat) (u : Int) :
    ∃ p : Piece, p.text = (l.place d u).toList := by
  have hne : Nat.toDigits 10 d ≠ [] := Nat.toDigits_ne_nil
  have hname : ∀ n, ∀ c ∈ Nat.toDigits 10 n, isNameChar c = true :=
    fun _ _ => isNameChar_of_mem_toDigits
  unfold Layout.place
  simp only [Nat.toList_repr]
  split
  · split_ifs with hwhole hmixed
    · -- a whole number
      obtain ⟨p, hp⟩ := exists_piece_point
        (append_ne_nil_of_left_ne_nil hne (replicate u.toNat '0'))
        (forall_mem_append.mpr ⟨hname d, fun _ => isNameChar_of_mem_replicate⟩) (.of "0")
      exact ⟨p, by simpa using hp⟩
    · -- the point is among the digits
      generalize hcount : (u + ↑(Nat.toDigits 10 d).length - 1 + 1).toNat = whole
      have htake : (Nat.toDigits 10 d).take whole ≠ [] := by
        simp [hne]
        omega
      have hdrop : (Nat.toDigits 10 d).drop whole ≠ [] := by
        simp
        omega
      obtain ⟨p, hp⟩ := exists_piece_point htake
        (fun c hc => hname d c (mem_of_mem_take hc))
        (.ofName _ hdrop fun c hc => hname d c (mem_of_mem_drop hc))
      exact ⟨p, by simpa [Word.ofName] using hp⟩
    · -- the point is before the digits
      obtain ⟨p, hp⟩ := exists_piece_point (cons_ne_nil '0' [])
        (forall_mem_singleton.mpr rfl)
        (.ofName _ (append_ne_nil_of_right_ne_nil
          (replicate (-(u + ↑(Nat.toDigits 10 d).length - 1) - 1).toNat '0') hne)
          (forall_mem_append.mpr ⟨fun _ => isNameChar_of_mem_replicate, hname d⟩))
      exact ⟨p, by simpa [Word.ofName] using hp⟩
  · generalize u + ↑(Nat.toDigits 10 d).length - 1 = exponent
    have hsign : (if exponent < 0 then "-" else "+").toList.all isWordChar = true := by
      split <;> rfl
    have hsize : ∀ c ∈ replicate (l.exponentWidth - (Nat.toDigits 10 exponent.natAbs).length)
        '0' ++ Nat.toDigits 10 exponent.natAbs, isNameChar c = true :=
      forall_mem_append.mpr ⟨fun _ => isNameChar_of_mem_replicate, hname exponent.natAbs⟩
    cases hdigits : Nat.toDigits 10 d with
    | nil => exact absurd hdigits hne
    | cons c rest =>
      obtain ⟨hc, hrest⟩ := forall_mem_cons.mp (hdigits ▸ hname d)
      obtain ⟨p, hp⟩ := exists_piece_exponent hc hrest (all_eq_true.mp hsign) hsize
      refine ⟨p, hp.trans ?_⟩
      cases rest <;> simp

/-- **The text of a real number is a piece.** -/
theorem exists_piece_write (f : Float) : ∃ p : Piece, p.text = (write f).toList := by
  have hsigned : ∀ (negative : Prop) [Decidable negative] {cs : String},
      (∃ p : Piece, p.text = cs.toList) →
      ∃ p : Piece, p.text = ((if negative then "-" else "") ++ cs).toList := by
    rintro negative _ cs ⟨p, hp⟩
    split
    · exact ⟨.signed .minus p, by simp [Piece.text, Sign.char, hp]⟩
    · exact ⟨p, by simp [hp]⟩
  unfold write
  split
  · exact ⟨.word (.of "nan"), by simp⟩
  · simp only
    split
    · exact hsigned _ ⟨.word (.of "inf"), by simp⟩
    · split
      · exact hsigned _ ⟨.named (.of "0") (.dot (.of "0")), by simp [Piece.text, Tail.text]⟩
      · exact hsigned _ (plainLayout.exists_piece_place _ _)

end Decimal

/-! ### Expressions of texts -/

/-- The words that join conditions. -/
inductive Logical
  | and | or
  deriving DecidableEq, Repr

def Logical.word : Logical → Word
  | and => .of "and"
  | or => .of "or"

/-- The kind of token that a sign is. -/
def Reading.Mark.terminal : Mark → Terminal
  | sign .plus => .plus
  | sign .minus => .minus
  | star => .star
  | slash => .slash
  | circumflex => .circumflex
  | equals => .equal

/-- Expressions of texts. -/
inductive ParsedExpr
  | whole (n : Nat)
  /-- A real number, with the reading of its text. -/
  | real (f : Float) (p : Piece) (h : p.text = (Decimal.write f).toList)
  | boolean (b : Bool)
  | null
  | plain (name : Word)
  | field (name member : Word) (indices : List ParsedExpr)
  | indexed (name : Word) (index : ParsedExpr) (indices : List ParsedExpr)
  | slice (name : Word) (start stop : ParsedExpr)
  | logical (word : Logical) (left right : ParsedExpr)
  /-- Two operands.  Whatever stands between them is taken for the operator by its text, since
      `mod` and `div` are not kept. -/
  | binary (between left right : ParsedExpr)
  | unary (s : Sign) (operand : ParsedExpr)
  | call (name : Word) (arguments : List ParsedExpr)
  | length (operand : ParsedExpr)
  | ceiling (operand : ParsedExpr)
  | floor (operand : ParsedExpr)
  /-- A sign that stays among operands. -/
  | sign (m : Mark)

namespace ParsedExpr

mutual

/-- An expression of a text as a value. -/
def toValue : ParsedExpr → Value
  | whole n => .node .number [.int n]
  | real f _ _ => .node .number [.float f]
  | boolean b => .node .boolean [.bool b]
  | null => .node .null []
  | plain name => Build.plainVar (.str name.text)
  | field name member indices =>
      .node .var [.str name.text, .none, .str member.text, indicesValue (toValues indices),
        .bool false, .none, .none]
  | indexed name index indices =>
      .node .var [.str name.text, .list (toValue index :: toValues indices), .none, .none,
        .bool false, .none, .none]
  | slice name start stop =>
      .node .var [.str name.text, .none, .none, .none, .bool true, toValue start, toValue stop]
  | logical word left right => .node .binaryOp [.str word.word.text, toValue left, toValue right]
  | binary between left right =>
      .node .binaryOp [.str (toValue between).text, toValue left, toValue right]
  | unary s operand => .node .unaryOp [.str (.singleton s.char), toValue operand]
  | call name arguments => .node .functionCall [.str name.text, .list (toValues arguments)]
  | length operand => .node .length [toValue operand]
  | ceiling operand => .node .ceiling [toValue operand]
  | floor operand => .node .floor [toValue operand]
  | sign m => .token m.terminal.name (.singleton m.char)

def toValues : List ParsedExpr → List Value
  | [] => []
  | e :: es => toValue e :: toValues es

end

theorem toValues_eq_map (es : List ParsedExpr) : toValues es = es.map toValue := by
  induction es with
  | nil => rfl
  | cons e es ih => rw [toValues, ih, map_cons]

theorem isIndexList_indicesValue (vs : List Value) :
    (indicesValue vs).IsIndexList ∧ (indicesValue vs).items = vs := by
  cases vs with
  | nil => exact ⟨.inl rfl, rfl⟩
  | cons v vs => exact ⟨.inr ⟨_, rfl⟩, rfl⟩

mutual

/-- Expressions of texts are syntax trees. -/
theorem isExprTree_toValue (e : ParsedExpr) : e.toValue.IsExprTree := by
  have hnone : ∀ v ∈ Value.none.items, v.IsExprTree := forall_mem_nil _
  cases e with
  | whole n => exact .number (.whole n)
  | real f p h => exact .number (.real f)
  | boolean b => exact .boolean b
  | null => exact .null
  | plain name => exact .plainVar rfl
  | field name member indices =>
    obtain ⟨hlist, hitems⟩ := isIndexList_indicesValue (toValues indices)
    exact .var rfl (.inr rfl) (.inl rfl) hnone hlist
      (hitems.symm ▸ isExprTree_toValues indices)
      (absurd · Bool.false_ne_true) (absurd · Bool.false_ne_true)
  | indexed name index indices =>
    exact .var rfl (.inl rfl) (.inr ⟨_, rfl⟩)
      (forall_mem_cons.mpr ⟨isExprTree_toValue index, isExprTree_toValues indices⟩)
      (.inl rfl) hnone (absurd · Bool.false_ne_true) (absurd · Bool.false_ne_true)
  | slice name start stop =>
    exact .var rfl (.inl rfl) (.inl rfl) hnone (.inl rfl) hnone
      (fun _ => isExprTree_toValue start) (fun _ => isExprTree_toValue stop)
  | logical _ left right | binary _ left right =>
    exact .binary rfl (isExprTree_toValue left) (isExprTree_toValue right)
  | unary s operand => exact .unary rfl (isExprTree_toValue operand)
  | call name arguments => exact .call rfl (isExprTree_toValues arguments)
  | length operand => exact .length (isExprTree_toValue operand)
  | ceiling operand => exact .ceiling (isExprTree_toValue operand)
  | floor operand => exact .floor (isExprTree_toValue operand)
  | sign m => exact .leftover rfl

theorem isExprTree_toValues (es : List ParsedExpr) : ∀ v ∈ toValues es, v.IsExprTree := by
  cases es with
  | nil => exact forall_mem_nil _
  | cons e es => exact forall_mem_cons.mpr ⟨isExprTree_toValue e, isExprTree_toValues es⟩

end

/-! ### What is read -/

/-- What is read from the summary of an expression. -/
def summary : ParsedExpr → Piece
  | whole n => .apply (.of "Number") [.one (.word (.ofNat n))]
  | real _ p _ => .apply (.of "Number") [.one p]
  | boolean b => .apply (.of "Boolean") [.one (.word (if b then .of "True" else .of "False"))]
  | null => .apply (.of "Null") []
  | plain name => .apply (.of "Variable") [.one (.word name)]
  | field name member _ => .apply (.of "Variable") [.one (.named name (.dot member))]
  | indexed name _ _ => .apply (.of "Variable") [.one (.named name .elided)]
  | slice name start stop =>
      .apply (.of "Variable") [.one (.named name (.range (.one start.summary) (.one stop.summary)))]
  | logical word left right =>
      .apply (.of "BinaryOp") [.more left.summary (.more (.word word.word) (.one right.summary))]
  | binary between left right =>
      .apply (.of "BinaryOp") [.more left.summary (.more between.summary (.one right.summary))]
  | unary s operand => .apply (.of "UnaryOp") [.more (.mark (.sign s)) (.one operand.summary)]
  | call name arguments =>
      .apply (.of "FunctionCall") [.one (.word name), .one (.word (.ofCount arguments.length))]
  | length operand => .apply (.of "Length") [.one operand.summary]
  | ceiling operand => .apply (.of "Ceiling") [.one operand.summary]
  | floor operand => .apply (.of "Floor") [.one operand.summary]
  | sign m => .mark m

mutual

/-- What is read from an expression in a diagram: operators and operands in their order, without
    the nesting of operators and without the indices of a field. -/
def full : ParsedExpr → Pieces
  | whole n => .one (.word (.ofNat n))
  | real _ p _ => .one p
  | boolean b => .one (.word (if b then .of "T" else .of "F"))
  | null => .one (.word (.of "NULL"))
  | plain name => .one (.word name)
  | field name member _ => .one (.named name (.dot member))
  | indexed name index indices => .one (.named name (.indices index.full (fullAll indices)))
  | slice name start stop => .one (.named name (.range start.full stop.full))
  | logical word left right => left.full.append (.more (.word word.word) right.full)
  | binary between left right => left.full.append (.more between.summary right.full)
  | unary s operand => operand.full.signed s
  | call name arguments => .one (.apply name (fullAll arguments))
  | length operand => .one (.apply (.of "length") [operand.full])
  | ceiling operand => .one (.apply (.of "ceil") [operand.full])
  | floor operand => .one (.apply (.of "floor") [operand.full])
  | sign m => .one (.mark m)

def fullAll : List ParsedExpr → List Pieces
  | [] => []
  | e :: es => e.full :: fullAll es

end

mutual

/-- What is read from an expression in a report: variables are left only their names, and what is
    neither a number nor a call nor has operators is summarised. -/
def short : ParsedExpr → Pieces
  | whole n => .one (.word (.ofNat n))
  | real _ p _ => .one p
  | plain name | field name _ _ | indexed name _ _ | slice name _ _ => .one (.word name)
  | logical word left right => left.short.append (.more (.word word.word) right.short)
  | binary between left right => left.short.append (.more between.summary right.short)
  | unary s operand => operand.short.signed s
  | call name arguments => .one (.apply name (shortAll arguments))
  | e => .one e.summary

def shortAll : List ParsedExpr → List Pieces
  | [] => []
  | e :: es => e.short :: shortAll es

end

/-! ### What is shown -/

attribute [local simp] argumentsText Pieces.text Piece.text Tail.text

theorem toList_repr_natCast (n : Nat) : (n : Int).repr.toList = Nat.toDigits 10 n :=
  Nat.toList_repr

/-- A word counts as true, since it has characters. -/
theorem isTrue_text (w : Word) : (Value.str w.text).isTrue = true := by
  obtain ⟨c, cs, hw, -⟩ := w.exists_cons
  simp [Value.isTrue, Word.text, hw]

/-- A word and something in brackets. -/
theorem text_applied {w : Word} {g : Pieces} {inner : String} (opening : String)
    (hopening : opening.toList = w.chars ++ ['(']) (h : g.text = inner.toList) :
    (Piece.apply w [g]).text = (opening ++ inner ++ ")").toList := by
  simp [hopening, h]

/-- Two operands and what stands between them. -/
theorem text_between {left right : Pieces} {p : Piece} {l m r : String}
    (hl : left.text = l.toList) (hm : p.text = m.toList) (hr : right.text = r.toList) :
    (left.append (.more p right)).text = (l ++ " " ++ m ++ " " ++ r).toList := by
  simp [hl, hm, hr]

theorem text_word (w : Word) : (Piece.word w).text = w.text.toList := by simp

theorem text_whole (n : Nat) : (Piece.word (.ofNat n)).text = (toString (n : Int)).toList := by
  simp [toList_repr_natCast]

/-- **A summary is read so.** -/
theorem text_summary (e : ParsedExpr) : e.summary.text = e.toValue.text.toList := by
  cases e with
  | whole n => exact text_applied "Number(" rfl (text_whole n)
  | real f p h => exact text_applied "Number(" rfl h
  | boolean b => cases b <;> rfl
  | null => rfl
  | plain name => exact text_applied "Variable(" rfl (text_word name)
  | field name member indices =>
    have htext : (field name member indices).toValue.text
        = "Variable(" ++ name.text ++ "." ++ member.text ++ ")" :=
      if_pos (isTrue_text member)
    simp [htext, summary]
  | indexed name index indices =>
    show (Piece.apply _ [.one (.named name .elided)]).text
      = ("Variable(" ++ name.text ++ "[...])").toList
    simp
  | slice name start stop =>
    show (Piece.apply _ [.one (.named name (.range (.one start.summary) (.one stop.summary)))]).text
      = ("Variable(" ++ name.text ++ "[" ++ start.toValue.text ++ ".." ++ stop.toValue.text
        ++ "])").toList
    simp [text_summary start, text_summary stop]
  | logical word left right =>
    show (Piece.apply _ [.more left.summary (.more (.word word.word) (.one right.summary))]).text
      = ("BinaryOp(" ++ left.toValue.text ++ " " ++ word.word.text ++ " " ++ right.toValue.text
        ++ ")").toList
    simp [text_summary left, text_summary right]
  | binary between left right =>
    show (Piece.apply _ [.more left.summary (.more between.summary (.one right.summary))]).text
      = ("BinaryOp(" ++ left.toValue.text ++ " " ++ between.toValue.text ++ " "
        ++ right.toValue.text ++ ")").toList
    simp [text_summary between, text_summary left, text_summary right]
  | unary s operand =>
    show (Piece.apply _ [.more (.mark (.sign s)) (.one operand.summary)]).text
      = ("UnaryOp(" ++ .singleton s.char ++ " " ++ operand.toValue.text ++ ")").toList
    simp [Mark.char, text_summary operand]
  | call name arguments =>
    show (Piece.apply _ [.one (.word name), .one (.word (.ofCount arguments.length))]).text
      = ("FunctionCall(" ++ name.text ++ ", args=" ++ toString (toValues arguments).length
        ++ ")").toList
    simp [toValues_eq_map]
  | length operand => exact text_applied "Length(" rfl (text_summary operand)
  | ceiling operand => exact text_applied "Ceiling(" rfl (text_summary operand)
  | floor operand => exact text_applied "Floor(" rfl (text_summary operand)
  | sign m =>
    show [m.char] = (String.singleton m.char).toList
    simp

variable {gs : List Pieces} {texts : List String} {e e' : ParsedExpr}

attribute [local simp] Expr.toValue Expr.ofValue Expr.ofValues Expr.toValues Name.toValue
  Name.ofValue Expr.ofItems accessText Name.shown fieldText

/-- Arguments are shown with commas between them. -/
theorem text_arguments (h : gs.map Pieces.text = texts.map String.toList) :
    (Tail.arguments gs).text = ("(" ++ Value.joined ", " texts ++ ")").toList := by
  have hmore : ∀ (cs : List Char) (gs : List Pieces),
      cs ++ argumentsText gs = [',', ' '].intercalate (cs :: gs.map Pieces.text) ++ [')'] := by
    intro cs gs
    induction gs generalizing cs with
    | nil => simp
    | cons g gs ih => simp [ih, intercalate_cons_cons]
  rw [Value.joined, String.toList_append, String.toList_append, String.toList_intercalate, ← h]
  cases gs with
  | nil => rfl
  | cons g gs =>
    rw [Tail.text, hmore]
    rfl

/-- Indices are shown in brackets of their own. -/
theorem text_indices {g : Pieces} (h : (g :: gs).map Pieces.text = texts.map String.toList) :
    (Tail.indices g gs).text = (indexText texts).toList := by
  have hmore : ∀ (cs : List Char) (gs : List Pieces),
      cs ++ ']' :: indicesText gs = [']', '['].intercalate (cs :: gs.map Pieces.text) ++ [']'] := by
    intro cs gs
    induction gs generalizing cs with
    | nil => simp [indicesText]
    | cons g gs ih => simp [indicesText, ih, intercalate_cons_cons]
  obtain ⟨t, ts, rfl⟩ : ∃ t ts, texts = t :: ts := by
    cases texts with
    | nil => cases h
    | cons t ts => exact ⟨t, ts, rfl⟩
  rw [indexText, Value.joined, String.toList_append, String.toList_append,
    String.toList_intercalate, ← h, Tail.text, hmore]
  · rfl
  · simp

theorem extend_text (s suffix : String) : (Name.text s).extend suffix = .text (s ++ suffix) := by
  unfold Name.extend
  split
  · rename_i hempty
    rw [String.isEmpty_iff.mp hempty, String.append_empty]
  · rfl

mutual

/-- **An expression is read so in a diagram.** -/
theorem text_full (e : ParsedExpr) : e.full.text = (ofValue e.toValue).fullText.toList := by
  cases e with
  | whole n => exact text_whole n
  | real f p h => exact h
  | boolean b => cases b <;> rfl
  | null => rfl
  | plain name => exact text_word name
  | field name member indices =>
    have hmember : (Value.str member.text).presentText? = some member.text :=
      if_pos (isTrue_text member)
    show name.chars ++ '.' :: member.chars
      = ((Name.text name.text).extend
          (accessText [] (Value.str member.text).presentText?)).shown.toList
    rw [hmember, extend_text]
    simp [indexText]
  | indexed name index indices =>
    have htexts : (index.full :: fullAll indices).map Pieces.text
        = (fullTexts (ofValue index.toValue :: ofValues (toValues indices))).map
          String.toList := by
      simp [fullTexts, text_full index, text_fullAll indices]
    show name.chars ++ (Tail.indices index.full (fullAll indices)).text
      = ((Name.text name.text).extend (accessText (fullTexts
        (ofValue index.toValue :: ofValues (toValues indices))) none)).shown.toList
    rw [text_indices htexts, extend_text]
    simp
  | slice name start stop =>
    show name.chars ++ (Tail.range start.full stop.full).text
      = ((Name.text name.text).extend (accessText [] none ++ "["
        ++ (ofValue start.toValue).fullText ++ ".." ++ (ofValue stop.toValue).fullText
        ++ "]")).shown.toList
    rw [extend_text]
    simp [indexText, text_full start, text_full stop]
  | logical word left right =>
    exact text_between (text_full left) (text_word word.word) (text_full right)
  | binary between left right =>
    exact text_between (text_full left) (text_summary between) (text_full right)
  | unary s operand =>
    show (operand.full.signed s).text
      = (.singleton s.char ++ (ofValue operand.toValue).fullText : String).toList
    simp [text_full operand]
  | call name arguments =>
    show name.chars ++ (Tail.arguments (fullAll arguments)).text
      = (name.text ++ "(" ++ Value.joined ", " (fullTexts (ofValues (toValues arguments)))
        ++ ")").toList
    rw [text_arguments (text_fullAll arguments)]
    simp
  | length operand => exact text_applied "length(" rfl (text_full operand)
  | ceiling operand => exact text_applied "ceil(" rfl (text_full operand)
  | floor operand => exact text_applied "floor(" rfl (text_full operand)
  | sign m =>
    show [m.char] = (String.singleton m.char).toList
    simp

theorem text_fullAll (es : List ParsedExpr) : (fullAll es).map Pieces.text
    = (fullTexts (ofValues (toValues es))).map String.toList := by
  cases es with
  | nil => rfl
  | cons e es =>
    simp [fullAll, toValues, fullTexts, text_full e, text_fullAll es]

end

mutual

/-- Nothing is lost when an expression of a text is read as an expression. -/
theorem toValue_ofValue (e : ParsedExpr) : (ofValue e.toValue).toValue = e.toValue := by
  cases e with
  | field name member indices =>
    have hmember : (Value.str member.text).presentText? = some member.text :=
      if_pos (isTrue_text member)
    have hindices : Expr.toValues (Expr.ofItems (indicesValue (toValues indices)))
        = toValues indices := by
      cases indices with
      | nil => rfl
      | cons e es => exact toValues_ofValues (e :: es)
    show Value.node .var [.str name.text, .none, fieldValue (Value.str member.text).presentText?,
      indicesValue (Expr.toValues (Expr.ofItems (indicesValue (toValues indices)))), .bool false,
      .none, .none] = _
    rw [hmember, hindices]
    rfl
  | indexed name index indices =>
    simp [toValue, Value.isTrue, Value.hasItems, indicesValue, Value.presentText?, fieldValue,
      toValue_ofValue index, toValues_ofValues indices]
  | slice name start stop =>
    simp [toValue, Value.isTrue, indicesValue, Value.presentText?, fieldValue,
      toValue_ofValue start, toValue_ofValue stop]
  | logical _ left right | binary _ left right =>
    simp [toValue, Value.text, toValue_ofValue left, toValue_ofValue right]
  | unary s operand =>
    simp [toValue, Value.text, toValue_ofValue operand]
  | call name arguments =>
    simp [toValue, toValues_ofValues arguments]
  | length operand | ceiling operand | floor operand =>
    simp [toValue, toValue_ofValue operand]
  | _ => rfl

theorem toValues_ofValues (es : List ParsedExpr) :
    Expr.toValues (ofValues (toValues es)) = toValues es := by
  cases es with
  | nil => rfl
  | cons e es =>
    simp [toValues, toValue_ofValue e, toValues_ofValues es]

end

mutual

/-- **An expression is read so in a report.** -/
theorem text_short (e : ParsedExpr) : e.short.text = (ofValue e.toValue).shortText.toList := by
  cases e with
  | whole n => exact text_whole n
  | real f p h => exact h
  | plain name | field name _ _ | indexed name _ _ | slice name _ _ => exact text_word name
  | logical word left right =>
    exact text_between (text_short left) (text_word word.word) (text_short right)
  | binary between left right =>
    exact text_between (text_short left) (text_summary between) (text_short right)
  | unary s operand =>
    show (operand.short.signed s).text
      = (.singleton s.char ++ (ofValue operand.toValue).shortText : String).toList
    simp [text_short operand]
  | call name arguments =>
    show name.chars ++ (Tail.arguments (shortAll arguments)).text
      = (name.text ++ "("
        ++ Value.joined ", " (Expr.shortTexts (ofValues (toValues arguments))) ++ ")").toList
    rw [text_arguments (text_shortAll arguments)]
    simp
  | boolean b => exact text_summary (.boolean b)
  | null => exact text_summary .null
  | sign m => exact text_summary (.sign m)
  | length operand =>
    show (length operand).summary.text
      = (ofValue (length operand).toValue).toValue.text.toList
    rw [toValue_ofValue, text_summary]
  | ceiling operand =>
    show (ceiling operand).summary.text
      = (ofValue (ceiling operand).toValue).toValue.text.toList
    rw [toValue_ofValue, text_summary]
  | floor operand =>
    show (floor operand).summary.text
      = (ofValue (floor operand).toValue).toValue.text.toList
    rw [toValue_ofValue, text_summary]

theorem text_shortAll (es : List ParsedExpr) : (shortAll es).map Pieces.text
    = (Expr.shortTexts (ofValues (toValues es))).map String.toList := by
  cases es with
  | nil => rfl
  | cons e es =>
    simp [shortAll, toValues, Expr.shortTexts, text_short e, text_shortAll es]

end

/-! ### Which expressions are shown alike -/

theorem fullForm_toValue (e : ParsedExpr) : e.toValue.fullForm = .ok (.str e.full.shown) := by
  have htext : e.full.shown = (ofValue e.toValue).fullText := by
    rw [Pieces.shown, text_full, String.ofList_toList]
  have hform : (ofValue e.toValue).fullForm.toValue
      = .str (ofValue e.toValue).fullText := by
    have hextend : ∀ s suffix, ((Name.text s).extend suffix).toValue
        = .str ((Name.text s).extend suffix).shown := by
      intro s suffix
      rw [extend_text]
      rfl
    cases e with
    | plain | field | indexed | slice => exact hextend _ _
    | _ => rfl
  rw [Value.fullForm, e.isExprTree_toValue.fullFault?_eq_none, hform, htext]
  rfl

theorem shortForm_toValue (e : ParsedExpr) : e.toValue.shortForm = .ok (.str e.short.shown) := by
  have htext : e.short.shown = (ofValue e.toValue).shortText := by
    rw [Pieces.shown, text_short, String.ofList_toList]
  have hform : (ofValue e.toValue).shortForm.toValue
      = .str (ofValue e.toValue).shortText := by
    cases e <;> rfl
  rw [Value.shortForm, e.isExprTree_toValue.shortFault?_eq_none, hform, htext]
  rfl

/-- **Which expressions diagrams show alike**: those from which the same is read. -/
theorem fullForm_eq_iff : e.toValue.fullForm = e'.toValue.fullForm ↔ e.full = e'.full := by
  rw [fullForm_toValue, fullForm_toValue, Except.ok.injEq, Value.str.injEq,
    Pieces.shown_injective.eq_iff]

/-- **Which expressions reports show alike**: those from which the same is read. -/
theorem shortForm_eq_iff : e.toValue.shortForm = e'.toValue.shortForm ↔ e.short = e'.short := by
  rw [shortForm_toValue, shortForm_toValue, Except.ok.injEq, Value.str.injEq,
    Pieces.shown_injective.eq_iff]

end ParsedExpr

end Ordo
