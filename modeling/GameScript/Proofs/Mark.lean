import GameScript.Parser.Stmt
import Mathlib.Data.List.Forall2

/-!
Marks: what a place in a row of tokens must hold, whatever the positions of the tokens are. The
marks of a tree are the tokens it stands for.
-/

namespace GameScript

/-- What is asked of one token. -/
inductive Mark where
  | kind (wanted : TokenKind)
  | name (text : String)
  | literal (value : Literal)
  | operator (wanted : Operator)
  | unary (op : UnaryOp)
  | assignOp (op : AssignOp)
  | doc (line : String)
deriving DecidableEq, Repr

namespace Mark

def Fits : Mark → Token → Prop
  | kind wanted, token => token.kind = wanted
  | name text, token => token.kind = .ident ∧ token.lit = text
  | literal value, token => token.literal = .ok value
  | operator wanted, token => token.kind.operator? = some wanted
  | unary op, token => ∃ sign, token.kind = .symbol sign ∧ sign.unaryOp? = some op
  | assignOp op, token => token.kind.assignOp? = some op
  | doc line, token => token.kind = .docComment ∧ token.lit = line

def symbol (sign : Symbol) : Mark := kind (.symbol sign)

def keyword (word : Keyword) : Mark := kind (.keyword word)

def lineEnd : Mark := kind .lineEnd

end Mark

def Fit (marks : List Mark) (tokens : List Token) : Prop :=
  List.Forall₂ Mark.Fits marks tokens

namespace Fit

theorem nil : Fit [] [] := List.Forall₂.nil

theorem cons {mark : Mark} {marks : List Mark} {token : Token} {tokens : List Token}
    (first : mark.Fits token) (others : Fit marks tokens) : Fit (mark :: marks) (token :: tokens) :=
  List.Forall₂.cons first others

theorem append {marks others : List Mark} {tokens more : List Token}
    (first : Fit marks tokens) (second : Fit others more) :
    Fit (marks ++ others) (tokens ++ more) := by
  induction first with
  | nil => exact second
  | cons fits _ ih => exact cons fits ih

theorem nil_iff {tokens : List Token} : Fit [] tokens ↔ tokens = [] :=
  List.forall₂_nil_left_iff

theorem cons_iff {mark : Mark} {marks : List Mark} {tokens : List Token} :
    Fit (mark :: marks) tokens ↔
      ∃ token rest, mark.Fits token ∧ Fit marks rest ∧ tokens = token :: rest :=
  List.forall₂_cons_left_iff

theorem append_iff {marks others : List Mark} {tokens : List Token} :
    Fit (marks ++ others) tokens ↔
      ∃ first second, Fit marks first ∧ Fit others second ∧ tokens = first ++ second := by
  constructor
  · intro fit
    induction marks generalizing tokens with
    | nil => exact ⟨[], tokens, nil, fit, rfl⟩
    | cons mark marks ih =>
        obtain ⟨token, rest, fits, restFit, rfl⟩ := cons_iff.mp fit
        obtain ⟨first, second, firstFit, secondFit, rfl⟩ := ih restFit
        exact ⟨token :: first, second, cons fits firstFit, secondFit, rfl⟩
  · rintro ⟨first, second, firstFit, secondFit, rfl⟩
    exact firstFit.append secondFit

end Fit

end GameScript
