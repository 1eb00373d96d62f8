import Mathlib.Data.List.TakeWhile
import Asg1.Lib.Rewrite
import Asg1.Lexer.Closed

/-!
# `Lexer.Blanks` — what `skipblanks` should remove, and what it does remove

A *piece* is what may stand between two tokens: a space, a newline, a tab or a comment. `Piece` says where each
piece ends, from the definition of a comment alone; `skipblanks` is to follow it as far as it goes.

It does so for every piece but one. The window of its `(*` loop starts with the star of the opening and the second
character of the comment, so that a closing parenthesis there ends the comment whatever the first character is:
a `Cut`. What happens then depends on the text behind the parenthesis.
-/

namespace Asg1
namespace Lexer

open Relation Rewrite

/-! ## Pieces -/

/-- The star and the parenthesis that close a comment. -/
def starClose : List UInt8 := ['*'.toUInt8, ')'.toUInt8]

/-- `Piece l r`: the input `l` starts with a blank or a comment, and `r` is what follows it. A comment that is not
    closed runs to the end of the file. -/
inductive Piece : List UInt8 → List UInt8 → Prop
  | blank {c : UInt8} {t : List UInt8} (h : isBlank c = true) : Piece (c :: t) t
  | brace {p t : List UInt8} (h : '}'.toUInt8 ∉ p) : Piece ('{'.toUInt8 :: (p ++ '}'.toUInt8 :: t)) t
  | braceOpen {p : List UInt8} (h : '}'.toUInt8 ∉ p) : Piece ('{'.toUInt8 :: p) []
  | star {p t : List UInt8} (h : ¬ starClose <:+: p) :
      Piece ('('.toUInt8 :: '*'.toUInt8 :: (p ++ starClose ++ t)) t
  | starOpen {p : List UInt8} (h : ¬ starClose <:+: p) : Piece ('('.toUInt8 :: '*'.toUInt8 :: p) []

variable {l r p t : List UInt8}

end Lexer
end Asg1
