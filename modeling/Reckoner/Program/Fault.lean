/-
Why a list of tokens is not a program. The fault is told apart from the
place where it shows, since the place depends on how the source was laid
out and the fault does not.
-/
import Reckoner.Token.Basic

namespace Reckoner

/-- A member of the set of tokens that could have come next. -/
inductive Expected where
  | kind (kind : TokenKind)
  | symbol (sign : Char)
deriving DecidableEq

/-- Why tokens are not a program. -/
inductive ParseFault where
  /-- A token that cannot continue what came before, or no token where
  one must follow. -/
  | unexpectedToken (expected : List Expected) (found : Option Token)
  /-- A token after a complete program. -/
  | unexpectedTrailingToken (found : Token)
  /-- More nesting than the limit admits. -/
  | maxDepthExceeded (limit : Nat)
deriving DecidableEq

/-- Why tokens are not a program, and where that shows. -/
structure ParseError where
  fault : ParseFault
  span : Span
deriving DecidableEq

end Reckoner
