/-
What is said about an error: the sentence, the code that the sentence is
looked up by, the place in the source if there is one, and what might
help. Errors of evaluation have no place, since trees do not remember
where they were read.
-/
import Reckoner.Engine

namespace Reckoner

/-- An error as it is reported. -/
structure Diagnostic where
  code : String
  message : String
  span : Option Span
  help : List String
deriving DecidableEq

namespace Diagnostic

/-- A diagnostic on one line. -/
def display (d : Diagnostic) : String :=
  let place := match d.span with
    | some span => " at " ++ toString span.start ++ ".." ++ toString span.stop
    | none => ""
  "error[" ++ d.code ++ "]: " ++ d.message ++ place

end Diagnostic

-- ================================================== splitting into tokens

namespace LexError

/-- The offset at which a text stops being tokens. -/
def position : LexError → Nat
  | invalidCharacter _ p | malformedNumber p | unterminatedString p => p

/-- The character at fault. -/
def span (e : LexError) : Span :=
  let width := match e with
    | invalidCharacter c _ => c.utf8Size
    | malformedNumber _ | unterminatedString _ => 1
  ⟨e.position, e.position + width⟩

/-- The sentence for an error. -/
def message : LexError → String
  | invalidCharacter c p => "invalid character " ++ Text.quotedChar c ++ " at " ++ toString p
  | malformedNumber p =>
    "malformed number: unexpected second decimal point at " ++ toString p
  | unterminatedString p => "unterminated string starting at " ++ toString p

/-- The code of an error. -/
def code : LexError → String
  | invalidCharacter _ _ => "L001"
  | malformedNumber _ => "L002"
  | unterminatedString _ => "L003"

/-- What might help. -/
def help : LexError → List String
  | invalidCharacter _ _ =>
    ["characters outside string literals must be part of a token"]
  | malformedNumber _ => []
  | unterminatedString _ => ["close the string with the same quote it was opened with"]

/-- The report of an error. -/
def diagnostic (e : LexError) : Diagnostic := ⟨e.code, e.message, some e.span, e.help⟩

end LexError

-- ======================================================= reading programs

namespace Expected

/-- A member of an expected set as messages show it. -/
def display : Expected → String
  | kind k => k.name
  | symbol c => "`" ++ c.toString ++ "`"

/-- An expected set as messages show it, the last member after an "or". -/
def displayAll (expected : List Expected) : String :=
  match expected.map display with
  | [] => "nothing"
  | [only] => only
  | first :: rest =>
    ", ".intercalate (first :: rest.dropLast) ++ " or " ++ rest.getLast?.getD ""

end Expected

namespace ParseFault

/-- The sentence for a fault. -/
def message : ParseFault → String
  | unexpectedToken expected found =>
    let found := match found with
      | some t => t.display
      | none => "end of input"
    "expected " ++ Expected.displayAll expected ++ ", found " ++ found
  | unexpectedTrailingToken found =>
    "unexpected " ++ found.display ++ " after the last statement"
  | maxDepthExceeded limit =>
    "expression nesting exceeds the maximum depth of " ++ toString limit

/-- The code of a fault. -/
def code : ParseFault → String
  | unexpectedToken _ _ => "P001"
  | unexpectedTrailingToken _ => "P002"
  | maxDepthExceeded _ => "P003"

/-- What might help. A source that ends where a semicolon could stand
most likely lacks one. -/
def help : ParseFault → List String
  | unexpectedToken expected none =>
    if .symbol ';' ∈ expected then ["every statement must end with `;`"] else []
  | unexpectedToken _ (some _) => []
  | unexpectedTrailingToken _ => ["remove the tokens after the last `;`"]
  | maxDepthExceeded _ => ["reduce nesting or simplify the expression"]

end ParseFault

namespace ParseError

/-- The report of an error. -/
def diagnostic (e : ParseError) : Diagnostic :=
  ⟨e.fault.code, e.fault.message, some e.span, e.fault.help⟩

end ParseError

-- ============================================================ evaluation

namespace Refusal

/-- The clause for a refusal. -/
def message : Refusal → String
  | unbound => "it is not defined"
  | notAFunction typeName => "it is a " ++ typeName
  | arityRejected count =>
    "it does not accept " ++ toString count ++ (if count = 1 then " argument" else " arguments")

end Refusal

namespace EvalError

/-- The sentence for an error. -/
def message : EvalError → String
  | notCallable name refusal => "`" ++ name ++ "` is not callable: " ++ refusal.message
  | callFailed name error => "call to `" ++ name ++ "` failed: " ++ error.message
  | stackOverflow depth limit =>
    "evaluation stack overflow: depth " ++ toString depth ++ " exceeds maximum of " ++
      toString limit

/-- The code of an error. -/
def code : EvalError → String
  | notCallable _ _ => "E001"
  | callFailed _ _ => "E002"
  | stackOverflow _ _ => "E003"

/-- What might help. -/
def help : EvalError → List String
  | notCallable name .unbound => ["register `" ++ name ++ "` in the environment"]
  | notCallable _ _ | callFailed _ _ => []
  | stackOverflow _ _ => ["reduce nesting or raise the execution depth limit"]

/-- The report of an error. -/
def diagnostic (e : EvalError) : Diagnostic := ⟨e.code, e.message, none, e.help⟩

end EvalError

-- ================================================================= errors

namespace Error

/-- The report of an error. -/
def diagnostic : Error → Diagnostic
  | lex e => e.diagnostic
  | parse e => e.diagnostic
  | eval e => e.diagnostic

/-- The place of an error in the source. -/
def span? : Error → Option Span
  | lex e => some e.span
  | parse e => some e.span
  | eval _ => none

/-- The sentence for an error, which begins with the stage that failed. -/
def message : Error → String
  | lex e => "lex error: " ++ e.message
  | parse e => "parse error: " ++ e.fault.message
  | eval e => "evaluation error: " ++ e.message

end Error

end Reckoner
