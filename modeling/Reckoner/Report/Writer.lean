/-
Writers of reports. A writer is given a source text and a notice, which
says what happened and where, and lays the two out for a reader. Which
lines a text has for it, and where in them it sees an offset, are part of
what it is: a notice has offsets only.
-/
import Reckoner.Span

namespace Reckoner.Report

/-- What the offsets of a notice count. -/
inductive Measure where
  | bytes
  | characters
deriving DecidableEq

/-- A part of the source that is pointed out, with what is said about
it. -/
structure Label where
  span : Span
  message : String
deriving DecidableEq

/-- What a writer is asked to report. -/
structure Notice where
  /-- What the source is called. -/
  sourceName : String
  code : String
  message : String
  /-- The part of the source that the notice is about. -/
  span : Span
  label : Label
  help : List String
  /-- What the offsets of both spans count. -/
  measure : Measure
  /-- For a terminal, with colours? -/
  coloured : Bool
deriving DecidableEq

/-- A writer of reports. Lines and columns are counted from zero. -/
structure Writer where
  /-- The lines of a source, with the characters that end them. -/
  lines : String → List (List Char)
  /-- The line that an offset is in. -/
  lineAt : Measure → String → Nat → Nat
  /-- The column of an offset in its line. -/
  columnAt : Measure → String → Nat → Nat
  write : String → Notice → String

end Reckoner.Report
