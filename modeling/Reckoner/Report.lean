/-
Reports: what is said about an error, as text to be read. An error with a
place in the source is shown there by a writer; an error without one is a
line, and a line for each hint.
-/
import Reckoner.Diagnostic
import Reckoner.Report.Snippet

namespace Reckoner

namespace Report

/-- What a source is called. -/
def sourceName : String := "<input>"

/-- The report of a diagnostic without a place. -/
def unplaced (d : Diagnostic) : String :=
  d.display ++ "\n" ++ String.join (d.help.map fun hint => "  help: " ++ hint ++ "\n")

/-- The notice of a diagnostic with a place, which it points out. Offsets
are those of bytes. What lies past the end of the source is taken to lie at
its end. -/
def placed (coloured : Bool) (source : String) (span : Span) (d : Diagnostic) : Notice :=
  let span := span.clamp (Text.byteLength source.toList)
  { sourceName, code := d.code, message := d.message, span, label := ⟨span, d.message⟩,
    help := d.help, measure := .bytes, coloured }

end Report

/-- The report of an error in a source text by a writer. -/
def Report.Writer.report (writer : Report.Writer) (coloured : Bool) (source : String)
    (e : Error) : String :=
  match e.diagnostic.span with
  | some span => writer.write source (Report.placed coloured source span e.diagnostic)
  | none => Report.unplaced e.diagnostic

namespace Error

/-- The report of an error in a source text, without colours. -/
def report (source : String) (e : Error) : String := Report.drawn.report false source e

/-- The report of an error in a source text, for a terminal. -/
def colouredReport (source : String) (e : Error) : String := Report.drawn.report true source e

end Error

end Reckoner
