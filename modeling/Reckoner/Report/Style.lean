/-
Text in pieces, each of which may have a colour. The plain form of such a
text is its characters and nothing else; the coloured form puts control
sequences for a terminal around every piece that has a colour.
-/

namespace Reckoner.Report

/-- What a piece of a report is, as far as its colour goes. -/
inductive Tint where
  /-- The code and the severity. -/
  | heading
  /-- The frame around the source, and line numbers. -/
  | frame
  /-- The frame beside what is not source. -/
  | faintFrame
  /-- Source that is not at fault. -/
  | source
  /-- Source that is at fault, and what points to it. -/
  | fault
  /-- The word before a hint. -/
  | hint
deriving DecidableEq

/-- The parameters of the control sequence for a tint. -/
def Tint.parameters : Tint → String
  | heading => "31"
  | frame => "38;5;246"
  | faintFrame => "38;5;240"
  | source => "38;5;249"
  | fault => "38;5;155"
  | hint => "38;5;115"

/-- A stretch of text in one colour or in none. -/
structure Piece where
  text : String
  tint : Option Tint
deriving DecidableEq

namespace Piece

/-- Text without a colour. -/
def bare (text : String) : Piece := ⟨text, none⟩

/-- Text with a colour. -/
def tinted (tint : Tint) (text : String) : Piece := ⟨text, some tint⟩

/-- A piece for a terminal. -/
def coloured (p : Piece) : String :=
  match p.tint with
  | some tint => "\x1b[" ++ tint.parameters ++ "m" ++ p.text ++ "\x1b[0m"
  | none => p.text

end Piece

/-- A line in pieces. -/
abbrev Row := List Piece

/-- Lines as they are read. -/
def plain (rows : List Row) : String :=
  String.join (rows.map fun row => String.join (row.map Piece.text) ++ "\n")

/-- Lines as a terminal shows them. -/
def coloured (rows : List Row) : String :=
  String.join (rows.map fun row => String.join (row.map Piece.coloured) ++ "\n")

end Reckoner.Report
