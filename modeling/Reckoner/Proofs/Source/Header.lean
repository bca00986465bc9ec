/-
The line and the column in the header of a report. They count line ends
and characters of the source before the error, and the error itself knows
a byte offset only, which the writer of the report takes to a line and a
column. What a writer has to do for that is stated for any writer: split a
source at exactly its line ends, take offsets to be those of bytes, count
columns in characters, and name the place in the header.

Then the offset must be one that makes sense as a place in a line, not
inside a line end and not behind the last one. Errors never have another:
at the start of a token, or at a character that begins none, there is a
character that ends no line, and at the end of a token there is one before
it.
-/
import Reckoner.Report
import Reckoner.Proofs.Source.Location
import Reckoner.Proofs.Text.Lines

namespace Reckoner

-- ====================================================== places of errors

namespace Lexer

variable {c : Char} {slice : List Char} {word : Word}

/-- Nothing that a token begins with ends a line. -/
theorem not_mem_lineEndCharacters_of_starts (h : startsNumber c = true ∨ isQuote c = true ∨
    startsName c = true ∨ (TokenKind.ofSymbol? c).isSome = true) :
    c ∉ Text.lineEndCharacters := by
  refine Text.not_mem_lineEndCharacters_of_isBlank (Bool.eq_false_iff.2 fun hblank => ?_)
  have hvisible := isVisible_of_starts h
  have houtside := isBlank_outside hblank
  omega

theorem not_mem_lineEndCharacters_of_continuesName (h : continuesName c = true) :
    c ∉ Text.lineEndCharacters := by
  rw [continuesName_eq, Bool.or_eq_true] at h
  refine not_mem_lineEndCharacters_of_starts ?_
  rcases h with h | h
  · exact .inr (.inr (.inl h))
  · exact .inl (by rw [startsNumber, h, Bool.true_or])

/-- A token neither begins nor ends with a character that ends a line,
whatever a string holds in between. -/
theorem Denotes.edges (h : Denotes slice word) :
    (∀ c ∈ slice.head?, c ∉ Text.lineEndCharacters) ∧
      ∀ c ∈ slice.getLast?, c ∉ Text.lineEndCharacters := by
  cases h with
  | number numeral =>
    have hmark (c : Char) (hc : c ∈ slice) : c ∉ Text.lineEndCharacters :=
      not_mem_lineEndCharacters_of_starts (.inl (numeral.marks c hc))
    exact ⟨fun c hc => hmark c (List.mem_of_mem_head? hc),
      fun c hc => hmark c (List.mem_of_getLast? hc)⟩
  | @string quote content opens free =>
    have hquote := not_mem_lineEndCharacters_of_starts (.inr (.inl opens))
    refine ⟨fun c hc => ?_, fun c hc => ?_⟩
    · rwa [← Option.some.inj hc]
    · rw [← List.cons_append, List.getLast?_concat] at hc
      rwa [← Option.some.inj hc]
  | @identifier first rest starts continues =>
    have hname := not_mem_lineEndCharacters_of_starts (.inr (.inr (.inl starts)))
    refine ⟨fun c hc => ?_, fun c hc => ?_⟩
    · rwa [← Option.some.inj hc]
    · rcases List.mem_cons.1 (List.mem_of_getLast? hc) with rfl | hc
      · exact hname
      · exact not_mem_lineEndCharacters_of_continuesName (continues c hc)
  | @sign kind c signs =>
    have hsign : c ∉ Text.lineEndCharacters :=
      not_mem_lineEndCharacters_of_starts (.inr (.inr (.inr (by rw [signs]; rfl))))
    exact ⟨fun d hd => by rwa [← Option.some.inj hd], fun d hd => by rwa [← Option.some.inj hd]⟩

/-- The character that a text cannot be split at ends no line. -/
theorem Fault.not_mem_lineEndCharacters {front back : List Char} {tokens : List Token} {p : Nat}
    {e : LexError} (h : Fault front tokens p c back e) : c ∉ Text.lineEndCharacters := by
  cases h with
  | invalid begins => exact Text.not_mem_lineEndCharacters_of_isBlank begins.blank
  | point second last number ends slices begins first =>
    subst second
    decide
  | quote opens free => exact not_mem_lineEndCharacters_of_starts (.inr (.inl opens))

end Lexer

namespace Token.Stands

variable {t : Token} {position : Nat} {front slice back : List Char}

/-- A token starts in a line. -/
theorem inLine_start (h : t.Stands position front slice back) :
    Text.InLine front (slice ++ back) := by
  obtain ⟨c, more, rfl⟩ := List.exists_cons_of_ne_nil h.denotes.ne_nil
  exact .before front (h.denotes.edges.1 c rfl) (more ++ back)

/-- A token ends in a line. -/
theorem inLine_stop (h : t.Stands position front slice back) :
    Text.InLine (front ++ slice) back := by
  obtain rfl | ⟨more, c, rfl⟩ := List.eq_nil_or_concat slice
  · exact absurd rfl h.denotes.ne_nil
  · rw [List.concat_eq_append, ← List.append_assoc]
    refine .behind _ (h.denotes.edges.2 c ?_) back
    rw [List.concat_eq_append]
    exact List.getLast?_concat

end Token.Stands

/-- The offset is that of a place in a line of the text. -/
def Text.InLineAt (offset : Nat) (cs : List Char) : Prop :=
  ∃ front back, cs = front ++ back ∧ Text.byteLength front = offset ∧ Text.InLine front back

/-- A text that cannot be split has its error in a line. -/
theorem LexError.inLine {source : String} {e : LexError} (h : tokenize source = .error e) :
    Text.InLineAt e.span.start source.toList := by
  obtain ⟨front, c, back, tokens, hsplit, hplace, -, hfault⟩ := Lexer.stopsAt_of_tokensFrom h
  rw [Nat.zero_add] at hplace
  exact ⟨front, c :: back, hsplit, hplace, .before front hfault.not_mem_lineEndCharacters back⟩

/-- The end of the last token is such a place, and so is the beginning, if
there are no tokens. -/
theorem Parser.endOffset_inLine {source : String} {tokens : List Token}
    (h : tokenize source = .ok tokens) : Text.InLineAt (endOffset tokens) source.toList := by
  unfold endOffset
  cases hlast : tokens.getLast? with
  | none => exact ⟨[], source.toList, rfl, rfl, .start _⟩
  | some t =>
    obtain ⟨front, slice, back, hsplit, hstands⟩ :=
      (Lexer.tokensFrom_iff_tiles.1 h).stands t (List.mem_of_getLast? hlast)
    refine ⟨front ++ slice, back, by rw [hsplit, List.append_assoc], ?_, hstands.inLine_stop⟩
    show _ = t.span.stop
    rw [hstands.span, Text.byteLength_append, Nat.zero_add]

theorem ParseError.Stands.inLine {source : String} {tokens : List Token} {e : ParseError} {i : Nat}
    (h : e.Stands tokens i) (htokens : tokenize source = .ok tokens) :
    Text.InLineAt e.span.start source.toList := by
  rw [h.span]
  cases ht : tokens[i]? with
  | none => exact Parser.endOffset_inLine htokens
  | some t =>
    obtain ⟨front, slice, back, hsplit, hstands⟩ :=
      (Lexer.tokensFrom_iff_tiles.1 htokens).stands t (List.mem_of_getElem? ht)
    refine ⟨front, slice ++ back, hsplit, ?_, hstands.inLine_start⟩
    show _ = t.span.start
    rw [hstands.span, Nat.zero_add]

/-- An error of a source is placed in a line of it, and its report is about
the same place. -/
theorem Engine.parse_error_inLine {engine : Engine} {source : String} {e : Error}
    (h : engine.parse source = .error e) :
    ∃ span, e.span? = some span ∧ e.diagnostic.span = some span ∧ span.Within source ∧
      Text.InLineAt span.start source.toList := by
  rcases Engine.parse_eq_error_iff.1 h with
    ⟨fault, htokens, rfl⟩ | ⟨tokens, fault, htokens, hread, rfl⟩
  · obtain ⟨front, c, back, hsource, hposition, hblames⟩ := Lexer.tokensFrom_error htokens
    have hspan : fault.span = ⟨Text.byteLength front, Text.byteLength front + c.utf8Size⟩ := by
      rw [hblames.span_eq, hposition, Nat.zero_add]
    exact ⟨fault.span, rfl, rfl, hspan ▸ .of_char hsource, LexError.inLine htokens⟩
  · obtain ⟨i, hstands⟩ := Program.ofTokens_error hread
    exact ⟨fault.span, rfl, rfl, hstands.within htokens, hstands.inLine htokens⟩

-- =============================================================== writers

namespace Report.Writer

/-- The writer splits a source at its line ends and nowhere else. -/
def SplitsLines (writer : Writer) : Prop :=
  ∀ source, Text.SplitAtEnds source.toList (writer.lines source)

/-- The writer takes an offset in bytes to the line with the byte, or to the
last line at the end of the source. -/
def TakesBytes (writer : Writer) : Prop :=
  ∀ source offset, offset ≤ Text.byteLength source.toList →
    Text.HoldsOffset (writer.lines source) offset (writer.lineAt .bytes source offset)

/-- The column of an offset is the number of characters of its line that are
before it. -/
def CountsCharacters (writer : Writer) : Prop :=
  ∀ source above front back below, writer.lines source = above ++ (front ++ back) :: below →
    writer.lineAt .bytes source (Text.byteLength (above.flatten ++ front)) = above.length →
    writer.columnAt .bytes source (Text.byteLength (above.flatten ++ front)) = front.length

/-- Without colours, a report begins with the code and the message, and then
names the place that the notice is about, with lines and columns counted
from one. -/
def NamesPlace (writer : Writer) : Prop :=
  ∀ source notice, notice.coloured = false → notice.measure = .bytes →
    notice.label.span = notice.span → notice.span.Within source →
    ∃ width rest, writer.write source notice
      = "[" ++ notice.code ++ "] Error: " ++ notice.message ++ "\n" ++
        (blanks width ++ "╭─[ " ++ notice.sourceName ++ ":" ++
          toString (writer.lineAt .bytes source notice.span.start + 1) ++ ":" ++
          toString (writer.columnAt .bytes source notice.span.start + 1) ++ " ]\n") ++ rest

/-- A writer finds a place in a line behind as many lines as there are line
ends before it, and as many characters into it as there are behind the last
of them. -/
theorem finds_place {writer : Writer} (hlines : writer.SplitsLines) (hbytes : writer.TakesBytes)
    (hcolumns : writer.CountsCharacters) {source : String} {front back above line : List Char}
    (hsource : source.toList = front ++ back) (hinline : Text.InLine front back)
    (hbroken : Text.Broken front above line) :
    writer.lineAt .bytes source (Text.byteLength front) = Text.lineEnds front ∧
      writer.columnAt .bytes source (Text.byteLength front) = line.length := by
  obtain ⟨whole, more, others, hsplit, rfl, hcount, hmore⟩ :=
    (hlines source).at_place hsource hinline hbroken
  obtain rfl := hbroken.split
  have hfits : Text.byteLength (whole.flatten ++ line) ≤ Text.byteLength source.toList := by
    rw [hsource, Text.byteLength_append _ back]
    exact Nat.le_add_right _ _
  have hholds : Text.HoldsOffset (writer.lines source) (Text.byteLength (whole.flatten ++ line))
      whole.length := by
    rw [hsplit]
    refine .of_append ?_ fun hothers => ?_
    · rw [Text.byteLength_append]
      exact Nat.le_add_right _ _
    · have hwide := Text.byteLength_pos fun hnil => hothers (hmore hnil)
      rw [← List.append_assoc, Text.byteLength_append _ more]
      exact Nat.lt_add_of_pos_right hwide
  have hindex := (hbytes source _ hfits).unique hholds
  rw [← hcount]
  exact ⟨hindex, hcolumns source whole line more others hsplit hindex⟩

end Report.Writer

namespace Report

theorem drawn_splitsLines : drawn.SplitsLines := by
  intro source
  show Text.SplitAtEnds source.toList (if source.toList = [] then [[]] else _)
  split
  · next hnil =>
    rw [hnil]
    exact .last nofun
  · next hsome => exact Text.splitAtEnds_linesOf hsome

/-- The drawn place of an offset is in one of the lines, and the characters
of that line before it are counted. -/
theorem locate_eq (source : String) (offset : Nat) : ∃ whole line others,
    drawn.lines source = whole ++ line :: others ∧
      Text.locate offset source.toList = ⟨whole.length, line, Text.byteLength whole.flatten,
        Text.charsBefore (offset - Text.byteLength whole.flatten) line⟩ ∧
      Text.byteLength whole.flatten ≤ offset ∧
      (others ≠ [] → offset < Text.byteLength (whole.flatten ++ line)) := by
  show ∃ whole line others,
    (if source.toList = [] then [[]] else Text.linesOf source.toList) = _ ∧ _
  by_cases hsource : source.toList = []
  · rw [if_pos hsource, hsource]
    refine ⟨[], [], [], rfl, ?_, Nat.zero_le _, fun h => absurd rfl h⟩
    cases offset <;> rfl
  · rw [if_neg hsource]
    have hlines : Text.linesOf source.toList ≠ [] := fun hnil => hsource (by
      rw [← Text.flatten_linesOf source.toList, hnil]
      rfl)
    have hplace := @Text.locateFrom_eq _ hlines 0 0 offset (Nat.zero_le _)
    simpa only [Nat.zero_add, Text.locate] using hplace

theorem drawn_takesBytes : drawn.TakesBytes := by
  intro source offset hoffset
  obtain ⟨whole, line, others, hlines, hplace, hbegins, hends⟩ := locate_eq source offset
  have hindex : drawn.lineAt .bytes source offset = whole.length := congrArg Text.Place.index hplace
  rw [hindex, hlines]
  exact .of_append hbegins hends

theorem drawn_countsCharacters : drawn.CountsCharacters := by
  intro source above front back below hlines hindex
  obtain ⟨whole, line, others, hlines', hplace, -, -⟩ :=
    locate_eq source (Text.byteLength (above.flatten ++ front))
  have hlength : above.length = whole.length :=
    hindex.symm.trans (congrArg Text.Place.index hplace)
  obtain ⟨rfl, htail⟩ := List.append_inj (hlines.symm.trans hlines') hlength
  obtain ⟨rfl, -⟩ := List.cons.inj htail
  have hcolumn : drawn.columnAt .bytes source (Text.byteLength (above.flatten ++ front)) = _ :=
    congrArg Text.Place.column hplace
  rw [hcolumn, Text.byteLength_append, Nat.add_sub_cancel_left, Text.charsBefore_byteLength]

theorem plain_cons (row : Row) (rows : List Row) :
    plain (row :: rows) = String.join (row.map Piece.text) ++ "\n" ++ plain rows := by
  rw [plain, List.map_cons, String.join_cons]
  rfl

/-- The text of the line that names the place, with lines and characters
counted from one. -/
theorem header_text (name : String) (digits : Nat) (place : Text.Place) :
    String.join ((header name digits place).map Piece.text)
      = blanks (digits + 2) ++ "╭─[ " ++ name ++ ":" ++ toString (place.index + 1) ++ ":" ++
        toString (place.column + 1) ++ " ]" := by
  simp only [header, Piece.bare, Piece.tinted, List.map_cons, List.map_nil,
    String.join_cons, String.join_nil, String.append_assoc, String.append_empty]
  rfl

/-- A picture begins with the line that names the place. -/
theorem snippet_cons (source : List Char) (notice : Notice) :
    ∃ digits rows, snippet source notice
      = header notice.sourceName digits (notice.measure.locate source notice.span.start) :: rows :=
  ⟨_, _, rfl⟩

theorem drawn_namesPlace : drawn.NamesPlace := by
  intro source notice hplain hmeasure _ _
  obtain ⟨digits, rows, hrows⟩ := snippet_cons source.toList notice
  have hheading : String.join ([Piece.tinted .heading ("[" ++ notice.code ++ "] Error:"),
      Piece.bare (" " ++ notice.message)].map Piece.text)
        = "[" ++ notice.code ++ "] Error: " ++ notice.message := by
    simp only [Piece.bare, Piece.tinted, List.map_cons, List.map_nil, String.join_cons,
      String.join_nil, String.append_assoc, String.append_empty]
    rfl
  have hwrite : drawn.write source notice
      = (if notice.coloured then coloured else plain) (drawing source.toList notice) := rfl
  refine ⟨digits + 2, plain rows, ?_⟩
  rw [hwrite, hplain, drawing, hrows, hmeasure]
  show plain _ = _
  rw [plain_cons, plain_cons, hheading, header_text]
  simp only [String.append_assoc]
  rfl

end Report

-- ================================================================ the header

/-- A source that is not read has a report that names the line and the
column of the error, whatever writer it is by. The line is one more than
the line ends before the first byte of the error, and the column is one
more than the characters between the last of these line ends and the
error. -/
theorem Engine.parse_error_header {writer : Report.Writer} (hlines : writer.SplitsLines)
    (hbytes : writer.TakesBytes) (hcolumns : writer.CountsCharacters)
    (hplaces : writer.NamesPlace) {engine : Engine} {source : String} {e : Error}
    (h : engine.parse source = .error e) :
    ∃ span above line back width rest, e.span? = some span ∧
      source.toList = above ++ line ++ back ∧ Text.byteLength (above ++ line) = span.start ∧
      ('\r' ∈ (above ++ line).getLast? → back.head? ≠ some '\n') ∧
      Text.Broken (above ++ line) above line ∧
      writer.report false source e
        = "[" ++ e.diagnostic.code ++ "] Error: " ++ e.diagnostic.message ++ "\n" ++
          (Report.blanks width ++ "╭─[ <input>:" ++
            toString (Text.lineEnds (above ++ line) + 1) ++ ":" ++
            toString (line.length + 1) ++ " ]\n") ++ rest := by
  obtain ⟨span, hspan, hplace, hwithin, front, back, hsource, hfront, hinline⟩ :=
    Engine.parse_error_inLine h
  obtain ⟨above, line, hbroken⟩ := Text.exists_broken front
  obtain ⟨hline, hcolumn⟩ :=
    Report.Writer.finds_place hlines hbytes hcolumns hsource hinline hbroken
  have hnotice : (Report.placed false source span e.diagnostic).span = span := hwithin.clamp_eq
  obtain ⟨width, rest, hwrite⟩ := hplaces source (Report.placed false source span e.diagnostic)
    rfl rfl rfl (hnotice.symm ▸ hwithin)
  rw [hnotice, ← hfront, hline, hcolumn] at hwrite
  obtain rfl := hbroken.split
  refine ⟨span, above, line, back, width, rest, hspan, hsource, hfront, hinline.not_between,
    hbroken, ?_⟩
  have hname : Report.blanks width ++ "╭─[ " ++ Report.sourceName ++ ":"
      = Report.blanks width ++ "╭─[ <input>:" := by
    rw [String.append_assoc, String.append_assoc]
    rfl
  rw [Report.Writer.report, hplace, ← hname]
  exact hwrite

/-- A character behind a string that goes over three lines, with line ends
of two kinds and characters of two and of three bytes in it. -/
theorem Engine.parse_error_header_third_line :
    (default : Engine).parse "'é\r\n€\u2028' @" = .error (.lex (.invalidCharacter '@' 13)) ∧
      ∃ width rest, (Error.lex (.invalidCharacter '@' 13)).report "'é\r\n€\u2028' @"
        = "[L001] Error: invalid character '@' at 13\n" ++
          (Report.blanks width ++ "╭─[ <input>:3:3 ]\n") ++ rest := by
  have hparse : (default : Engine).parse "'é\r\n€\u2028' @"
      = .error (.lex (.invalidCharacter '@' 13)) := by
    decide +kernel
  obtain ⟨span, above, line, back, width, rest, hspan, hsource, hstart, -, hbroken, hreport⟩ :=
    Engine.parse_error_header Report.drawn_splitsLines Report.drawn_takesBytes
      Report.drawn_countsCharacters Report.drawn_namesPlace hparse
  obtain rfl := Option.some.inj hspan
  have hknown : "'é\r\n€\u2028' @".toList
      = "'é\r\n€\u2028".toList ++ "' ".toList ++ ['@'] := by decide
  obtain ⟨hfront, -⟩ := Text.append_inj_of_byteLength (hsource.symm.trans hknown)
    (hstart.trans (by decide))
  have hthird : Text.Broken (above ++ line) "'é\r\n€\u2028".toList "' ".toList :=
    ⟨hfront, by simp [Text.lineEndCharacters], by simp [Text.lineEndCharacters]⟩
  obtain ⟨rfl, rfl⟩ := hbroken.unique hthird
  have hheading : "[" ++ (Error.lex (.invalidCharacter '@' 13)).diagnostic.code ++ "] Error: " ++
      (Error.lex (.invalidCharacter '@' 13)).diagnostic.message ++ "\n"
        = "[L001] Error: invalid character '@' at 13\n" := by decide +kernel
  have hline : toString (Text.lineEnds ("'é\r\n€\u2028".toList ++ "' ".toList) + 1) = "3" := by
    decide +kernel
  have hcolumn : toString ("' ".toList.length + 1) = "3" := by decide +kernel
  refine ⟨hparse, width, rest, hreport.trans ?_⟩
  rw [hheading, hline, hcolumn]
  simp only [String.append_assoc]
  rfl

end Reckoner
