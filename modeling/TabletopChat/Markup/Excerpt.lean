import TabletopChat.Markup.Parser
import TabletopChat.Text.Lines

/-!
# Markup/Excerpt — a fault shown in its source line

- `excerpt`      : a message, the place, the line and carets under the stretch
- `Fault.report` : the excerpt for a fault
-/

namespace TabletopChat

namespace Markup

def messageName : Text := "<message>".toList

def dropEnd (c : Char) (t : Text) : Text := (t.reverse.dropWhile (· = c)).reverse

/-- The line with the given number, counted from one, without line feeds and carriage returns at
its end; the empty text when there is no such line. -/
def lineAt (source : Text) (line : Nat) : Text :=
  if line = 0 then []
  else dropEnd '\r' (dropEnd '\n' ((Text.lines source).getD (line - 1) []))

/-- How many characters are underlined: the stretch if it ends in its line, otherwise the rest of
the line; at least one. -/
def underlineLength (span : Span) (line : Text) : Nat :=
  if span.finish.line = span.start.line then max 1 (span.finish.column - span.start.column)
  else max 1 (line.length + 1 - span.start.column)

def excerpt (fileName message : Text) (span : Span) (source : Text) : Text :=
  let line := lineAt source span.start.line
  let number := Text.ofNat span.start.line
  let gutter := List.replicate (number.length + 1) ' '
  let column := Text.ofNat span.start.column
  "error: ".toList ++ message ++ ['\n'] ++
    gutter ++ "--> ".toList ++ fileName ++ [':'] ++ number ++ [':'] ++ column ++ ['\n'] ++
    gutter ++ ['|', '\n'] ++
    number ++ [' ', '|', ' '] ++ line ++ ['\n'] ++
    gutter ++ ['|', ' '] ++ List.replicate (span.start.column - 1) ' ' ++
    List.replicate (underlineLength span line) '^'

def Fault.report (f : Fault) (fileName source : Text) : Text :=
  excerpt fileName f.cause.message f.span source

end Markup

end TabletopChat
