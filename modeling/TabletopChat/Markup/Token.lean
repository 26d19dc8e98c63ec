import TabletopChat.Markup.Position

/-!
# Markup/Token — roll delimiters and the text between them

A message is cut into delimiters and runs of text. `[[` and `]]` surround a roll; where inline math
is on, `<<` and `>>` surround an expression in which nothing but the closing `>>` is special.

- `Delimiter`, `Lexeme` : what a message is cut into
- `lexemes`             : the cut
- `Token`, `tokens`     : lexemes with the stretch that each covers
-/

namespace TabletopChat

namespace Markup

/-! ## Delimiters -/

inductive Delimiter
  | rollOpen
  | rollClose
  | mathOpen
  | mathClose
  deriving DecidableEq, Repr

def Delimiter.source : Delimiter → Text
  | .rollOpen => ['[', '[']
  | .rollClose => [']', ']']
  | .mathOpen => ['<', '<']
  | .mathClose => ['>', '>']

/-- Where in a message the cut has arrived: in ordinary text, or between `<<` and `>>`. -/
inductive Mode
  | ordinary
  | math
  deriving DecidableEq, Repr

/-- The delimiter that two characters make. Inside of inline math only `>>` is one; outside, `<<`
and `>>` are delimiters where inline math is on. -/
def Delimiter.ofPair? (inlineMath : Bool) : Mode → Char → Char → Option Delimiter
  | .math, c, d => if c = '>' ∧ d = '>' then some .mathClose else none
  | .ordinary, c, d =>
    if c = '[' ∧ d = '[' then some .rollOpen
    else if c = ']' ∧ d = ']' then some .rollClose
    else if inlineMath ∧ c = '<' ∧ d = '<' then some .mathOpen
    else if inlineMath ∧ c = '>' ∧ d = '>' then some .mathClose
    else none

def Mode.after (m : Mode) : Delimiter → Mode
  | .mathOpen => .math
  | .mathClose => .ordinary
  | _ => m

/-! ## Lexemes -/

/-- A delimiter, a run of text, or the end of the message. -/
inductive Lexeme
  | delimiter (d : Delimiter)
  | text (t : Text)
  | finish
  deriving DecidableEq, Repr

def Lexeme.source : Lexeme → Text
  | .delimiter d => d.source
  | .text t => t
  | .finish => []

/-- Puts a character in front: into the first run of text, or as a run of its own. -/
def consChar (c : Char) : List Lexeme → List Lexeme
  | .text t :: ls => .text (c :: t) :: ls
  | ls => .text [c] :: ls

/-- Cuts a text into delimiters and runs of text, without the end. A delimiter is taken as soon as
its two characters appear. -/
def lexemes (inlineMath : Bool) : Mode → Text → List Lexeme
  | _, [] => []
  | _, [c] => [.text [c]]
  | m, c :: d :: cs =>
    match Delimiter.ofPair? inlineMath m c d with
    | some k => .delimiter k :: lexemes inlineMath (m.after k) cs
    | none => consChar c (lexemes inlineMath m (d :: cs))

/-! ## Tokens -/

structure Token where
  lexeme : Lexeme
  span : Span
  deriving DecidableEq, Repr

def place : Position → List Lexeme → List Token
  | _, [] => []
  | p, l :: ls =>
    let q := p.after l.source
    ⟨l, ⟨p, q⟩⟩ :: place q ls

/-- The tokens of a message; the last one is its end. -/
def tokens (inlineMath : Bool) (source : Text) : List Token :=
  place .start (lexemes inlineMath .ordinary source ++ [.finish])

/-! ## Nothing is lost -/

@[simp] theorem flatMap_source_consChar (c : Char) (ls : List Lexeme) :
    (consChar c ls).flatMap Lexeme.source = c :: ls.flatMap Lexeme.source := by
  unfold consChar
  split <;> simp [Lexeme.source]

/-- A delimiter stands for the two characters it was made of. -/
theorem Delimiter.source_of_ofPair? {inlineMath : Bool} {m : Mode} {c d : Char} {k : Delimiter}
    (h : Delimiter.ofPair? inlineMath m c d = some k) : k.source = [c, d] := by
  cases m <;> simp only [Delimiter.ofPair?] at h <;> repeat' split at h
  all_goals simp_all [Delimiter.source]
  all_goals subst h; rfl

/-- The lexemes of a text, one after the other, are the text. -/
theorem flatMap_source_lexemes (inlineMath : Bool) (m : Mode) (t : Text) :
    (lexemes inlineMath m t).flatMap Lexeme.source = t := by
  fun_induction lexemes inlineMath m t with
  | case1 => rfl
  | case2 => rfl
  | case3 m c d cs k hk ih =>
    simp [Lexeme.source, Delimiter.source_of_ofPair? hk, ih]
  | case4 m c d cs hk ih => simp [ih]

end Markup

end TabletopChat
