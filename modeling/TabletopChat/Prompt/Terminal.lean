import TabletopChat.Prompt.Answerer
import TabletopChat.Text.Digit

/-!
# Prompt/Terminal — answers read from lines

The state of the answerer is the input that is not read yet, whose lines end in line feeds. The end of
the input dismisses a question.

- `nextLine?`    : one line
- `picked?`      : the choices whose numbers a line holds
- `terminal`     : an answerer that reads lines
-/

namespace TabletopChat

namespace Prompt

/-! ## Lines -/

def nextLine? : Text → Option (Text × Text)
  | [] => none
  | t =>
    match Text.cutAt '\n' t with
    | (line, some rest) => some (line, rest)
    | (line, none) => some (line, [])

def bareLine (line : Text) : Text := (line.reverse.dropWhile (· = '\r')).reverse

/-! ## Texts -/

def textHint (query fallback : Text) : Text :=
  query ++ (if fallback = [] then [] else " [".toList ++ fallback ++ [']']) ++ ": ".toList

/-- Reads a text; a blank line means the fallback. -/
def readText (query fallback : Text) (input : Text) : Reply Text Text :=
  match nextLine? input with
  | none => ⟨none, textHint query fallback, []⟩
  | some (line, rest) =>
    let answer := Text.strip line
    ⟨some (if answer = [] then fallback else answer), textHint query fallback, rest⟩

/-! ## Choices -/

def choiceHint (kind : Kind) : Text :=
  if kind = .checkbox then "numbers, comma-separated".toList else "number".toList

def choiceLine (n : Nat) (c : Choice) : Text :=
  ' ' :: (if c.selected then '*' else ' ') :: Text.ofNat n ++ ") ".toList ++ c.label ++ ['\n']

def choiceLines (n : Nat) : List Choice → Text
  | [] => []
  | c :: cs => choiceLine n c ++ choiceLines (n + 1) cs

def choicePrompt (kind : Kind) : Text := "Choose (".toList ++ choiceHint kind ++ "): ".toList

def retryNotice (kind : Kind) (choices : List Choice) : Text :=
  "Enter ".toList ++ choiceHint kind ++ " between 1 and ".toList ++ Text.ofNat choices.length ++ ['\n']

def numbered? (choices : List Choice) (item : Text) : Option Choice :=
  match Text.toInt? item with
  | some (.ofNat (n + 1)) => choices[n]?
  | _ => none

/-- The choices whose numbers some items are; blank items do not count. -/
def numberedAll? (choices : List Choice) : List Text → Option (List Choice)
  | [] => some []
  | item :: items =>
    if Text.strip item = [] then numberedAll? choices items
    else
      match numbered? choices (Text.strip item), numberedAll? choices items with
      | some c, some cs => some (c :: cs)
      | _, _ => none

def withoutRepeats (seen : List Choice) : List Choice → List Choice
  | [] => []
  | c :: cs => if c ∈ seen then withoutRepeats seen cs else c :: withoutRepeats (seen ++ [c]) cs

/-- The choices whose numbers a line holds, each once: at least one number, and each of a choice that is
offered. -/
def picked? (choices : List Choice) (line : Text) : Option (List Choice) :=
  match numberedAll? choices (Text.pieces ',' line) with
  | some (c :: cs) => some (withoutRepeats [] (c :: cs))
  | _ => none

/-- Reads choices from the lines of the input, of which there are at most `fuel`. A blank line keeps
what was chosen last time, and a line that is rejected is followed by the next one. -/
def readLines (kind : Kind) (choices : List Choice) : Nat → Text → Reply Text (List Choice)
  | 0, input => ⟨none, [], input⟩
  | fuel + 1, input =>
    match nextLine? input with
    | none => ⟨none, choicePrompt kind, []⟩
    | some (line, rest) =>
      let line := bareLine line
      if Text.allBlank line then ⟨some (choices.filter Choice.selected), choicePrompt kind, rest⟩
      else
        match picked? choices line with
        | some cs => ⟨some (if kind = .checkbox then cs else cs.take 1), choicePrompt kind, rest⟩
        | none =>
          let r := readLines kind choices fuel rest
          { r with shown := choicePrompt kind ++ retryNotice kind choices ++ r.shown }

def readChoices (query : Text) (kind : Kind) (choices : List Choice) (input : Text) :
    Reply Text (List Choice) :=
  let r := readLines kind choices (input.length + 1) input
  { r with shown := query ++ '\n' :: choiceLines 1 choices ++ r.shown }

/-! ## The answerer -/

def terminal : Answerer Text where
  text := readText
  choice := readChoices

end Prompt

end TabletopChat
