import TabletopChat.Actor.Tag

/-!
# Prompt/Atom — the smallest parts of a prompt tag

A prompt tag holds no braces, except those of tags for actor data, each of which counts as one part.

- `Atom`       : a character, or a tag for actor data
- `Atom.span`  : as many atoms as possible at the beginning of a text
- `Atom.inBraces?` : the atoms between `?{` and `}`
-/

namespace TabletopChat

namespace Prompt

/-- A character that is no brace, or a tag for actor data. -/
inductive Atom
  | plain (c : Char)
  | actor (name : Text)
  deriving DecidableEq, Repr

namespace Atom

def source : Atom → Text
  | .plain c => [c]
  | .actor name => '\x7b' :: '\x7b' :: name ++ ['\x7d', '\x7d']

def sourceOf (as : List Atom) : Text := as.flatMap source

def first? : Text → Option (Atom × Text)
  | [] => none
  | c :: cs =>
    if c = '\x7b' then
      match Actor.tag? (c :: cs) with
      | some (n :: name, rest) => some (.actor (n :: name), rest)
      | _ => none
    else if c = '\x7d' then none
    else some (.plain c, cs)

/-- At most `fuel` atoms at the beginning of a text, and what follows them. -/
def spanFrom : Nat → Text → List Atom × Text
  | 0, t => ([], t)
  | fuel + 1, t =>
    match first? t with
    | none => ([], t)
    | some (a, rest) =>
      let (as, after) := spanFrom fuel rest
      (a :: as, after)

/-- As many atoms as possible at the beginning of a text, and what follows them. -/
def span (t : Text) : List Atom × Text := spanFrom t.length t

def all? (t : Text) : Option (List Atom) :=
  match span t with
  | (as, []) => some as
  | _ => none

/-- The atoms between `?{` and `}` at the beginning of a text, and what follows. -/
def inBraces? : Text → Option (List Atom × Text)
  | '?' :: '\x7b' :: t =>
    match span t with
    | (as, '\x7d' :: rest) => some (as, rest)
    | _ => none
  | _ => none

/-- Atoms cut at the bars between them; there is always at least one segment. -/
def segments : List Atom → List (List Atom)
  | [] => [[]]
  | a :: as =>
    if a = .plain '|' then
      [] :: segments as
    else
      match segments as with
      | [] => [[a]]
      | s :: ss => (a :: s) :: ss

def sourceOfSegments (ss : List (List Atom)) : Text := Text.joinWith ['|'] (ss.map sourceOf)

end Atom

end Prompt

end TabletopChat
