import TabletopChat.Arithmetic.Literal

/-!
# Arithmetic/Template — quoted texts with expressions inside of them

A template has no value, but it can be malformed: its expressions have to be expressions, and its
braces have to be balanced. Doubled braces stand for themselves outside of expressions.

- `scanHole`    : how far the expression behind an opening brace reaches
- `holes?`      : the expressions of a template, those of format specifications included
-/

namespace TabletopChat

namespace Arithmetic

namespace Template

/-! ## Literal parts -/

/-- The literal part up to the next brace, and what follows it. Backslashes hide the next character
unless it is a brace; the name in braces after a backslash and `N` is skipped. -/
def literalPart (raw : Bool) : Nat → Text → Text × Text
  | 0, t => ([], t)
  | _ + 1, [] => ([], [])
  | fuel + 1, c :: cs =>
    if c = '\x7b' || c = '\x7d' then ([], c :: cs)
    else if c = '\\' && !raw then
      match cs with
      | [] => ([c], [])
      | 'N' :: '\x7b' :: rest =>
        let name := rest.takeWhile (· ≠ '\x7d')
        let (part, after) := literalPart raw fuel ((rest.dropWhile (· ≠ '\x7d')).drop 1)
        (c :: 'N' :: '\x7b' :: name ++ '\x7d' :: part, after)
      | d :: rest =>
        if d = '\x7b' || d = '\x7d' then ([c], d :: rest)
        else
          let (part, after) := literalPart raw fuel rest
          (c :: d :: part, after)
    else
      let (part, after) := literalPart raw fuel cs
      (c :: part, after)

/-- A literal part may end in a backslash; other escapes have to be well formed. -/
def literalOk (raw : Bool) (part : Text) : Bool :=
  raw || (unescape false part).isSome

/-! ## Expressions -/

structure Quote where
  mark : Char
  triple : Bool
  deriving DecidableEq, Repr

def closingOf? (c : Char) : Option Char :=
  if c = '(' then some ')'
  else if c = '[' then some ']'
  else if c = '\x7b' then some '\x7d'
  else none

/-- Whether `c` and `d` together are a comparison. -/
def isComparison (c : Char) (d : Option Char) : Bool :=
  (c = '!' || c = '=' || c = '<' || c = '>') && d = some '='

/-- How far an expression reaches: up to a `!`, `:`, `=` or closing brace outside of brackets and
quotes. `stack` holds the closing brackets that are due. -/
def scanHole : Nat → Option Quote → List Char → Text → Option (Text × Text)
  | 0, _, _, _ => none
  | _ + 1, _, _, [] => none
  | fuel + 1, quote, stack, c :: cs =>
    let go := fun (n : Nat) (quote : Option Quote) (stack : List Char) =>
      (scanHole fuel quote stack ((c :: cs).drop n)).map fun (e, rest) =>
        ((c :: cs).take n ++ e, rest)
    if c = '\\' then none
    else
      match quote with
      | some q =>
        if c = q.mark then
          if !q.triple then go 1 none stack
          else if cs.take 2 = [c, c] then go 3 none stack
          else go 1 quote stack
        else go 1 quote stack
      | none =>
        if c = '\'' || c = '"' then
          if cs.take 2 = [c, c] then go 3 (some ⟨c, true⟩) stack else go 1 (some ⟨c, false⟩) stack
        else if let some d := closingOf? c then
          if stack.length < 200 then go 1 none (d :: stack) else none
        else if c = '#' then none
        else
          match stack with
          | [] =>
            if isComparison c cs.head? then go 2 none []
            else if c = '!' || c = ':' || c = '=' || c = '\x7d' then some ([], c :: cs)
            else if c = ')' || c = ']' then none
            else go 1 none []
          | d :: outer =>
            if c = ')' || c = ']' || c = '\x7d' then if c = d then go 1 none outer else none
            else go 1 none stack

def afterEquals (t : Text) : Text :=
  match t with
  | '=' :: rest => rest.dropWhile fun c => c = ' ' || (decide (9 ≤ c.toNat) && decide (c.toNat ≤ 13))
  | t => t

def afterConversion? (t : Text) : Option Text :=
  match t with
  | '!' :: c :: rest => if c = 's' || c = 'r' || c = 'a' then some rest else none
  | ['!'] => none
  | t => some t

/-- The expressions of a template from here on and what follows it. At depth zero the template ends
with the text; a format specification inside of it ends before a closing brace. -/
def holesFrom (raw : Bool) : Nat → Nat → Text → Option (List Text × Text)
  | 0, _, _ => none
  | fuel + 1, depth, t =>
    let (part, rest) := literalPart raw (t.length + 1) t
    if !literalOk raw part then none
    else
      match rest with
      | [] => if depth = 0 then some ([], []) else none
      | c :: cs =>
        if depth = 0 && cs.head? = some c then holesFrom raw fuel depth (cs.drop 1)
        else if c = '\x7d' then if depth = 0 then none else some ([], rest)
        else if depth ≥ 2 then none
        else
          (scanHole (cs.length + 1) none [] cs).bind fun (e, rest) =>
            if e.all (fun c => c = ' ' || c = '\t' || c = '\n' || c = '\x0c') then none
            else
              (afterConversion? (afterEquals rest)).bind fun rest =>
                let inner : Option (List Text × Text) := match rest with
                  | ':' :: spec => holesFrom raw fuel (depth + 1) spec
                  | rest => some ([], rest)
                inner.bind fun (es, rest) =>
                  match rest with
                  | '\x7d' :: rest =>
                    (holesFrom raw fuel depth rest).map fun (fs, rest) => (e :: es ++ fs, rest)
                  | _ => none

def holes? (raw : Bool) (body : Text) : Option (List Text) :=
  (holesFrom raw (2 * body.length + 2) 0 body).map Prod.fst

end Template

end Arithmetic

end TabletopChat
