import TabletopChat.Diagnostics.Known
import TabletopChat.Diagnostics.Unclosed

/-!
# Diagnostics/Check — what is wrong with a document

- `Diagnostic` : a message about a stretch of a document
- `placeAt`    : the line and the column of an offset
- `check`      : all diagnostics of a document
-/

namespace TabletopChat

namespace Diagnostics

open Markup

inductive Severity
  | error | warning
  deriving DecidableEq, Repr

structure Diagnostic where
  severity : Severity
  message : Text
  span : Span
  deriving DecidableEq, Repr

/-- Where the line begins that an offset lies in: behind the last line feed before it. -/
def lineStart (source : Text) (offset : Nat) : Nat :=
  ((source.take offset).reverse.dropWhile (· ≠ '\n')).length

/-- The place at an offset of a document. Its line is found by counting line feeds, and its column from
where the line begins. -/
def placeAt (source : Text) (offset : Nat) : Position :=
  ⟨(source.take offset).count '\n' + 1, offset - lineStart source offset + 1, offset⟩

def warningAt (source : Text) (start finish : Nat) (message : Text) : Diagnostic :=
  ⟨.warning, message, ⟨placeAt source start, placeAt source finish⟩⟩

/-- The warning about a reference to a result that there will not be. -/
def unknownMessage (name : Text) : Text := "no roll with id '".toList ++ name ++ ['\'']

/-- The warnings about references in the pieces of a document, the first of which is at `offset`. -/
def unknownReferences (source : Text) (known : List Text) (offset : Nat) :
    List (Piece Evaluation.Reference) → List Diagnostic
  | [] => []
  | .plain _ :: ps => unknownReferences source known (offset + 1) ps
  | .tag ref t :: ps =>
    let rest := unknownReferences source known (offset + t.length) ps
    if ref.name ∈ known then rest
    else warningAt source offset (offset + t.length) (unknownMessage ref.name) :: rest

/-- The diagnostics on the rolls of a document: the first fault of its delimiters, or else references
without a result. -/
def checkRolls (inlineMath : Bool) (source : Text) : List Diagnostic :=
  match parseStrict inlineMath source with
  | .error f => [⟨.error, f.cause.message, f.span⟩]
  | .ok m =>
    unknownReferences source (knownNames m) 0 (Text.tagPieces Evaluation.reference? source)

/-- The warnings about prompts that are never closed. -/
def checkPrompts (source : Text) : List Diagnostic :=
  (unclosed source).map fun offset =>
    warningAt source offset (offset + 2) "prompt tag is never closed".toList

def check (inlineMath : Bool) (source : Text) : List Diagnostic :=
  checkRolls inlineMath source ++ checkPrompts source

end Diagnostics

end TabletopChat
