import TabletopChat.Text.Basic

/-!
# Text/Piece — a text as plain characters and tags

Tags are found from left to right: where one begins, it is taken as a whole, and the search goes on
behind it. Whatever replaces a tag is therefore never searched again.

- `Piece`       : a character, or a tag with the text it was read from
- `tagPieces`   : the pieces of a text
- `replaceTags` : every tag replaced
- `Woven`       : a text made of what may stand in place of the pieces
-/

namespace TabletopChat

/-- A part of a text: a character outside of all tags, or a tag with its source. -/
inductive Piece (α : Type)
  | plain (c : Char)
  | tag (a : α) (source : Text)
  deriving Repr

namespace Piece

variable {α : Type}

def source : Piece α → Text
  | .plain c => [c]
  | .tag _ t => t

end Piece

namespace Text

variable {α : Type}

/-- The pieces of a text whose tags are read by `tag?`, which leaves what follows a tag. At most `fuel`
pieces are read. -/
def tagPiecesFrom (tag? : Text → Option (α × Text)) : Nat → Text → List (Piece α)
  | 0, _ => []
  | _ + 1, [] => []
  | fuel + 1, c :: cs =>
    match tag? (c :: cs) with
    | some (a, rest) =>
      .tag a ((c :: cs).take (cs.length + 1 - rest.length)) :: tagPiecesFrom tag? fuel rest
    | none => .plain c :: tagPiecesFrom tag? fuel cs

def tagPieces (tag? : Text → Option (α × Text)) (t : Text) : List (Piece α) :=
  tagPiecesFrom tag? t.length t

/-- What stands in place of a piece: plain characters stay, and tags are replaced. -/
def replacePiece (value : α → Text → Text) : Piece α → Text
  | .plain c => [c]
  | .tag a source => value a source

def replaceTags (tag? : Text → Option (α × Text)) (value : α → Text → Text) (t : Text) : Text :=
  (tagPieces tag? t).flatMap (replacePiece value)

/-- A text made of pieces: plain characters stay, and in place of each tag stands a text that may be given
for the tag and its source. -/
inductive Woven (gives : α → Text → Text → Prop) : List (Piece α) → Text → Prop
  | nil : Woven gives [] []
  | plain {c : Char} {ps : List (Piece α)} {t : Text} (h : Woven gives ps t) :
      Woven gives (.plain c :: ps) (c :: t)
  | tag {a : α} {source value : Text} {ps : List (Piece α)} {t : Text} (hvalue : gives a source value)
      (h : Woven gives ps t) : Woven gives (.tag a source :: ps) (value ++ t)

/-- Replacing tags weaves what each of them gives into the text around them. -/
theorem woven_replaceTags {gives : α → Text → Text → Prop} {value : α → Text → Text}
    (h : ∀ a source, gives a source (value a source)) (tag? : Text → Option (α × Text)) (t : Text) :
    Woven gives (tagPieces tag? t) (replaceTags tag? value t) := by
  unfold replaceTags
  induction tagPieces tag? t with
  | nil => exact .nil
  | cons p ps ih =>
    cases p with
    | plain c => exact .plain ih
    | tag a source => exact .tag (h a source) ih

end Text

end TabletopChat
