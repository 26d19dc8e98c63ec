import TabletopChat.Text.Basic

/-!
# Markup/Position — places in a message

- `Position`       : line and column, counted from one, and the offset, counted from zero
- `Position.after` : the place behind a text
- `Span`           : the stretch between two places
-/

namespace TabletopChat

namespace Markup

/-- A place in a message. Lines end at line feeds only. -/
structure Position where
  line : Nat
  column : Nat
  offset : Nat
  deriving DecidableEq, Repr

namespace Position

def start : Position := ⟨1, 1, 0⟩

def next (p : Position) (c : Char) : Position :=
  if c = '\n' then ⟨p.line + 1, 1, p.offset + 1⟩ else ⟨p.line, p.column + 1, p.offset + 1⟩

def after (p : Position) (t : Text) : Position := t.foldl next p

@[simp] theorem after_nil (p : Position) : p.after [] = p := rfl

theorem after_append (p : Position) (s t : Text) : p.after (s ++ t) = (p.after s).after t := by
  simp [after]

@[simp] theorem offset_next (p : Position) (c : Char) : (p.next c).offset = p.offset + 1 := by
  unfold next; split <;> rfl

/-- Offsets count characters. -/
theorem offset_after (p : Position) (t : Text) : (p.after t).offset = p.offset + t.length := by
  induction t generalizing p with
  | nil => rfl
  | cons c cs ih =>
    have h : p.after (c :: cs) = (p.next c).after cs := rfl
    simp [h, ih]; omega

end Position

/-- The stretch of a message from one place to another. -/
structure Span where
  start : Position
  finish : Position
  deriving DecidableEq, Repr

end Markup

end TabletopChat
