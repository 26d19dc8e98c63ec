import TabletopChat.Markup.Token

/-!
# Markup/Node — the tree of nested rolls

- `Kind`    : roll or inline math
- `Node`    : a text, or a roll with its children
- `Message` : the root
- `Node.source`, `Message.source` : the text a node was read from
- `Node.tooltip` : the expression that is shown for an evaluated roll
-/

namespace TabletopChat

namespace Markup

/-- A roll `[[...]]`, or inline math `<<...>>`. -/
inductive Kind
  | roll
  | math
  deriving DecidableEq, Repr

def Kind.name : Kind → Text
  | .roll => "roll".toList
  | .math => "math".toList

def Kind.opener : Kind → Delimiter
  | .roll => .rollOpen
  | .math => .mathOpen

def Kind.closer : Kind → Delimiter
  | .roll => .rollClose
  | .math => .mathClose

/-- A part of a message: text, or a roll. A roll that reaches the end of the message without its
closing delimiter is not `closed`. -/
inductive Node
  | text (value : Text) (span : Span)
  | roll (kind : Kind) (closed : Bool) (children : List Node) (span : Span)
  deriving Repr

def Node.span : Node → Span
  | .text _ s => s
  | .roll _ _ _ s => s

def Node.text? : Node → Option Text
  | .text t _ => some t
  | .roll .. => none

def Node.isText (n : Node) : Bool := n.text?.isSome

def allText (children : List Node) : Bool := children.all Node.isText

/-- A whole message. -/
structure Message where
  children : List Node
  span : Span
  deriving Repr

/-! ## Source text -/

mutual

def Node.source : Node → Text
  | .text t _ => t
  | .roll kind closed children _ =>
    kind.opener.source ++ sourceOf children ++ (if closed then kind.closer.source else [])

def sourceOf : List Node → Text
  | [] => []
  | n :: ns => n.source ++ sourceOf ns

end

def Message.source (m : Message) : Text := sourceOf m.children

/-- What hovering over an evaluated roll shows: its inner text without roll delimiters. -/
def tooltipOf (children : List Node) : Text :=
  Text.replaceAll [']', ']'] [] (Text.replaceAll ['[', '['] [] (sourceOf children))

end Markup

end TabletopChat
