import TabletopChat.Markup.Node
import TabletopChat.Text.Quoted

/-!
# Markup/Outline — the tree, one node a line

- `Message.outline` : every node on a line of its own, indented by its depth
-/

namespace TabletopChat

namespace Markup

def Kind.label : Kind → Text
  | .roll => "Roll [[...]]".toList
  | .math => "Math <<...>>".toList

def indent (depth : Nat) : Text := List.replicate (2 * depth) ' '

mutual

def Node.outline (depth : Nat) : Node → Text
  | .text t _ => indent depth ++ "Text(".toList ++ Text.quoted t ++ [')', '\n']
  | .roll kind closed children _ =>
    indent depth ++ kind.label ++ (if allText children then " leaf".toList else []) ++
      (if closed then [] else " (unclosed)".toList) ++ ['\n'] ++ outlineOf (depth + 1) children

def outlineOf (depth : Nat) : List Node → Text
  | [] => []
  | n :: ns => n.outline depth ++ outlineOf depth ns

end

def Message.outline (m : Message) : Text := "Message\n".toList ++ outlineOf 1 m.children

end Markup

end TabletopChat
