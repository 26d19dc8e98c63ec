import TabletopChat.Act
import TabletopChat.Store

/-!
# Prompt/Memory — choices that are remembered

The choices that were made are remembered by the source of their tag and a name. They are kept in a
store as one text.

- `Memory`            : the choices that were made
- `Memory.load`, `Memory.save?` : reading them from a store and writing them
- `Memory.find`, `Memory.remember`, `Memory.forget` : one choice
-/

namespace TabletopChat

namespace Prompt

/-- Choices by the source of their tag, and the section of the store where they are kept. What was
stored by others may have any form. -/
structure Memory where
  place : Text
  tags : Entries Json

namespace Memory

def key : Text := "promptOptionsMemory".toList

/-! ## Storing -/

/-- The choices that a text writes: none if the text is empty, is no JSON or no object. -/
def parse (t : Text) : Except Abort (Entries Json × Journal) :=
  if t = [] then .ok ([], [])
  else
    match Json.parse t with
    | .ok (.object tags) => .ok (tags, [])
    | .ok _ => .ok ([], [])
    | .error .numeralTooLong => .error .numeralTooLong
    | .error fault =>
      .ok ([], Journal.warn .prompts ("discarding unreadable prompt memory: ".toList ++
        fault.message t) [])

/-- The choices in a section of a store, and what is said when they are read. -/
def load (place : Text) (s : Store) : Except Abort (Memory × Journal) :=
  match parse ((s.get? place key).getD []) with
  | .ok (tags, remarks) => .ok (⟨place, tags⟩, remarks ++ s.remarks)
  | .error e => .error e

def render (m : Memory) : Text := Json.render (.object m.tags)

/-- The store after the choices were written to it, if they can be. -/
def save? (m : Memory) (s : Store) : Option Store := s.set? m.place key m.render

/-! ## One choice -/

def find (tag name : Text) (m : Memory) : Except Abort (Option Json) :=
  match Entries.get? tag m.tags with
  | none => .ok none
  | some (.object names) => .ok (Entries.get? name names)
  | some _ => .error .noObject

def remember (tag name value : Text) (m : Memory) : Except Abort Memory :=
  match Entries.get? tag m.tags with
  | none => .ok { m with tags := Entries.insert tag (.object [(name, .text value)]) m.tags }
  | some (.object names) =>
    .ok { m with tags := Entries.insert tag (.object (Entries.insert name (.text value) names)) m.tags }
  | some _ => .error .wrongType

def forget (tag name : Text) (m : Memory) : Except Abort Memory :=
  match Entries.get? tag m.tags with
  | none => .ok m
  | some (.object names) =>
    .ok { m with tags := Entries.insert tag (.object (Entries.erase name names)) m.tags }
  | some (.list _) => .error .wrongType
  | some _ => .error .noObject

end Memory

end Prompt

end TabletopChat
