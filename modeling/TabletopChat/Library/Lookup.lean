import TabletopChat.Entries
import TabletopChat.Library.Macro

/-!
# Library/Lookup — which macro a tag invokes

- `Macros`    : all stored macros
- `appliesTo` : whether a macro can be invoked for an actor
- `lookup`    : the macros that can be invoked, by tag
-/

namespace TabletopChat

namespace Library

/-- Stored macros. -/
abbrev Macros := List Macro

/-- The scopes in which a tag is looked up, first the narrowest. -/
def scopes : List Scope := [.actor, .world, .all]

/-- Whether a macro of a scope can be invoked for an actor: one that belongs to an actor only for this
actor. -/
def appliesTo (actor : Option Text) (scope : Scope) (m : Macro) : Bool :=
  m.scope = scope && (scope ≠ .actor || (actor.isSome && m.owner = actor))

/-- The macros that can be invoked for an actor, in the order in which they take precedence. -/
def candidates (actor : Option Text) (ms : Macros) : List Macro :=
  scopes.flatMap fun scope => ms.filter (appliesTo actor scope)

/-- The macros that can be invoked for an actor by tag; the first candidate for a tag counts. -/
def lookup (actor : Option Text) (ms : Macros) : Entries Macro :=
  (candidates actor ms).foldl (fun found m => Entries.insertNew m.tag m found) []

end Library

end TabletopChat
