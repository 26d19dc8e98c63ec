import TabletopChat.Entries
import TabletopChat.Journal
import TabletopChat.Json.Basic

/-!
# Expansion/Hooks — changes to a message between two stages

Handlers belong to the host of an expansion, as whoever answers its questions does. They read and change
the state of the host.

- `Handler`    : a change that depends on the message, on further arguments and on the host
- `Hooks`      : handlers by the moment at which they are called
- `Hooks.on`, `Hooks.off` : adding and removing a handler
- `Hooks.call` : all handlers of a moment, one after the other
-/

namespace TabletopChat

namespace Expansion

/-- A change of a message, and of the state of the host; without a result, or with an empty one, the
message stays as it is. Handlers are told apart by their names. -/
structure Handler (σ : Type) where
  name : Text
  change : Text → List Json → σ → Option Text × σ

/-- Handlers by the moment at which they are called, in the order in which they were added. -/
abbrev Hooks (σ : Type) := Entries (List (Handler σ))

namespace Hooks

variable {σ : Type}

def handlers (moment : Text) (hs : Hooks σ) : List (Handler σ) := (Entries.get? moment hs).getD []

/-- Adds a handler; one handler may be added several times. -/
def on (moment : Text) (h : Handler σ) (hs : Hooks σ) : Hooks σ :=
  Entries.insert moment (handlers moment hs ++ [h]) hs

/-- The handlers without the first one that has a name. -/
def without (name : Text) : List (Handler σ) → List (Handler σ)
  | [] => []
  | h :: hs => if h.name = name then hs else h :: without name hs

def off (moment name : Text) (hs : Hooks σ) : Hooks σ :=
  if Entries.has moment hs then Entries.insert moment (without name (handlers moment hs)) hs else hs

def apply (args : List Json) (p : Text × σ) (h : Handler σ) : Text × σ :=
  match h.change p.1 args p.2 with
  | (some (c :: cs), s) => (c :: cs, s)
  | (_, s) => (p.1, s)

def call (moment message : Text) (args : List Json) (hs : Hooks σ) (s : σ) : Text × σ :=
  (handlers moment hs).foldl (apply args) (message, s)

def remarks (moment : Text) (hs : Hooks σ) : Journal :=
  let n := (handlers moment hs).length
  if n = 0 then []
  else
    Journal.detail .hooks
      ("calling ".toList ++ Text.ofNat n ++ " handler(s) for ".toList ++ moment) []

/-! ## Moments -/

def atBegin : Text := "parse_macros_begin".toList

def afterPrompts : Text := "parse_macros_after_prompts".toList

def atEnd : Text := "parse_macros_end".toList

end Hooks

end Expansion

end TabletopChat
