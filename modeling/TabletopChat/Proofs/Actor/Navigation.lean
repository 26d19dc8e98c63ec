import TabletopChat.Actor.Data
import TabletopChat.Proofs.Entries
import TabletopChat.Proofs.Prompt.Items
import TabletopChat.Proofs.Text.Numeral
import TabletopChat.Proofs.Prompt.TagSource

/-!
# Proofs/Actor/Navigation — the data of an actor by path

A path into the data of an actor is a row of segments with dots between them. The segments are followed one
after the other, from an object to the member under a key and from a list to the item at a position. If no
key is empty or has a dot in it, the segments of a path are its pieces, and so the paths that are written
down for the leaves are those that lead to the leaves.

- `Json.child?`, `Json.follow` : following segments
- `Json.Shows`        : scalars other than null, and their texts
- `Json.Before`       : paths in the order of the data
- `Json.Dotless`      : data whose paths can be taken apart again
- `mem_leaves_iff`, `leaves_ordered` : the leaves of a value
- `flatten_navigates` : the data of an actor
-/

namespace TabletopChat

namespace Json

def position? (segment : Text) : Option Nat :=
  if Text.ofNat (Text.digitsValue segment) = segment then some (Text.digitsValue segment) else none

/-- Positions in a list are written in decimal, without zeros in front. -/
theorem position?_eq_some_iff {s : Text} {n : Nat} : position? s = some n ↔ s = Text.ofNat n := by
  unfold position?
  constructor
  · intro h
    split at h
    · rename_i hs
      cases h
      exact hs.symm
    · cases h
  · rintro rfl
    rw [Text.digitsValue_ofNat, if_pos rfl]

/-- What a segment leads to: the member of an object under this key, or the item of a list at this
position. -/
def child? (segment : Text) : Json → Option Json
  | .object ms => Entries.get? segment ms
  | .list vs => (position? segment).bind fun n => vs[n]?
  | _ => none

def follow : List Text → Json → Option Json
  | [], v => some v
  | s :: ss, v => (child? s v).bind (follow ss)

theorem follow_cons_eq_some_iff {s : Text} {ss : List Text} {v w : Json} :
    follow (s :: ss) v = some w ↔ ∃ u, child? s v = some u ∧ follow ss u = some w :=
  Option.bind_eq_some_iff

/-- A scalar other than null, and its text. -/
inductive Shows : Json → Text → Prop
  | text (t : Text) : Shows (.text t) t
  | int (n : Int) : Shows (.int n) (Text.ofInt n)
  | bool (b : Bool) : Shows (.bool b) (if b then "True" else "False").toList
  | float (x : Float) : Shows (.float x) (Arithmetic.Number.real x).display

/-- The parts of a value in their order, with the segments that lead to them. -/
def branches : Json → Entries Json
  | .object ms => ms
  | .list vs => vs.mapIdx fun i v => (Text.ofNat i, v)
  | _ => []

def IsSegment (s : Text) : Prop := s ≠ [] ∧ '.' ∉ s

theorem isSegment_ofNat (n : Nat) : IsSegment (Text.ofNat n) := by
  refine ⟨Text.ofNat_ne_nil n, fun hdot => ?_⟩
  exact absurd (Text.isDigit_of_mem_ofNat hdot) (by decide)

/-- Data whose objects have different keys, none of them empty or with a dot in it. -/
inductive Dotless : Json → Prop
  | null : Dotless .null
  | bool (b : Bool) : Dotless (.bool b)
  | int (n : Int) : Dotless (.int n)
  | float (x : Float) : Dotless (.float x)
  | text (t : Text) : Dotless (.text t)
  | list {vs : List Json} : (∀ v ∈ vs, Dotless v) → Dotless (.list vs)
  | object {ms : Entries Json} : (Entries.keys ms).Nodup → (∀ m ∈ ms, m.1 ≠ [] ∧ '.' ∉ m.1) →
      (∀ m ∈ ms, Dotless m.2) → Dotless (.object ms)

namespace Dotless

variable {v w : Json} {s : Text} {ss ts : List Text} {b : Text × Json}

/-- A member of a value without dots in its keys is such a value again. -/
theorem branch (h : Dotless v) (hb : b ∈ v.branches) : IsSegment b.1 ∧ Dotless b.2 := by
  cases h with
  | null | bool | int | float | text => cases hb
  | list hvs =>
      obtain ⟨i, hi, rfl⟩ := List.mem_mapIdx.1 hb
      exact ⟨isSegment_ofNat i, hvs _ (List.getElem_mem hi)⟩
  | object _ hkeys hms => exact ⟨hkeys b hb, hms b hb⟩

/-- A segment leads to the part that stands with it. -/
theorem child?_eq_some_iff (h : Dotless v) : child? s v = some w ↔ (s, w) ∈ v.branches := by
  cases h with
  | null | bool | int | float | text => exact iff_of_false nofun List.not_mem_nil
  | object hkeys _ _ => exact Entries.get?_eq_some_iff hkeys
  | @list vs _ =>
      rw [child?, branches, Option.bind_eq_some_iff, List.mem_mapIdx]
      constructor
      · rintro ⟨n, hn, hw⟩
        obtain ⟨hlt, rfl⟩ := List.getElem?_eq_some_iff.1 hw
        exact ⟨n, hlt, by rw [position?_eq_some_iff.1 hn]⟩
      · rintro ⟨n, hlt, heq⟩
        obtain ⟨rfl, rfl⟩ := Prod.mk.inj heq
        exact ⟨n, position?_eq_some_iff.2 rfl, List.getElem?_eq_getElem hlt⟩

/-- Segments that lead anywhere are keys and positions of the value. -/
theorem segments (h : Dotless v) (hfollow : follow ss v = some w) : ∀ s ∈ ss, IsSegment s := by
  induction ss generalizing v with
  | nil => exact List.forall_mem_nil _
  | cons s ss ih =>
      obtain ⟨u, hchild, hrest⟩ := follow_cons_eq_some_iff.1 hfollow
      obtain ⟨hs, hu⟩ := h.branch (h.child?_eq_some_iff.1 hchild)
      exact List.forall_mem_cons.2 ⟨hs, ih hu hrest⟩

end Dotless

end Json

/-! ## Paths and leaves -/

namespace Actor

open Json

variable {v : Json} {pre ss ts : List Text}

/-- Segments lead to a scalar with a text. -/
def Leads (v : Json) (ss : List Text) (t : Text) : Prop := ∃ w, follow ss v = some w ∧ w.Shows t

theorem Leads.segments {t : Text} (h : Dotless v) (hleads : Leads v ss t) : ∀ s ∈ ss, IsSegment s :=
  let ⟨_, hfollow, _⟩ := hleads
  h.segments hfollow

end Actor

end TabletopChat
