import TabletopChat.Markup.Parser

/-!
# Proofs/Markup/OpenRolls — what one token does to the open rolls

A token is text, or it opens a roll, or it ends the innermost open one. A closing delimiter that does not belong to
the innermost open roll is text as well. What the reading of all tokens keeps is what each of these keeps.

- `Stack.Takes`      : the ways in which a stack takes a token
- `Stack.takes_read` : the lenient reading is one of them
-/

namespace TabletopChat

namespace Markup

theorem Kind.closer_inj {k l : Kind} : k.closer = l.closer ↔ k = l := by
  cases k <;> cases l <;> simp [Kind.closer]

/-- A delimiter opens or closes. -/
theorem Delimiter.eq_opener_or_closer (d : Delimiter) : ∃ kind : Kind, d = kind.opener ∨ d = kind.closer := by
  cases d with
  | rollOpen => exact ⟨.roll, .inl rfl⟩
  | rollClose => exact ⟨.roll, .inr rfl⟩
  | mathOpen => exact ⟨.math, .inl rfl⟩
  | mathClose => exact ⟨.math, .inr rfl⟩

namespace Stack

variable {s s' : Stack}

theorem read_opener (s : Stack) (kind : Kind) (span : Span) :
    s.read ⟨.delimiter kind.opener, span⟩ = s.push kind span := by
  cases kind <;> rfl

/-- A closing delimiter ends the innermost open roll, or it is text. -/
theorem read_closer (s : Stack) (kind : Kind) (span : Span) :
    s.read ⟨.delimiter kind.closer, span⟩ =
      (s.close? kind.closer span.finish).getD (s.modify (pushText kind.closer.source span)) := by
  cases kind <;> simp only [Stack.read, Kind.closer] <;> split <;> simp [*]

/-- A closing delimiter that is accepted ends the innermost open roll. -/
theorem exists_of_close {d : Delimiter} {finish : Position} (hclose : s.close? d finish = some s') :
    ∃ outer fr frs, s = ⟨outer, fr :: frs⟩ ∧ fr.kind.closer = d ∧
      s' = Stack.modify (fr.node true finish :: ·) ⟨outer, frs⟩ := by
  rcases s with ⟨outer, - | ⟨fr, frs⟩⟩
  · cases hclose
  · simp only [Stack.close?] at hclose
    split at hclose
    · rename_i hkind
      cases hclose
      exact ⟨outer, fr, frs, rfl, hkind, rfl⟩
    · cases hclose

/-- A closing delimiter is accepted unless the innermost open roll is of another kind, or no roll is open. -/
theorem close?_eq_none_iff_frames {kind : Kind} {finish : Position} :
    s.close? kind.closer finish = none ↔ ∀ fr ∈ s.frames.head?, fr.kind ≠ kind := by
  rcases s with ⟨outer, - | ⟨fr, frs⟩⟩
  · simp [Stack.close?]
  · by_cases hkind : fr.kind = kind <;> simp [Stack.close?, hkind, Kind.closer_inj]

inductive Takes (s : Stack) : Token → Stack → Prop
  | finish (span : Span) : Takes s ⟨.finish, span⟩ s
  | text (t : Text) (span : Span) : Takes s ⟨.text t, span⟩ (s.modify (pushText t span))
  | opens (kind : Kind) (span : Span) : Takes s ⟨.delimiter kind.opener, span⟩ (s.push kind span)
  /-- the innermost open roll ends -/
  | closes {outer : List Node} {fr : Frame} {frs : List Frame} (span : Span) :
      s = ⟨outer, fr :: frs⟩ →
      Takes s ⟨.delimiter fr.kind.closer, span⟩ (Stack.modify (fr.node true span.finish :: ·) ⟨outer, frs⟩)
  /-- a closing delimiter that belongs to another kind of rolls is text -/
  | unaccepted {kind : Kind} (span : Span) :
      (∀ fr ∈ s.frames.head?, fr.kind ≠ kind) →
      Takes s ⟨.delimiter kind.closer, span⟩ (s.modify (pushText kind.closer.source span))

/-- A stack takes each token in one of the listed ways. -/
theorem takes_read (s : Stack) (tok : Token) : s.Takes tok (s.read tok) := by
  rcases tok with ⟨lexeme, span⟩
  cases lexeme with
  | finish => exact .finish span
  | text t => exact .text t span
  | delimiter d =>
      obtain ⟨kind, rfl | rfl⟩ := d.eq_opener_or_closer
      · rw [read_opener]
        exact .opens kind span
      · rw [read_closer]
        cases hclose : s.close? kind.closer span.finish with
        | none => exact .unaccepted span (close?_eq_none_iff_frames.1 hclose)
        | some s' =>
            obtain ⟨outer, fr, frs, rfl, hkind, rfl⟩ := exists_of_close hclose
            exact hkind ▸ .closes span rfl

end Stack

end Markup

end TabletopChat
