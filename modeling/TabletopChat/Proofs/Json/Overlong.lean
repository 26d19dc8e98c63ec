import Mathlib.Data.List.TakeDrop
import Mathlib.Data.List.TakeWhile
import TabletopChat.Json.Parser

/-!
# Proofs/Json/Overlong — integers that are too long to be read

A text is refused for the length of an integer only if there is a row of that many digits in it. All that is
read from the front of a text leaves an end of it, in which reading goes on.

- `Overlong`     : texts with more digits in a row than are read
- `Leaves`       : what is read leaves an end of the text
- `overlong_of_parse` : texts that are refused for an integer
-/

namespace TabletopChat

namespace Json

variable {α β : Type} {t u rest : Text}

/-- More digits in a row than are read. -/
def Overlong (t : Text) : Prop := ∃ ds, ds <:+: t ∧ Text.maxNumeral < ds.length ∧ ∀ c ∈ ds, c.isDigit = true

/-- Reading at the front of a text leaves an end of it, and an integer is too long only if the text has that
many digits in a row. -/
def Leaves (t : Text) : Except Fault (α × Text) → Prop
  | .ok (_, rest) => rest <:+ t
  | .error .numeralTooLong => Overlong t
  | .error (.malformed _ _) => True

theorem Overlong.mono (h : Overlong t) (htu : t <:+ u) : Overlong u := by
  obtain ⟨ds, hds, hlong, hdigits⟩ := h
  exact ⟨ds, hds.trans htu.isInfix, hlong, hdigits⟩

namespace Leaves

theorem mono {r : Except Fault (α × Text)} (h : Leaves t r) (htu : t <:+ u) : Leaves u r := by
  match r, h with
  | .ok (_, rest), h => exact h.trans htu
  | .error .numeralTooLong, h => exact Overlong.mono h htu
  | .error (.malformed _ _), _ => trivial

theorem bind {r : Except Fault (α × Text)} {f : α × Text → Except Fault (β × Text)} (h : Leaves t r)
    (hf : ∀ x rest, Leaves rest (f (x, rest))) : Leaves t (r >>= f) := by
  match r, h with
  | .ok (x, rest), h => exact (hf x rest).mono h
  | .error .numeralTooLong, h => exact h
  | .error (.malformed _ _), _ => trivial

/-- Changing the result of a reader leaves the rest of the text as it is. -/
theorem map {r : Except Fault (α × Text)} {f : α × Text → β × Text} (h : Leaves t r)
    (hf : ∀ x rest, (f (x, rest)).2 = rest) : Leaves t (r.map f) := by
  match r, h with
  | .ok (x, rest), h =>
    change (f (x, rest)).2 <:+ t
    rw [hf]
    exact h
  | .error .numeralTooLong, h => exact h
  | .error (.malformed _ _), _ => trivial

theorem cons {c : Char} {r : Except Fault (α × Text)} (h : Leaves t r) : Leaves (c :: t) r :=
  h.mono (List.suffix_cons c t)

theorem skip {r : Except Fault (α × Text)} (h : Leaves (skipBlanks t) r) : Leaves t r :=
  h.mono (List.dropWhile_suffix _)

end Leaves

/-! ## Words -/

/-- Reading the inside of a string leaves an end of the text. -/
theorem stringCodes_leaves (start : Text) (t : Text) : Leaves t (stringCodes start t) := by
  fun_induction stringCodes start t with
  | case1 | case3 | case4 | case5 | case8 | case9 | case10 => trivial
  | case2 cs => exact List.suffix_cons _ _
  | case6 a b c d cs n hn hcs ih => exact (((((ih.map fun _ _ => rfl).cons).cons).cons).cons).cons.cons
  | case7 e cs hne n hn ih => exact (ih.map fun _ _ => rfl).cons.cons
  | case11 c cs _ _ _ _ hc ih => exact (ih.map fun _ _ => rfl).cons

theorem readString_leaves (t : Text) : Leaves t (readString t) :=
  (stringCodes_leaves _ t).map fun _ _ => rfl

theorem readWord?_leaves {v : Json} (h : readWord? t = some (v, rest)) : rest <:+ t := by
  obtain ⟨⟨word, value⟩, -, hword⟩ := List.exists_of_findSome?_eq_some h
  obtain ⟨u, hu, hrest⟩ := Option.map_eq_some_iff.1 hword
  cases hrest
  unfold Text.afterWord? at hu
  split at hu <;> cases hu
  exact List.drop_suffix _ _

/-! ## Numbers -/

theorem spanDigits_eq (t : Text) :
    spanDigits t = (t.takeWhile Char.isDigit, t.dropWhile Char.isDigit) :=
  List.span_eq_takeWhile_dropWhile _ t

theorem spanFraction_suffix (t : Text) : (spanFraction t).2 <:+ t := by
  unfold spanFraction
  split
  · rename_i cs
    rw [spanDigits_eq]
    split
    · exact List.suffix_rfl
    · rename_i hspan
      cases hspan
      exact (List.dropWhile_suffix _).trans (List.suffix_cons _ _)
  · exact List.suffix_rfl

theorem spanExponent_suffix (t : Text) : (spanExponent t).2 <:+ t := by
  unfold spanExponent
  split
  · rename_i c cs
    dsimp only
    split
    · rw [spanDigits_eq]
      split
      · exact List.suffix_rfl
      · rename_i hspan
        cases hspan
        refine (List.dropWhile_suffix _).trans ?_
        -- what a sign leaves
        split
        · exact (List.suffix_cons _ _).trans (List.suffix_cons _ _)
        · exact (List.suffix_cons _ _).trans (List.suffix_cons _ _)
        · exact List.suffix_cons _ _
    · exact List.suffix_rfl
  · exact List.suffix_rfl

/-- Reading a number leaves an end of the text. -/
theorem readNumber_leaves (start : Text) (neg : Bool) (t : Text) : Leaves t (readNumber start neg t) := by
  unfold readNumber
  split
  rename_i whole rest hwhole
  -- a leading zero is a digit as well
  have hfront : whole ++ rest = t ∧ ∀ c ∈ whole, c.isDigit = true := by
    split at hwhole
    · cases hwhole
      exact ⟨rfl, List.forall_mem_singleton.2 rfl⟩
    · rw [spanDigits_eq] at hwhole
      cases hwhole
      exact ⟨List.takeWhile_append_dropWhile, fun c hc => List.mem_takeWhile_imp hc⟩
  obtain ⟨rfl, hdigits⟩ := hfront
  have hrest : (spanExponent (spanFraction rest).2).2 <:+ whole ++ rest :=
    ((spanExponent_suffix _).trans (spanFraction_suffix _)).trans (List.suffix_append _ _)
  split
  · trivial
  · dsimp only
    split
    · split
      · exact ⟨whole, (List.prefix_append _ _).isInfix, ‹_›, hdigits⟩
      · exact hrest
    · exact hrest

/-! ## Values -/

/-- Everything that is read with some fuel leaves an end of the text. -/
structure AllLeave (n : Nat) : Prop where
  value (t : Text) : Leaves t (readValue n t)
  items (t : Text) : Leaves t (readItems n t)
  members (t : Text) : Leaves t (readMembers n t)

namespace AllLeave

variable {n : Nat} (ih : AllLeave n)

include ih

/-- With one more round, reading a value leaves an end of the text. -/
theorem value_succ (t : Text) : Leaves t (readValue (n + 1) t) := by
  have hend {v : Json} {cs : Text} : Leaves cs (.ok (v, cs) : Except Fault (Json × Text)) := List.suffix_rfl
  unfold readValue
  split
  · exact ((readString_leaves _).bind fun _ _ => hend).cons
  · rename_i cs
    refine (Leaves.skip ?_).cons
    split
    · rename_i hclosed
      rw [hclosed]
      exact hend.cons
    · exact (ih.items _).bind fun _ _ => hend
  · rename_i cs
    refine (Leaves.skip ?_).cons
    split
    · rename_i hclosed
      rw [hclosed]
      exact hend.cons
    · exact (ih.members _).bind fun _ _ => hend
  · split
    · exact readWord?_leaves ‹_›
    · split
      · exact (readNumber_leaves _ _ _).cons
      · exact readNumber_leaves _ _ _

/-- Items leave an end of the text, if the values in them do. -/
theorem items_succ (t : Text) : Leaves t (readItems (n + 1) t) := by
  have hend {vs : List Json} {cs : Text} : Leaves cs (.ok (vs, cs) : Except Fault (List Json × Text)) :=
    List.suffix_rfl
  unfold readItems
  refine (ih.value t).bind fun v rest => Leaves.skip ?_
  dsimp only
  split
  · rename_i hclosed
    rw [hclosed]
    exact hend.cons
  · rename_i hcomma
    rw [hcomma]
    refine (Leaves.skip ?_).cons
    exact (ih.items _).bind fun _ _ => hend
  · trivial

/-- And so do members. -/
theorem members_succ (t : Text) : Leaves t (readMembers (n + 1) t) := by
  have hend {ms : List (Text × Json)} {cs : Text} :
      Leaves cs (.ok (ms, cs) : Except Fault (List (Text × Json) × Text)) := List.suffix_rfl
  unfold readMembers
  split
  · refine ((readString_leaves _).bind fun key rest => Leaves.skip ?_).cons
    dsimp only
    split
    · rename_i hcolon
      rw [hcolon]
      refine ((ih.value _).bind fun v rest => Leaves.skip ?_).skip.cons
      dsimp only
      split
      · rename_i hclosed
        rw [hclosed]
        exact hend.cons
      · rename_i hcomma
        rw [hcomma]
        refine (Leaves.skip ?_).cons
        exact (ih.members _).bind fun _ _ => hend
      · trivial
    · trivial
  · trivial

end AllLeave

theorem allLeave (n : Nat) : AllLeave n := by
  induction n with
  | zero => exact ⟨fun _ => trivial, fun _ => trivial, fun _ => trivial⟩
  | succ n ih => exact ⟨ih.value_succ, ih.items_succ, ih.members_succ⟩

/-- A text that is refused for an integer has more digits in a row than are read. -/
theorem overlong_of_parse (h : parse t = .error .numeralTooLong) : Overlong t := by
  unfold parse at h
  split at h
  · cases h
  · have hvalue := ((allLeave (t.length + 1)).value (skipBlanks t)).skip
    cases hread : readValue (t.length + 1) (skipBlanks t) with
    | error fault =>
      rw [hread] at h hvalue
      cases h
      exact hvalue
    | ok read =>
      rw [hread] at h
      simp only [bind, Except.bind] at h
      split at h <;> cases h

end Json

end TabletopChat
