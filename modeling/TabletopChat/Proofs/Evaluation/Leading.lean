import TabletopChat.Evaluation.Evaluate
import TabletopChat.Proofs.Text.Numeral

/-!
# Proofs/Evaluation/Leading — what results begin with

A result is never blank, and it never begins like the name in front of an expression: numbers begin
with a digit, a sign, a letter or a parenthesis, and so does what is said about an expression without
a value. So a result inside of an expression can neither make it blank nor name it.

- `Text.Solid`     : a text that begins with neither a blank nor `@`
- `Number.solid_display`, `Fault.solid_message` : numbers, and why there is none
- `produce_solid`  : the result of any expression
-/

namespace TabletopChat

namespace Text

/-! ## Texts with a solid beginning -/

def isSolid (c : Char) : Bool := !isBlank c && c != '@'

/-- A text that begins with a character which is neither a blank nor the beginning of a name. -/
def Solid (t : Text) : Prop := t.head?.any isSolid = true

instance (t : Text) : Decidable (Solid t) := inferInstanceAs (Decidable (_ = true))

@[simp] theorem solid_cons {c : Char} {t : Text} : Solid (c :: t) ↔ isSolid c = true := Iff.rfl

theorem not_solid_nil : ¬ Solid [] := by
  simp [Solid]

theorem Solid.append {t : Text} (h : Solid t) (u : Text) : Solid (t ++ u) := by
  cases t with
  | nil => exact absurd h not_solid_nil
  | cons c cs => exact h

/-- A text that is solid is not blank. -/
theorem Solid.allBlank {t : Text} (h : Solid t) : allBlank t = false := by
  cases t with
  | nil => exact absurd h not_solid_nil
  | cons c cs =>
      have hc : isBlank c = false := by
        simp only [solid_cons, isSolid, Bool.and_eq_true, Bool.not_eq_true'] at h
        exact h.1
      simp [Text.allBlank, hc]

/-- A solid text does not begin like a name. -/
theorem Solid.head {t : Text} (h : Solid t) : t.head? ≠ some '@' := by
  cases t with
  | nil => exact absurd h not_solid_nil
  | cons c cs =>
      simp only [solid_cons, isSolid, Bool.and_eq_true, bne_iff_ne] at h
      simpa using h.2

theorem isSolid_of_isDigit {c : Char} (h : c.isDigit = true) : isSolid c = true := by
  have hname : c ≠ '@' := by
    rintro rfl
    exact absurd h (by decide)
  simp [isSolid, isBlank_of_isDigit h, hname]

theorem solid_ofNat (n : Nat) : Solid (ofNat n) := by
  rcases exists_ofNat n with ⟨c, cs, heq, hc⟩
  rw [heq]
  exact isSolid_of_isDigit hc

theorem solid_ofInt (n : Int) : Solid (ofInt n) := by
  cases n with
  | ofNat n => exact solid_ofNat n
  | negSucc n => exact (by decide : isSolid '-' = true)

end Text

open Text

/-! ## Numbers -/

namespace Decimal

/-- Digits are solid however they are laid out. -/
theorem solid_writeDigits (style : Style) {ds : Text} (h : Solid ds) (k : Int) :
    Solid (writeDigits style ds k) := by
  cases ds with
  | nil => exact absurd h not_solid_nil
  | cons d ds =>
      unfold writeDigits
      split
      · cases k with
        | ofNat n =>
            dsimp only
            split <;> exact h
        | negSucc n => exact (by decide : isSolid '0' = true)
      · cases ds with
        | nil => exact h
        | cons e ds => exact h

/-- A written double is solid. -/
theorem solid_write (style : Style) (x : Float) : Solid (write style x) := by
  unfold write
  split
  · decide
  · split <;> decide
  · split
    · exact (by decide : isSolid '-' = true)
    · unfold writeMagnitude
      split
      · exact (by decide : isSolid '0' = true)
      · exact solid_writeDigits style (solid_ofNat _) _

end Decimal

namespace Arithmetic

theorem Complex.solid_write (z : Complex) : Solid z.write := by
  unfold Complex.write
  split
  · exact (Decimal.solid_write _ _).append _
  · exact (by decide : isSolid '(' = true)

/-- A number is shown as a solid text. -/
theorem Number.solid_display (v : Number) : Solid v.display := by
  cases v with
  | int n => exact solid_ofInt n
  | real x =>
      unfold Number.display
      dsimp only
      split
      · exact solid_ofInt _
      · exact Decimal.solid_write _ _
  | complex z => exact z.solid_write

/-- Every wording begins with a word of its own, before it repeats the expression. -/
theorem Fault.solid_message (source : Text) (f : Fault) : Solid (f.message source) := by
  have hword (w : String) (hw : Solid w.toList) (t : Text) : Solid (w.toList ++ t) := hw.append t
  cases f with
  | empty => exact (by decide : Solid "empty expression".toList)
  | divisionByZero => exact (by decide : Solid "division by zero".toList)
  | tooLarge => exact (by decide : Solid "result too large".toList)
  | invalid | unsupportedValue | unsupportedForm | undefinedSymbol | unknownFunction
  | namedArguments | exponentTooLarge =>
      exact hword _ (by decide) _
  | impossible cause =>
      exact (hword _ (by decide) _).append _ |>.append _

/-- A fault is worded as a solid text. -/
theorem solid_of_fault {expression why : Text} (h : outcome expression = .fault why) :
    Solid why := by
  unfold outcome at h
  split at h
  · cases h
  · split at h
    · cases h
    · cases h
      exact Fault.solid_message _ _

end Arithmetic

/-! ## Results -/

namespace Shorthand

theorem solid_invalidDice : Solid invalidDice := by
  decide

variable (calls : Option Nat)

/-- What is left of a roll is solid if its text is. -/
theorem finish_solid (expression residue : Text) (groups : List DieGroup) :
    Act.Yields (fun r => Solid r.text) (finish expression residue groups calls) := by
  refine (Act.Yields.trivial _).bind fun _ _ => ?_
  split
  · rename_i v _
    exact .pure v.solid_display
  · rename_i why hwhy
    exact .pure (Arithmetic.solid_of_fault hwhy)
  · intro s x s' hrun
    cases hrun

/-- However many groups of dice are rolled before. -/
theorem rollGroups_solid (expression : Text) (fuel : Nat) (groups : List DieGroup) (t : Text) :
    Act.Yields (fun r => Solid r.text) (rollGroups expression fuel groups t calls) := by
  induction fuel generalizing groups t with
  | zero => exact finish_solid calls expression t groups
  | succ fuel ih =>
      unfold rollGroups
      split
      · exact finish_solid calls expression t groups
      · split
        · exact .pure solid_invalidDice
        · exact (Act.Yields.trivial _).bind fun _ _ => ih _ _

/-- What a roll shows is never blank and begins with no mark. -/
theorem roll_solid (expression : Text) :
    Act.Yields (fun r => Solid r.text) (roll expression calls) := by
  unfold roll
  dsimp only
  split
  · exact .pure solid_invalidDice
  · exact rollGroups_solid _ _ _ _ _

end Shorthand

namespace Evaluation

/-- What arithmetic comes to is solid. -/
theorem arithmetic_solid (expression : Text) (calls : Option Nat) :
    Act.Yields Solid (arithmetic expression calls) := by
  refine (Act.Yields.trivial _).bind fun _ _ => ?_
  split
  · rename_i v _
    exact .pure v.solid_display
  · rename_i why hwhy
    exact (Act.Yields.trivial _).bind fun _ _ => .pure (Arithmetic.solid_of_fault hwhy)
  · intro s x s' hrun
    cases hrun

/-- The result of a roll is solid. -/
theorem rollShorthand_solid (expression : Text) (calls : Option Nat) :
    Act.Yields (fun r => Solid r.result) (rollShorthand expression calls) := by
  have hzoom : Act.Yields (fun r => Solid r.text)
      ((Shorthand.roll expression calls).zoom State.dice fun d s => { s with dice := d }) := by
    intro s r s' hrun
    rcases hroll : Shorthand.roll expression calls s.dice with ⟨result, d⟩
    simp only [Act.run, Act.zoom, hroll] at hrun
    cases hrun
    exact Shorthand.roll_solid calls expression s.dice r d hroll
  refine hzoom.bind fun r hr => ?_
  split
  · exact (Act.Yields.trivial _).bind fun _ _ => .pure hr
  · exact .pure hr

theorem evaluateNotation_solid (expression : Text) (calls : Option Nat) :
    Act.Yields (fun r => Solid r.result) (evaluateNotation expression calls) := by
  refine (Act.Yields.trivial _).bind fun rolled _ => ?_
  cases rolled with
  | ok o => exact (arithmetic_solid _ _).bind fun _ h => .pure h
  | error f => exact (Act.Yields.trivial _).bind fun _ _ => .pure Shorthand.solid_invalidDice

/-- No result of an expression is blank, and none begins like a name. -/
theorem produce_solid (roller : Roller) (expression : Text) (kind : Markup.Kind) :
    Act.Yields (fun r => Solid r.result) (produce roller expression kind) := by
  cases kind with
  | math => exact (arithmetic_solid expression _).bind fun _ h => .pure h
  | roll =>
      cases roller with
      | shorthand calls => exact rollShorthand_solid expression calls
      | extended calls => exact evaluateNotation_solid expression calls

end Evaluation

end TabletopChat
