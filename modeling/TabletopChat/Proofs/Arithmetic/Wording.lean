import TabletopChat.Proofs.Arithmetic.Faults
import TabletopChat.Proofs.Arithmetic.Names

/-!
# Proofs/Arithmetic/Wording — what is said about an expression

Whatever goes wrong in an expression is worded with the expression itself, with names in it and with
numbers; so the result of a text without null characters is never such a text.

- `nulFree_message` : the wording of a fault
- `Expr.eval_sound` : the faults of an expression
- `outcome_nulFree` : a text without null characters has a number or a fault, worded without them
- `Says`            : what is shown for an expression
-/

namespace TabletopChat

namespace Arithmetic

open Text

/-! ## Faults -/

def Fault.NulFree : Fault → Prop
  | .impossible (.operands op _ _) => Text.NulFree op
  | .unsupportedValue literal => Text.NulFree literal
  | .undefinedSymbol name => Text.NulFree name
  | .unknownFunction name => ∀ n ∈ name, Text.NulFree n
  | .namedArguments name => Text.NulFree name
  | .exponentTooLarge exponent => Text.NulFree exponent
  | _ => True

theorem nulFree_arityMessage (f : Function) (given : Nat) :
    Text.NulFree (arityMessage f given) := by
  have hone (name : String) (h : Text.NulFree name.toList) : Text.NulFree (name.toList ++
      "() takes exactly one argument (".toList ++ ofNat given ++ " given)".toList) := by
    simp [h]
  cases f with
  | abs => exact hone "abs" (by simp)
  | ceil => exact hone "math.ceil" (by simp)
  | floor => exact hone "math.floor" (by simp)
  | sqrt => exact hone "math.sqrt" (by simp)
  | round =>
      unfold arityMessage
      dsimp only
      split
      · exact nulFree_of_ofList rfl (by decide +kernel)
      · simp
  | min => exact nulFree_of_ofList rfl (by decide +kernel)
  | max => exact nulFree_of_ofList rfl (by decide +kernel)

theorem nulFree_kindName (k : Number.Kind) : Text.NulFree k.name := by
  cases k <;> exact nulFree_of_ofList rfl (by decide)

theorem nulFree_formName (f : Form) : Text.NulFree f.name := by
  cases f <;> exact nulFree_of_ofList rfl (by decide)

/-- The reason why something is impossible is worded without null characters. -/
theorem nulFree_causeMessage {cause : Cause} (h : (Fault.impossible cause).NulFree) :
    Text.NulFree cause.message := by
  cases cause <;> unfold Cause.message
  case operands op left right =>
    have hop : Text.NulFree op := h
    simp [hop, nulFree_kindName]
  case order less left right =>
    cases less <;> simp [nulFree_kindName]
  case arity f given =>
    exact nulFree_arityMessage f given
  all_goals simp [nulFree_kindName]

/-- The wording of a fault in a text. -/
theorem nulFree_message {source : Text} {f : Fault} (hsource : Text.NulFree source)
    (hf : f.NulFree) : Text.NulFree (f.message source) := by
  have hname (name : Option Text) (h : ∀ n ∈ name, Text.NulFree n) :
      Text.NulFree (name.getD ['?']) := by
    cases name with
    | none => simp
    | some name => exact h name rfl
  cases f <;> unfold Fault.message
  case impossible cause =>
    simp [hsource, nulFree_causeMessage hf]
  case unsupportedForm form =>
    simp [nulFree_formName]
  case unknownFunction name =>
    simp [hname name hf]
  case unsupportedValue =>
    exact nulFree_append.2 ⟨by simp, hf⟩
  case undefinedSymbol =>
    exact nulFree_append.2 ⟨by simp, hf⟩
  case namedArguments =>
    exact nulFree_append.2 ⟨by simp, hf⟩
  case exponentTooLarge =>
    exact nulFree_append.2 ⟨by simp, hf⟩
  all_goals simp [hsource]

/-! ## Results -/

/-- A result, or a fault that is worded without null characters. -/
def Sound {α : Type} (r : Except Fault α) : Prop := ∀ f, r = .error f → f.NulFree

@[simp] theorem sound_ok {α : Type} (x : α) : Sound (.ok x : Except Fault α) := only_ok x

@[simp] theorem sound_error {α : Type} {f : Fault} :
    Sound (.error f : Except Fault α) ↔ f.NulFree := only_error

theorem sound_ite {α : Type} {c : Prop} [Decidable c] {r s : Except Fault α} (hr : Sound r)
    (hs : Sound s) : Sound (if c then r else s) := only_ite hr hs

/-! ## Operators and functions -/

theorem nulFree_sign (op : Operator) : Text.NulFree op.sign := by
  cases op <;> simp [Operator.sign]

/-- Of what an operator says, only its sign is a text. -/
theorem operator_sound (op : Operator) (a b : Number) : Sound (op.apply a b) := by
  refine (op.only_apply a b).mono fun f hf => ?_
  cases f with
  | impossible cause =>
      cases cause with
      | operands sign left right =>
          have hsign : sign = op.sign := hf.2.1
          exact hsign ▸ nulFree_sign op
      | _ => trivial
  | divisionByZero => trivial
  | _ => exact hf.elim

/-- A function fails without repeating anything of the text. -/
theorem function_sound (f : Function) (vs : List Number) : Sound (f.apply vs) := by
  refine (f.only_apply vs).mono fun fault hfault => ?_
  cases fault with
  | impossible cause =>
      cases cause with
      | operands sign left right => exact hfault.elim
      | _ => trivial
  | _ => exact hfault.elim

/-! ## Expressions -/

theorem checked_sound (v : Number) : Sound (checked v) := by
  cases v with
  | int n => exact sound_ite (sound_error.2 trivial) (sound_ok _)
  | _ => exact sound_ok _

theorem guardPower_sound (a b : Number) : Sound (guardPower a b) := by
  unfold guardPower
  split
  · rename_i heq
    rw [only_absolute _ _ heq]
    exact sound_error.2 trivial
  · exact sound_ite (sound_error.2 b.nulFree_write)
      (sound_ite (sound_error.2 trivial) (sound_ok _))

theorem operate_sound (op : Operator) (a b : Number) : Sound (operate op a b) := by
  unfold operate
  split
  · rename_i heq
    have hguard : Sound (if op = .pow then guardPower a b else .ok ()) :=
      sound_ite (guardPower_sound a b) (sound_ok _)
    exact sound_error.2 (hguard _ heq)
  · split
    · rename_i heq
      exact sound_error.2 (operator_sound _ _ _ _ heq)
    · exact checked_sound _

/-- A function that is not known is named. -/
theorem callee_sound {function : Option Text} (named : Bool)
    (h : ∀ name ∈ function, Text.NulFree name) : Sound (callee function named) := by
  unfold callee
  split
  · exact sound_error.2 (by intro n hn; cases hn)
  · rename_i name
    split
    · exact sound_error.2 h
    · exact sound_ite (sound_error.2 (h name rfl)) (sound_ok _)

/-- Values of arguments have the faults of the arguments. -/
theorem evalAll_sound {es : List Expr} (h : ∀ e ∈ es, Sound e.eval) : Sound (evalAll es) := by
  induction es with
  | nil =>
      exact sound_ok _
  | cons e es ih =>
      rw [List.forall_mem_cons] at h
      unfold evalAll
      split
      · rename_i heq
        exact sound_error.2 (h.1 _ heq)
      · split
        · rename_i heq
          exact sound_error.2 (ih h.2 _ heq)
        · exact sound_ok _

/-- The faults of an expression repeat its names and values only. -/
theorem Expr.eval_sound {e : Expr} (h : e.NulFree) : Sound e.eval := by
  induction h with
  | number v => exact checked_sound v
  -- a literal is never a number: its fault shows it as it was written
  | literal v => exact sound_error.2 v.nulFree_display
  | symbol hname =>
      unfold Expr.eval
      split
      · exact sound_ok _
      · exact sound_error.2 hname
  | signed h ih =>
      unfold Expr.eval
      split
      · rename_i heq
        exact sound_error.2 (ih _ heq)
      · exact checked_sound _
  | binary hl hr ihl ihr =>
      unfold Expr.eval
      split
      · rename_i heq
        exact sound_error.2 (ihl _ heq)
      · split
        · rename_i heq
          exact sound_error.2 (ihr _ heq)
        · exact operate_sound _ _ _
  | call hf ha ih =>
      unfold Expr.eval
      split
      · rename_i heq
        -- the callee is looked up before any argument is evaluated
        exact sound_error.2 (callee_sound _ hf _ heq)
      · split
        · rename_i heq
          exact sound_error.2 (evalAll_sound ih _ heq)
        · split
          · rename_i heq
            exact sound_error.2 (function_sound _ _ _ heq)
          · exact checked_sound _
  | form f => exact sound_error.2 trivial

/-! ## Texts -/

/-- The fault of a text without null characters is worded without them. -/
theorem evaluate_sound {t : Text} (h : Text.NulFree t) : Sound (evaluate t) := by
  have hprepared : Text.NulFree (prepared t) := NulFree.replaceAll (by simp) h.strip
  unfold evaluate
  simp only
  refine sound_ite (sound_error.2 trivial) ?_
  split
  · exact sound_error.2 trivial
  · rename_i heq
    exact Expr.eval_sound (parse?_nulFree hprepared _ heq)

/-- A text without null characters has a number, or a fault that is worded without them. -/
theorem outcome_nulFree {t : Text} (h : Text.NulFree t) :
    (∃ v, outcome t = .number v) ∨ ∃ message, outcome t = .fault message ∧ Text.NulFree message := by
  have hcontains : t.contains '\x00' = false := by simpa [Text.NulFree] using h
  unfold outcome
  -- the only text that has neither a value nor a fault holds a null character
  rw [hcontains]
  cases hvalue : evaluate t with
  | ok v => exact .inl ⟨v, rfl⟩
  | error f => exact .inr ⟨_, rfl, nulFree_message h.strip (evaluate_sound h f hvalue)⟩

/-! ## What is shown -/

/-- What is shown for a text that is calculated: its number, or what is wrong with it. -/
inductive Says (t : Text) : Text → Prop
  | number {v : Number} (h : evaluate t = .ok v) : Says t v.display
  | fault {f : Fault} (h : evaluate t = .error f) : Says t (f.message (Text.strip t))

/-- A number is said as it is shown. -/
theorem says_of_number {t : Text} {v : Number} (h : outcome t = .number v) : Says t v.display := by
  unfold outcome at h
  split at h
  · cases h
  · split at h
    · rename_i hvalue
      cases h
      exact .number hvalue
    · cases h

/-- A fault is said in its own words. -/
theorem says_of_fault {t why : Text} (h : outcome t = .fault why) : Says t why := by
  unfold outcome at h
  split at h
  · cases h
  · split at h
    · cases h
    · rename_i hvalue
      cases h
      exact .fault hvalue

end Arithmetic

end TabletopChat
