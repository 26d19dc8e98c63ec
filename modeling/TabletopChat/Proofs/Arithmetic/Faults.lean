import TabletopChat.Arithmetic.Evaluate

/-!
# Proofs/Arithmetic/Faults — what can go wrong in an operation

An operator fails because its operands are of kinds that it does not take, because an integer is too large
for the kind of the other operand, because it divides by zero, or because its result is too large; and each
operator only for some of these reasons. The same is true of each function, which may also have too few or
too many arguments.

- `Only`              : results whose faults have a property
- `Operator.CanFail`  : the faults of an operator
- `Function.CanFail`  : the faults of a function
-/

namespace TabletopChat

namespace Arithmetic

/-! ## Results -/

def Only {α : Type} (P : Fault → Prop) (r : Except Fault α) : Prop := ∀ f, r = .error f → P f

section

variable {α β : Type} {P Q : Fault → Prop} {r s : Except Fault α}

@[simp] theorem only_ok (x : α) : Only P (.ok x : Except Fault α) := by
  intro f hf
  cases hf

@[simp] theorem only_error {f : Fault} : Only P (.error f : Except Fault α) ↔ P f := by
  constructor
  · intro h
    exact h f rfl
  · intro h g hg
    cases hg
    exact h

theorem only_ite {c : Prop} [Decidable c] (hr : Only P r) (hs : Only P s) :
    Only P (if c then r else s) := by
  split
  · exact hr
  · exact hs

theorem Only.mono (h : Only P r) (hsub : ∀ f, P f → Q f) : Only Q r := fun f hf => hsub f (h f hf)

theorem Only.map (h : Only P r) (g : α → β) : Only P (r.map g) := by
  cases r with
  | error f => exact only_error.2 (only_error.1 h)
  | ok x => exact only_ok _

end

/-! ## Operators -/

def Operator.CanFail (op : Operator) (a b : Number) : Fault → Prop
  | .divisionByZero => op = .div ∨ op = .floorDiv ∨ op = .mod ∨ op = .pow
  | .impossible .integerTooLarge => a.kind = .int ∨ b.kind = .int
  | .impossible .quotientTooLarge => op = .div ∧ a.kind = .int ∧ b.kind = .int
  | .impossible .powerTooLarge => op = .pow
  | .impossible .complexPowerTooLarge => op = .pow
  | .impossible (.operands sign left right) =>
    op.rounds = true ∧ sign = op.sign ∧ left = a.kind ∧ right = b.kind ∧ (left = .complex ∨ right = .complex)
  | _ => False

theorem only_realOfInt (n : Int) : Only (· = .impossible .integerTooLarge) (realOfInt n) := by
  unfold realOfInt
  split
  · exact only_ok _
  · exact only_error.2 rfl

theorem only_toComplex (v : Number) :
    Only (fun f => f = .impossible .integerTooLarge ∧ v.kind = .int) v.toComplex := by
  cases v with
  | int n => exact ((only_realOfInt n).mono fun f hf => ⟨hf, rfl⟩).map _
  | real x => exact only_ok _
  | complex z => exact only_ok _

/-- Operands of two kinds fail to become ones of the same kind only if an integer is too large. -/
theorem only_pairOf (a b : Number) :
    Only (fun f => f = .impossible .integerTooLarge ∧ (a.kind = .int ∨ b.kind = .int)) (Pair.of a b) := by
  unfold Pair.of
  split
  · exact only_ok _
  · exact ((only_realOfInt _).mono fun f hf => ⟨hf, .inl rfl⟩).map _
  · exact ((only_realOfInt _).mono fun f hf => ⟨hf, .inr rfl⟩).map _
  · exact only_ok _
  · exact ((only_toComplex _).mono fun f hf => ⟨hf.1, .inr hf.2⟩).map _
  · exact ((only_toComplex _).mono fun f hf => ⟨hf.1, .inl hf.2⟩).map _

/-- Operands are brought to integers only if they are integers. -/
theorem eq_int_of_pairOf {a b : Number} {m n : Int} (h : Pair.of a b = .ok (.ints m n)) :
    a = .int m ∧ b = .int n := by
  cases a <;> cases b <;> simp only [Pair.of, Except.map] at h
  · cases h
    exact ⟨rfl, rfl⟩
  all_goals first
    | cases h
    | (split at h <;> cases h)

/-- They are brought to complex numbers only if one is complex. -/
theorem kind_of_pairOf {a b : Number} {z w : Complex} (h : Pair.of a b = .ok (.complexes z w)) :
    a.kind = .complex ∨ b.kind = .complex := by
  cases a with
  | complex z => exact .inl rfl
  | _ =>
      cases b with
      | complex w => exact .inr rfl
      | _ =>
          simp only [Pair.of, Except.map] at h
          first
            | cases h
            | (split at h <;> cases h)

def PowerFault (f : Fault) : Prop :=
  f = .divisionByZero ∨ f = .impossible .powerTooLarge ∨ f = .impossible .complexPowerTooLarge

theorem only_powComplex (z w : Complex) : Only PowerFault (powComplex z w) := by
  unfold powComplex
  split
  · exact only_error.2 (.inl rfl)
  · exact only_ite (only_error.2 (.inr (.inr rfl))) (only_ok _)

/-- Powers of reals fail in one of three ways. -/
theorem only_powReal (x y : Float) : Only PowerFault (powReal x y) := by
  unfold powReal
  repeat' first
    | apply only_ite
    | exact only_ok _
    | exact only_error.2 (.inl rfl)
    | exact only_error.2 (.inr (.inl rfl))
    | exact only_powComplex _ _

theorem only_powInts (m n : Int) :
    Only (fun f => f = .impossible .integerTooLarge ∨ PowerFault f) (powInts m n) := by
  unfold powInts
  split
  · exact only_ok _
  · split
    · exact (only_powReal _ _).mono fun f hf => .inr hf
    · rename_i heq
      exact only_error.2 (.inl (only_realOfInt _ _ heq))
    · rename_i heq _
      exact only_error.2 (.inl (only_realOfInt _ _ heq))

theorem Operator.canFail_of_powerFault {a b : Number} {f : Fault} (h : PowerFault f) :
    Operator.CanFail .pow a b f := by
  rcases h with rfl | rfl | rfl
  · exact .inr (.inr (.inr rfl))
  · rfl
  · rfl

theorem Operator.only_onInts (op : Operator) (m n : Int) :
    Only (op.CanFail (.int m) (.int n)) (op.onInts m n) := by
  cases op with
  | div =>
      exact only_ite (only_error.2 (.inl rfl)) (only_ite (only_ok _) (only_error.2 ⟨rfl, rfl, rfl⟩))
  | floorDiv => exact only_ite (only_error.2 (.inr (.inl rfl))) (only_ok _)
  | mod => exact only_ite (only_error.2 (.inr (.inr (.inl rfl)))) (only_ok _)
  | pow =>
      refine (only_powInts m n).mono fun f hf => ?_
      rcases hf with rfl | hf
      · exact .inl rfl
      · exact canFail_of_powerFault hf
  | _ => exact only_ok _

theorem Operator.only_onReals (op : Operator) (a b : Number) (x y : Float) :
    Only (op.CanFail a b) (op.onReals x y) := by
  cases op with
  | div => exact only_ite (only_error.2 (.inl rfl)) (only_ok _)
  | floorDiv => exact only_ite (only_error.2 (.inr (.inl rfl))) (only_ok _)
  | mod => exact only_ite (only_error.2 (.inr (.inr (.inl rfl)))) (only_ok _)
  | pow => exact (only_powReal x y).mono fun f hf => canFail_of_powerFault hf
  | _ => exact only_ok _

/-- Complex numbers are not rounded, so that operators that round never come here. -/
theorem Operator.only_onComplexes {op : Operator} (hop : op.rounds = false) (a b : Number) (z w : Complex) :
    Only (op.CanFail a b) (op.onComplexes z w) := by
  cases op with
  | div =>
      delta Operator.onComplexes
      dsimp only
      cases z.div? w with
      | some r => exact only_ok _
      | none => exact only_error.2 (.inl rfl)
  | floorDiv => cases hop
  | mod => cases hop
  | pow => exact (only_powComplex z w).mono fun f hf => canFail_of_powerFault hf
  | _ => exact only_ok _

/-- An operator fails only in the ways that belong to it and to its operands. -/
theorem Operator.only_apply (op : Operator) (a b : Number) : Only (op.CanFail a b) (op.apply a b) := by
  unfold Operator.apply
  split
  · rename_i hkinds
    simp only [Bool.and_eq_true, Bool.or_eq_true, beq_iff_eq] at hkinds
    exact only_error.2 ⟨hkinds.1, rfl, rfl, rfl, hkinds.2⟩
  · rename_i hkinds
    split
    · rename_i f hpair
      obtain ⟨rfl, hint⟩ := only_pairOf a b f hpair
      exact only_error.2 hint
    · rename_i m n hpair
      obtain ⟨rfl, rfl⟩ := eq_int_of_pairOf hpair
      exact op.only_onInts m n
    · exact op.only_onReals a b _ _
    · rename_i z w hpair
      have hcomplex : (a.kind == .complex || b.kind == .complex) = true := by
        simpa using kind_of_pairOf hpair
      rw [hcomplex, Bool.and_true, Bool.not_eq_true] at hkinds
      exact only_onComplexes hkinds a b z w

/-! ## Functions -/

def Function.Accepts : Function → Nat → Prop
  | .round, n => n = 1 ∨ n = 2
  | .min, n | .max, n => 1 ≤ n
  | _, n => n = 1

def Function.CanFail (fn : Function) (args : List Number) : Fault → Prop
  | .impossible .absoluteTooLarge => fn = .abs
  | .impossible .infinityToInteger => fn = .ceil ∨ fn = .floor ∨ fn = .round
  | .impossible .undefinedToInteger => fn = .ceil ∨ fn = .floor ∨ fn = .round
  | .impossible .roundedTooLarge => fn = .round
  | .impossible .outsideDomain => fn = .sqrt
  | .impossible .integerTooLarge => fn = .sqrt
  | .impossible .notReal => fn = .ceil ∨ fn = .floor ∨ fn = .sqrt
  | .impossible .notRoundable => fn = .round
  | .impossible (.notIndex kind) => fn = .round ∧ ∃ v places, args = [v, places] ∧ kind = places.kind
  | .impossible (.notIterable kind) => (fn = .min ∨ fn = .max) ∧ ∃ v, args = [v] ∧ kind = v.kind
  | .impossible (.order less left right) =>
    fn = (if less then .min else .max) ∧ (left = .complex ∨ right = .complex)
  | .impossible (.arity g given) => g = fn ∧ given = args.length ∧ ¬fn.Accepts given
  | _ => False

theorem only_absolute (v : Number) : Only (· = .impossible .absoluteTooLarge) (absolute v) := by
  cases v with
  | complex z => exact only_ite (only_error.2 rfl) (only_ok _)
  | _ => exact only_ok _

theorem only_wholeOf (x : Float) (n : Option Int) :
    Only (fun f => f = .impossible .undefinedToInteger ∨ f = .impossible .infinityToInteger) (wholeOf x n) := by
  cases n with
  | some n => exact only_ok _
  | none =>
      refine only_error.2 ?_
      split
      · exact .inl rfl
      · exact .inr rfl

/-- A function of one argument, of which it is known how it fails for this argument. -/
theorem only_single {fn : Function} (hfn : ∀ n, fn.Accepts n ↔ n = 1) {g : Number → Except Fault Number}
    {args : List Number} (hg : ∀ v, Only (fn.CanFail args) (g v)) :
    Only (fn.CanFail args) (single fn g args) := by
  unfold single
  split
  · exact hg _
  · rename_i hargs
    refine only_error.2 ⟨rfl, rfl, fun haccepts => ?_⟩
    obtain ⟨v, rfl⟩ := List.length_eq_one_iff.1 ((hfn _).1 haccepts)
    exact hargs v rfl

theorem only_roundToward {fn : Function} (hfn : fn = .ceil ∨ fn = .floor) (args : List Number)
    (g : Float → Option Int) (v : Number) : Only (fn.CanFail args) (roundToward g v) := by
  have hwhole : fn = .ceil ∨ fn = .floor ∨ fn = .round := hfn.imp_right .inl
  cases v with
  | int n => exact only_ok _
  | real x =>
      refine (only_wholeOf x _).mono fun f hf => ?_
      rcases hf with rfl | rfl <;> exact hwhole
  | complex z => exact only_error.2 (hfn.imp_right .inl)

/-- A square root fails only in the ways of its function. -/
theorem only_squareRoot (args : List Number) (v : Number) : Only (Function.sqrt.CanFail args) (squareRoot v) := by
  have hroot (x : Float) : Only (Function.sqrt.CanFail args)
      (if x < 0 then .error (.impossible .outsideDomain) else .ok (.real x.sqrt) : Except Fault Number) :=
    only_ite (only_error.2 rfl) (only_ok _)
  cases v with
  | int n =>
      simp only [squareRoot]
      split
      · rename_i heq
        rw [only_realOfInt _ _ heq]
        exact only_error.2 rfl
      · exact hroot _
  | real x => exact hroot x
  | complex z => exact only_error.2 (.inr (.inr rfl))

theorem only_roundWhole (args : List Number) (v : Number) : Only (Function.round.CanFail args) (roundWhole v) := by
  cases v with
  | int n => exact only_ok _
  | real x =>
      refine (only_wholeOf x _).mono fun f hf => ?_
      rcases hf with rfl | rfl <;> exact .inr (.inr rfl)
  | complex z => exact only_error.2 rfl

theorem only_roundTo (v places : Number) : Only (Function.round.CanFail [v, places]) (roundTo v places) := by
  unfold roundTo
  split
  · exact only_error.2 rfl
  · exact only_ok _
  · exact only_ok _
  · exact only_ite (only_ok _) (only_ite (only_ok _) (only_ite (only_error.2 rfl) (only_ok _)))
  · exact only_error.2 ⟨rfl, _, _, rfl, rfl⟩

/-- The least or the greatest number fails only at a complex one. -/
theorem only_extreme {fn : Function} {less : Bool} (hfn : fn = if less then .min else .max)
    (args : List Number) (best : Number) (vs : List Number) :
    Only (fn.CanFail args) (extreme less best vs) := by
  induction vs generalizing best with
  | nil => exact only_ok _
  | cons v vs ih =>
      unfold extreme
      split
      · rename_i hcomplex
        exact only_error.2 ⟨hfn, hcomplex⟩
      · exact only_ite (ih v) (ih best)

/-- The smallest and the largest number fail only in the ways of their functions. -/
theorem only_extremeOf {fn : Function} (less : Bool) (hfn : fn = if less then .min else .max)
    (args : List Number) : Only (fn.CanFail args) (extremeOf fn less args) := by
  have hcases : fn = .min ∨ fn = .max := by cases less <;> simp [hfn]
  unfold extremeOf
  split
  · refine only_error.2 ⟨rfl, rfl, ?_⟩
    rcases hcases with rfl | rfl <;> exact Nat.not_succ_le_zero 0
  · exact only_error.2 ⟨hcases, _, rfl, rfl⟩
  · exact only_extreme hfn _ _ _

/-- A function fails only in the ways that belong to it and to its arguments. -/
theorem Function.only_apply (fn : Function) (args : List Number) : Only (fn.CanFail args) (fn.apply args) := by
  cases fn with
  | abs =>
      refine only_single (fun n => Iff.rfl) fun v => (only_absolute v).mono fun f hf => ?_
      rw [hf]
      exact rfl
  | ceil => exact only_single (fun n => Iff.rfl) (only_roundToward (.inl rfl) args _)
  | floor => exact only_single (fun n => Iff.rfl) (only_roundToward (.inr rfl) args _)
  | sqrt => exact only_single (fun n => Iff.rfl) (only_squareRoot args)
  | round =>
      match args with
      | [v] => exact only_roundWhole _ v
      | [v, places] => exact only_roundTo v places
      | [] => exact only_error.2 ⟨rfl, rfl, by simp [Function.Accepts]⟩
      | _ :: _ :: _ :: _ => exact only_error.2 ⟨rfl, rfl, by simp [Function.Accepts]⟩
  | min => exact only_extremeOf true rfl args
  | max => exact only_extremeOf false rfl args

end Arithmetic

end TabletopChat
