import TabletopChat.Proofs.Arithmetic.Bounds

/-!
# Proofs/Arithmetic/Failing — a text has a value, or a reason why it has none

A text without null characters is evaluated to a number, or one thing is wrong with it: there is nothing in
it, it is no expression, or some part of the expression fails. Parts are evaluated from left to right and
from the inside, so that the part that fails is the first one: everything in front of it has a value. Only
a null character keeps a text from being read at all, so that it has neither a number nor a fault.

- `Operator.Fails`, `Function.Fails` : operators and functions that fail for certain values
- `Expr.Fails`      : an expression, and what the first part that fails fails with
- `eval_eq_error_iff` : the faults of an expression
- `Arises`          : the faults of a text
- `number_or_fault` : every text
-/

namespace TabletopChat

namespace Arithmetic

open Number (maxBits)

/-! ## Values that are too large -/

/-- A value within the limit passes the check. -/
theorem checked_of_within {v : Number} (h : v.Within maxBits) : checked v = .ok v := by
  cases v with
  | int n =>
      have hsize : ¬Number.bits n > maxBits := Nat.not_lt.2 h
      rw [checked, if_neg hsize]
  | real x => rfl
  | complex z => rfl

/-- Checking fails for integers beyond the limit only. -/
theorem checked_eq_error_iff {v : Number} {f : Fault} :
    checked v = .error f ↔ ¬v.Within maxBits ∧ f = .tooLarge := by
  by_cases h : v.Within maxBits
  · simp [checked_of_within h, h]
  · cases v with
    | int n =>
        have hsize : Number.bits n > maxBits := Nat.not_le.1 h
        simp [checked, hsize, h, eq_comm]
    | real x => exact absurd trivial h
    | complex z => exact absurd trivial h

/-- A sign does not make a number longer. -/
theorem within_applySign (negative : Bool) {v : Number} {k : Nat} (h : v.Within k) :
    (applySign negative v).Within k := by
  cases v with
  | int n => cases negative <;> simpa [applySign, Number.Within, Number.bits] using h
  | real x => trivial
  | complex z => trivial

/-! ## Operators and functions -/

/-- An operator is not computed, is not defined for its operands, or has a result that is too large. -/
inductive Operator.Fails (op : Operator) (a b : Number) : Fault → Prop
  /-- the size of the exponent of a power cannot be told -/
  | size : op = .pow → absolute b = .error (.impossible .absoluteTooLarge) →
      Fails op a b (.impossible .absoluteTooLarge)
  | exponent {size : Number} : op = .pow → absolute b = .ok size → exceeds maxExponent size = true →
      Fails op a b (.exponentTooLarge b.write)
  | power {size : Number} : op = .pow → absolute b = .ok size → exceeds maxExponent size = false →
      powerTooLarge a b = true → Fails op a b .tooLarge
  | undefined {f : Fault} : (op = .pow → guardPower a b = .ok ()) → op.apply a b = .error f →
      op.CanFail a b f → Fails op a b f
  | result {v : Number} : (op = .pow → guardPower a b = .ok ()) → op.apply a b = .ok v →
      ¬v.Within maxBits → Fails op a b .tooLarge

/-- A function is not defined for its arguments, or has a result that is too large. -/
inductive Function.Fails (fn : Function) (args : List Number) : Fault → Prop
  | undefined {f : Fault} : fn.apply args = .error f → fn.CanFail args f → Fails fn args f
  | result {v : Number} : fn.apply args = .ok v → ¬v.Within maxBits → Fails fn args .tooLarge

/-- A power is refused for its exponent or for its size. -/
theorem guardPower_eq_error_iff {a b : Number} {f : Fault} :
    guardPower a b = .error f ↔
      absolute b = .error f ∨
        ∃ size, absolute b = .ok size ∧
          (exceeds maxExponent size = true ∧ f = .exponentTooLarge b.write ∨
            exceeds maxExponent size = false ∧ powerTooLarge a b = true ∧ f = .tooLarge) := by
  unfold guardPower
  cases absolute b with
  | error g => simp
  | ok size =>
      cases hexceeds : exceeds maxExponent size <;> cases hpower : powerTooLarge a b <;>
        simp [hexceeds, eq_comm (a := f)]

/-- An operator has a fault exactly if it fails with it. -/
theorem operate_eq_error_iff {op : Operator} {a b : Number} {f : Fault} :
    operate op a b = .error f ↔ op.Fails a b f := by
  have hguard : (if op = .pow then guardPower a b else .ok ()) = .ok () ↔
      (op = .pow → guardPower a b = .ok ()) := by
    -- only powers are guarded
    by_cases hpow : op = .pow <;> simp [hpow]
  constructor
  · intro h
    unfold operate at h
    split at h
    · rename_i g heq
      cases h
      by_cases hpow : op = .pow
      · rw [if_pos hpow, guardPower_eq_error_iff] at heq
        rcases heq with hsize | ⟨size, hsize, ⟨hexceeds, rfl⟩ | ⟨hexceeds, hpower, rfl⟩⟩
        · obtain rfl := only_absolute b f hsize
          exact .size hpow hsize
        · exact .exponent hpow hsize hexceeds
        · exact .power hpow hsize hexceeds hpower
      · rw [if_neg hpow] at heq
        cases heq
    · rename_i heq
      -- the guard passed: either the operation fails by itself, or its result is too large
      have hallowed := hguard.1 heq
      split at h
      · rename_i g happly
        cases h
        exact .undefined hallowed happly (op.only_apply a b f happly)
      · rename_i v happly
        obtain ⟨hlarge, rfl⟩ := checked_eq_error_iff.1 h
        exact .result hallowed happly hlarge
  · intro h
    unfold operate
    cases h with
    | size hpow hsize => rw [if_pos hpow, guardPower_eq_error_iff.2 (.inl hsize)]
    | exponent hpow hsize hexceeds =>
        rw [if_pos hpow, guardPower_eq_error_iff.2 (.inr ⟨_, hsize, .inl ⟨hexceeds, rfl⟩⟩)]
    | power hpow hsize hexceeds hpower =>
        rw [if_pos hpow, guardPower_eq_error_iff.2 (.inr ⟨_, hsize, .inr ⟨hexceeds, hpower, rfl⟩⟩)]
    | undefined hallowed happly _ => rw [hguard.2 hallowed, happly]
    | result hallowed happly hlarge =>
        rw [hguard.2 hallowed, happly]
        exact checked_eq_error_iff.2 ⟨hlarge, rfl⟩

/-! ## Expressions -/

/-- An expression, and what the first of its parts that fails, from the left and from the inside, fails
with. -/
inductive Expr.Fails : Expr → Fault → Prop
  | number {v : Number} : ¬v.Within maxBits → Fails (.number v) .tooLarge
  | literal (v : Literal) : Fails (.literal v) (.unsupportedValue v.display)
  | form (form : Form) : Fails (.form form) (.unsupportedForm form)
  | symbol {name : Text} : constant? name = none → Fails (.symbol name) (.undefinedSymbol name)
  | signed {negative : Bool} {e : Expr} {f : Fault} : Fails e f → Fails (.signed negative e) f
  | left {op : Operator} {l r : Expr} {f : Fault} : Fails l f → Fails (.binary op l r) f
  | right {op : Operator} {l r : Expr} {a : Number} {f : Fault} : l.eval = .ok a → Fails r f →
      Fails (.binary op l r) f
  | operator {op : Operator} {l r : Expr} {a b : Number} {f : Fault} : l.eval = .ok a → r.eval = .ok b →
      op.Fails a b f → Fails (.binary op l r) f
  | nameless {named : Bool} {args : List Expr} : Fails (.call none named args) (.unknownFunction none)
  | unknown {name : Text} {named : Bool} {args : List Expr} : Function.named? name = none →
      Fails (.call (some name) named args) (.unknownFunction (some name))
  | named {name : Text} {fn : Function} {args : List Expr} : Function.named? name = some fn →
      Fails (.call (some name) true args) (.namedArguments name)
  | argument {name : Text} {fn : Function} {before behind : List Expr} {e : Expr} {vs : List Number}
      {f : Fault} : Function.named? name = some fn → evalAll before = .ok vs → Fails e f →
      Fails (.call (some name) false (before ++ e :: behind)) f
  | function {name : Text} {fn : Function} {args : List Expr} {vs : List Number} {f : Fault} :
      Function.named? name = some fn → evalAll args = .ok vs → fn.Fails vs f →
      Fails (.call (some name) false args) f

/-- Arguments are evaluated up to the first one that fails. -/
theorem evalAll_append_of_error {before behind : List Expr} {e : Expr} {vs : List Number} {f : Fault}
    (hbefore : evalAll before = .ok vs) (he : e.eval = .error f) :
    evalAll (before ++ e :: behind) = .error f := by
  induction before generalizing vs with
  | nil => rw [List.nil_append, evalAll, he]
  | cons d before ih =>
      rw [evalAll] at hbefore
      split at hbefore
      · cases hbefore
      · rename_i v hd
        split at hbefore
        · cases hbefore
        · rename_i ws hrest
          rw [List.cons_append, evalAll, hd, ih hrest]

mutual

/-- The value of an expression is missing because of the first part of it that fails. -/
theorem Expr.fails_of_eval {f : Fault} : (e : Expr) → e.eval = .error f → e.Fails f
  | .number v, h => by
      rw [Expr.eval] at h
      obtain ⟨hlarge, rfl⟩ := checked_eq_error_iff.1 h
      exact .number hlarge
  | .literal v, h => by
      rw [Expr.eval] at h
      cases h
      exact .literal v
  | .symbol name, h => by
      rw [Expr.eval] at h
      split at h
      · cases h
      · cases h
        exact .symbol ‹_›
  | .signed negative e, h => by
      rw [Expr.eval] at h
      split at h
      · rename_i heval
        cases h
        exact .signed (e.fails_of_eval heval)
      · -- what is within the limit stays so with a sign
        rename_i v heval
        rw [checked_of_within (within_applySign negative (Expr.eval_within heval))] at h
        cases h
  -- the right operand is evaluated only if the left one has a value
  | .binary op l r, h => by
      rw [Expr.eval] at h
      split at h
      · rename_i hl
        cases h
        exact .left (l.fails_of_eval hl)
      · rename_i a hl
        split at h
        · rename_i hr
          cases h
          exact .right hl (r.fails_of_eval hr)
        · rename_i b hr
          exact .operator hl hr (operate_eq_error_iff.1 h)
  | .call none named args, h => by
      rw [Expr.eval, callee] at h
      cases h
      exact .nameless
  | .call (some name) named args, h => by
      rw [Expr.eval] at h
      -- the name is looked up first, then named arguments are refused, and only then is an argument evaluated
      cases hname : Function.named? name with
      | none =>
          simp only [callee, hname] at h
          cases h
          exact .unknown hname
      | some fn =>
          cases named with
          | true =>
              simp only [callee, hname] at h
              cases h
              exact .named hname
          | false =>
              have hcallee : callee (some name) false = .ok fn := by simp [callee, hname]
              rw [hcallee] at h
              dsimp only at h
              split at h
              · rename_i hargs
                cases h
                obtain ⟨before, e, behind, vs, rfl, hbefore, he⟩ := fails_of_evalAll args hargs
                exact .argument hname hbefore he
              · rename_i vs hargs
                split at h
                · rename_i happly
                  cases h
                  exact .function hname hargs (.undefined happly (fn.only_apply vs f happly))
                · rename_i v happly
                  obtain ⟨hlarge, rfl⟩ := checked_eq_error_iff.1 h
                  exact .function hname hargs (.result happly hlarge)
  | .form form, h => by
      rw [Expr.eval] at h
      cases h
      exact .form form

/-- Of several expressions, all in front of the one that fails have values. -/
theorem fails_of_evalAll {f : Fault} : (es : List Expr) → evalAll es = .error f →
    ∃ before e behind vs, es = before ++ e :: behind ∧ evalAll before = .ok vs ∧ e.Fails f
  | [], h => by
      rw [evalAll] at h
      cases h
  | e :: es, h => by
      rw [evalAll] at h
      split at h
      · rename_i heval
        cases h
        exact ⟨[], e, es, [], rfl, rfl, e.fails_of_eval heval⟩
      · rename_i v heval
        split at h
        · rename_i hrest
          cases h
          obtain ⟨before, d, behind, vs, rfl, hbefore, hd⟩ := fails_of_evalAll es hrest
          exact ⟨e :: before, d, behind, v :: vs, rfl, by rw [evalAll, heval, hbefore], hd⟩
        · cases h

end

/-- An expression fails with the fault of its part. -/
theorem Expr.Fails.eval {e : Expr} {f : Fault} (h : e.Fails f) : e.eval = .error f := by
  induction h with
  | number hlarge =>
      rw [Expr.eval]
      exact checked_eq_error_iff.2 ⟨hlarge, rfl⟩
  | literal v => rw [Expr.eval]
  | form form => rw [Expr.eval]
  | symbol hname => rw [Expr.eval, hname]
  | signed _ ih => rw [Expr.eval, ih]
  | left _ ih => rw [Expr.eval, ih]
  | right hl _ ih => rw [Expr.eval, hl, ih]
  | operator hl hr hop =>
      rw [Expr.eval, hl, hr]
      exact operate_eq_error_iff.2 hop
  | nameless => rw [Expr.eval, callee]
  | unknown hname => simp [Expr.eval, callee, hname]
  | named hname => simp [Expr.eval, callee, hname]
  | argument hname hbefore _ ih =>
      simp [Expr.eval, callee, hname, evalAll_append_of_error hbefore ih]
  | function hname hargs hfn =>
      cases hfn with
      | undefined happly _ => simp [Expr.eval, callee, hname, hargs, happly]
      | result happly hlarge =>
          simp [Expr.eval, callee, hname, hargs, happly, checked_eq_error_iff, hlarge]

/-- An expression has a fault exactly if the first part that fails fails with it. -/
theorem eval_eq_error_iff {e : Expr} {f : Fault} : e.eval = .error f ↔ e.Fails f :=
  ⟨e.fails_of_eval, Expr.Fails.eval⟩

/-! ## Texts -/

/-- What is wrong with a text: nothing is in it, it is no expression, or the expression fails. -/
inductive Arises (t : Text) : Fault → Prop
  | empty : prepared t = [] → Arises t .empty
  | invalid : prepared t ≠ [] → parse? (prepared t) = none → Arises t .invalid
  | fails {e : Expr} {f : Fault} : prepared t ≠ [] → parse? (prepared t) = some e → e.Fails f → Arises t f

/-- A text has no value exactly if a fault arises in it. -/
theorem evaluate_eq_error_iff {t : Text} {f : Fault} : evaluate t = .error f ↔ Arises t f := by
  constructor
  · intro h
    unfold evaluate at h
    dsimp only at h
    split at h
    · cases h
      exact .empty ‹_›
    · rename_i hempty
      split at h
      · cases h
        exact .invalid hempty ‹_›
      · rename_i e hparse
        exact .fails hempty hparse (eval_eq_error_iff.1 h)
  · intro h
    unfold evaluate
    cases h with
    | empty hempty => simp [hempty]
    | invalid hempty hparse => simp [hempty, hparse]
    | fails hempty hparse hfails => simp [hempty, hparse, hfails.eval]

theorem outcome_of_mem {t : Text} (h : '\x00' ∈ t) : outcome t = .unreadable := by
  unfold outcome
  exact if_pos (by simpa using h)

theorem outcome_of_ok {t : Text} {v : Number} (h : '\x00' ∉ t) (hvalue : evaluate t = .ok v) :
    outcome t = .number v := by
  unfold outcome
  rw [if_neg (by simpa using h), hvalue]

theorem outcome_of_error {t : Text} {f : Fault} (h : '\x00' ∉ t) (hvalue : evaluate t = .error f) :
    outcome t = .fault (f.message (Text.strip t)) := by
  unfold outcome
  rw [if_neg (by simpa using h), hvalue]

/-- A text is unreadable exactly if there is a null character in it. Otherwise it has a number, namely the
value of the expression that it is, or a fault, which is told in the words for what is wrong with it. -/
theorem number_or_fault (t : Text) :
    (outcome t = .unreadable ↔ '\x00' ∈ t) ∧
      ('\x00' ∉ t →
        (∃ e v, parse? (prepared t) = some e ∧ e.eval = .ok v ∧ outcome t = .number v) ∨
          ∃ f, Arises t f ∧ outcome t = .fault (f.message (Text.strip t))) ∧
      ∀ f, '\x00' ∉ t → Arises t f → outcome t = .fault (f.message (Text.strip t)) := by
  have hread (h : '\x00' ∉ t) :
      (∃ e v, parse? (prepared t) = some e ∧ e.eval = .ok v ∧ outcome t = .number v) ∨
        ∃ f, Arises t f ∧ outcome t = .fault (f.message (Text.strip t)) := by
    cases hvalue : evaluate t with
    | ok v =>
        obtain ⟨e, hparse, heval, -⟩ := exists_of_evaluate hvalue
        exact .inl ⟨e, v, hparse, heval, outcome_of_ok h hvalue⟩
    | error f => exact .inr ⟨f, evaluate_eq_error_iff.1 hvalue, outcome_of_error h hvalue⟩
  refine ⟨⟨fun hunreadable => ?_, outcome_of_mem⟩, hread, fun f h hf => ?_⟩
  -- neither a number nor a fault is a refusal
  · by_contra hnul
    rcases hread hnul with ⟨e, v, -, -, hnumber⟩ | ⟨f, -, hfault⟩
    · rw [hunreadable] at hnumber
      cases hnumber
    · rw [hunreadable] at hfault
      cases hfault
  · exact outcome_of_error h (evaluate_eq_error_iff.2 hf)

theorem evaluate_zeroDivisor : evaluate "7/(2-2)".toList = .error .divisionByZero := by
  cbv

/-- A divisor that is computed, and is zero. -/
theorem number_or_fault_zeroDivisor :
    let t := "7/(2-2)".toList
    '\x00' ∉ t ∧ Arises t .divisionByZero ∧ outcome t = .fault "division by zero".toList := by
  intro t
  have hnul : '\x00' ∉ t := by decide
  have harises : Arises t .divisionByZero := evaluate_eq_error_iff.1 evaluate_zeroDivisor
  exact ⟨hnul, harises, (number_or_fault t).2.2 _ hnul harises⟩

/-- A null character leads to neither a number nor a fault. -/
theorem null_has_no_fault :
    (∀ v, outcome ['\x00'] ≠ .number v) ∧ ∀ message, outcome ['\x00'] ≠ .fault message := by
  have hunreadable : outcome ['\x00'] = .unreadable := rfl
  rw [hunreadable]
  exact ⟨nofun, nofun⟩

end Arithmetic

end TabletopChat
