import TabletopChat.Arithmetic.Evaluate
import TabletopChat.Proofs.Decimal.Rounding
import TabletopChat.Proofs.Arithmetic.Faults
import TabletopChat.Proofs.Text.Numeral

/-!
# Proofs/Arithmetic/Bounds — how large the integers of an expression become

Every value of a part of an expression is checked for its size before anything else is done with it, so
that the operands of an operator are small. What an operator computes from small operands can be larger,
but never more than twice as long, a power included: it is not computed at all if the length of its base
times the exponent is too large. What is returned can always be printed.

- `Event`, `Expr.events`  : the values and the operations of an evaluation, in their order
- `Number.Within`         : an integer is not longer than this
- `apply_within`          : what an operator computes, before it is checked
- `Expr.events_bounded`   : everything that happens while an expression is evaluated
- `part_recorded`, `operator_recorded` : the parts and the operators of a text that has a value
- `evaluation_bounded`    : a text, and what is printed for it
-/

namespace TabletopChat

namespace Arithmetic

open Number (bits maxBits)

/-! ## What happens during an evaluation -/

/-- Something that happens while an expression is evaluated. -/
inductive Event
  /-- a part of the expression, or the whole of it, has this value -/
  | value (v : Number)
  /-- an operator computes a result, whose size has not been checked yet -/
  | computed (op : Operator) (left right result : Number)

def Event.returned : Except Fault Number → List Event
  | .ok v => [.value v]
  | .error _ => []

/-- What an operator computes, unless the power is refused before. -/
def Operator.events (op : Operator) (left right : Number) : List Event :=
  match if op = .pow then guardPower left right else .ok () with
  | .error _ => []
  | .ok () =>
    match op.apply left right with
    | .error _ => []
    | .ok v => [.computed op left right v]

mutual

/-- What happens while an expression is evaluated, up to the first fault. -/
def Expr.events : Expr → List Event
  | .signed negative e => e.events ++ Event.returned (Expr.signed negative e).eval
  | .binary op left right =>
    left.events ++
      (match left.eval with
        | .error _ => []
        | .ok a =>
          right.events ++
            (match right.eval with
              | .error _ => []
              | .ok b => op.events a b)) ++
      Event.returned (Expr.binary op left right).eval
  | .call function named args =>
    (match callee function named with
      | .error _ => []
      | .ok _ => eventsAll args) ++
      Event.returned (Expr.call function named args).eval
  | e => Event.returned e.eval

def eventsAll : List Expr → List Event
  | [] => []
  | e :: es =>
    e.events ++
      (match e.eval with
        | .error _ => []
        | .ok _ => eventsAll es)

end

def events (expression : Text) : List Event :=
  let t := prepared expression
  if t = [] then []
  else
    match parse? t with
    | none => []
    | some e => e.events

/-! ## Lengths of integers -/

/-- The number of bits, told by powers of two. -/
theorem bits_le_iff {n : Int} {k : Nat} : bits n ≤ k ↔ n.natAbs < 2 ^ k := by
  unfold bits Decimal.bitLength
  split
  · rename_i hzero
    simp [hzero]
  · rename_i hpos
    rw [Nat.succ_le_iff, Nat.log2_lt hpos]

/-- An integer has at most so many binary digits; of other numbers nothing is said. -/
def Number.Within (k : Nat) : Number → Prop
  | .int n => bits n ≤ k
  | _ => True

theorem Number.within_of_kind {v : Number} {k : Nat} (h : v.kind ≠ .int) : v.Within k := by
  cases v with
  | int n => exact absurd rfl h
  | real x => trivial
  | complex z => trivial

/-- A value that was checked is within the limit. -/
theorem checked_within {v w : Number} (h : checked v = .ok w) : w.Within maxBits := by
  cases v with
  | int n =>
      simp only [checked] at h
      split at h
      · cases h
      · rename_i hsize
        cases h
        exact Nat.not_lt.mp hsize
  | real x =>
      cases h
      trivial
  | complex z =>
      cases h
      trivial

/-! ## What operators compute

Only an operator between two integers computes an integer. -/

/-- A quotient is never an integer, even between integers. -/
theorem divideInts_kind {a b : Int} {v : Number} (h : divideInts a b = .ok v) : v.kind ≠ .int := by
  simp only [divideInts] at h
  split at h
  · cases h
  · split at h <;> cases h
    exact nofun

/-- A power of complex numbers is never a whole number. -/
theorem powComplex_kind {z w : Complex} {v : Number} (h : powComplex z w = .ok v) :
    v.kind ≠ .int := by
  unfold powComplex at h
  split at h
  · cases h
  · split at h <;> cases h
    exact nofun

theorem powPositive_kind {negative : Bool} {x y : Float} {v : Number}
    (h : powPositive negative x y = .ok v) : v.kind ≠ .int := by
  simp only [powPositive] at h
  split at h <;> cases h
  exact nofun

theorem real_kind {x : Float} {v : Number} (h : (.ok (.real x) : Except Fault Number) = .ok v) :
    v.kind ≠ .int := by
  cases h
  exact nofun

theorem kind_of_ite {c : Prop} [Decidable c] {r s : Except Fault Number} {v : Number}
    (hr : r = .ok v → v.kind ≠ .int) (hs : s = .ok v → v.kind ≠ .int)
    (h : (if c then r else s) = .ok v) : v.kind ≠ .int := by
  split at h
  · exact hr h
  · exact hs h

theorem powReal_kind {x y : Float} {v : Number} (h : powReal x y = .ok v) : v.kind ≠ .int := by
  unfold powReal at h
  refine kind_of_ite real_kind (kind_of_ite real_kind (kind_of_ite real_kind (kind_of_ite ?exponent
    (kind_of_ite ?base (kind_of_ite ?zero (kind_of_ite ?negative
      (kind_of_ite real_kind powPositive_kind))))))) h
  case exponent => exact kind_of_ite real_kind (kind_of_ite real_kind real_kind)
  case base => exact kind_of_ite real_kind real_kind
  case zero => exact kind_of_ite nofun real_kind
  case negative => exact kind_of_ite powComplex_kind (kind_of_ite real_kind powPositive_kind)

/-- Operators on reals compute no integers. -/
theorem onReals_kind {op : Operator} {x y : Float} {v : Number} (h : op.onReals x y = .ok v) :
    v.kind ≠ .int := by
  cases op with
  | pow => exact powReal_kind h
  | add | sub | mul =>
      cases h
      exact nofun
  | div | floorDiv | mod =>
      simp only [Operator.onReals] at h
      split at h <;> cases h
      exact nofun

theorem onComplexes_kind {op : Operator} {z w : Complex} {v : Number}
    (h : op.onComplexes z w = .ok v) : v.kind ≠ .int := by
  cases op with
  | pow => exact powComplex_kind h
  | add | sub | mul =>
      cases h
      exact nofun
  | div =>
      simp only [Operator.onComplexes] at h
      split at h <;> cases h
      exact nofun
  | floorDiv | mod => cases h

/-- The length of a power is at most the length of the base times the exponent, but for the number one. -/
theorem natAbs_pow_lt (a : Int) (n : Nat) : (Int.pow a n).natAbs < 2 ^ (bits a * n + 1) := by
  have hbase : a.natAbs < 2 ^ bits a := bits_le_iff.mp le_rfl
  calc (Int.pow a n).natAbs
      = a.natAbs ^ n := Int.natAbs_pow a n
    _ ≤ (2 ^ bits a) ^ n := Nat.pow_le_pow_left hbase.le n
    _ = 2 ^ (bits a * n) := (Nat.pow_mul 2 (bits a) n).symm
    _ < 2 ^ (bits a * n + 1) := Nat.pow_lt_pow_right (by decide) (Nat.lt_succ_self _)

/-- A power that was not refused is at most twice as long as the limit. -/
theorem powInts_within {a b : Int} {v : Number} (hguard : powerTooLarge (.int a) (.int b) = false)
    (h : powInts a b = .ok v) : v.Within (2 * maxBits) := by
  match b, h with
  | .ofNat n, h =>
      cases h
      have hsize : bits a * n ≤ maxBits := by
        have hle : (bits a : Int) * (n : Int) ≤ (maxBits : Int) :=
          Int.not_lt.mp (of_decide_eq_false hguard)
        exact_mod_cast hle
      have htwo : maxBits + 1 ≤ 2 * maxBits := by decide
      exact bits_le_iff.mpr ((natAbs_pow_lt a n).trans_le
        (Nat.pow_le_pow_right (by decide) ((Nat.succ_le_succ hsize).trans htwo)))
  | .negSucc n, h =>
      simp only [powInts] at h
      split at h
      · exact Number.within_of_kind (powReal_kind h)
      · cases h
      · cases h

/-- A remainder is smaller than the divisor, whose sign it has. -/
theorem natAbs_fmod_lt (a : Int) {b : Int} (h : b ≠ 0) : (Int.fmod a b).natAbs < b.natAbs := by
  have hpositive (a : Int) {b : Int} (hb : 0 < b) : (Int.fmod a b).natAbs < b.natAbs := by
    have hlow := Int.fmod_nonneg_of_pos a hb
    have hhigh := Int.fmod_lt_of_pos a hb
    omega
  rcases Int.lt_or_gt_of_ne h with hneg | hpos
  · have hflip := hpositive (-a) (b := -b) (by omega)
    rw [Int.neg_fmod_neg] at hflip
    omega
  · exact hpositive a hpos

/-- An operator between integers of at most `k` binary digits, other than a power. -/
theorem onInts_within {op : Operator} {a b : Int} {k : Nat} {v : Number} (hk : 0 < k)
    (hpow : op ≠ .pow) (ha : bits a ≤ k) (hb : bits b ≤ k) (h : op.onInts a b = .ok v) :
    v.Within (2 * k) := by
  rw [bits_le_iff] at ha hb
  -- sums, differences and products fit into twice as many digits; whole quotients and remainders get no longer
  have hsum : 2 ^ k + 2 ^ k ≤ 2 ^ (2 * k) := by
    rw [← Nat.two_mul, ← Nat.pow_succ']
    exact Nat.pow_le_pow_right (by decide) (by omega)
  have hone : 2 ^ k ≤ 2 ^ (2 * k) := (Nat.le_add_right _ _).trans hsum
  cases op with
  | add =>
      cases h
      have := Int.natAbs_add_le a b
      exact bits_le_iff.mpr (by omega)
  | sub =>
      cases h
      have := Int.natAbs_sub_le a b
      exact bits_le_iff.mpr (by omega)
  | mul =>
      cases h
      apply bits_le_iff.mpr
      rw [Int.natAbs_mul, Nat.two_mul, Nat.pow_add]
      exact Nat.mul_lt_mul'' ha hb
  | div => exact Number.within_of_kind (divideInts_kind h)
  | floorDiv =>
      simp only [Operator.onInts] at h
      split at h <;> cases h
      have := Int.natAbs_fdiv_le_natAbs a b
      exact bits_le_iff.mpr (by omega)
  | mod =>
      simp only [Operator.onInts] at h
      split at h <;> cases h
      rename_i hzero
      have := natAbs_fmod_lt a hzero
      exact bits_le_iff.mpr (by omega)
  | pow => exact absurd rfl hpow

/-- A power that is not refused is not too large. -/
theorem guardPower_ok {a b : Number} (h : guardPower a b = .ok ()) : powerTooLarge a b = false := by
  unfold guardPower at h
  split at h
  · cases h
  · split at h
    · cases h
    · split at h
      · cases h
      · rename_i hsize
        exact Bool.eq_false_iff.mpr hsize

/-- What an operator computes is at most twice as long as its operands may be. -/
theorem apply_within {op : Operator} {a b v : Number} (ha : a.Within maxBits) (hb : b.Within maxBits)
    (hguard : op = .pow → powerTooLarge a b = false) (h : op.apply a b = .ok v) :
    v.Within (2 * maxBits) := by
  unfold Operator.apply at h
  split at h
  · cases h
  · split at h
    · cases h
    · rename_i m n hpair
      obtain ⟨rfl, rfl⟩ := eq_int_of_pairOf hpair
      by_cases hpow : op = .pow
      · subst hpow
        exact powInts_within (hguard rfl) h
      · exact onInts_within (by decide) hpow ha hb h
    · exact Number.within_of_kind (onReals_kind h)
    · exact Number.within_of_kind (onComplexes_kind h)

/-! ## Every event is bounded -/

/-- The integers of an event are small: values and operands are within the limit, and what is
computed is at most twice as long. -/
def Event.Bounded : Event → Prop
  | .value v => v.Within maxBits
  | .computed _ left right result =>
    left.Within maxBits ∧ right.Within maxBits ∧ result.Within (2 * maxBits)

/-- What an operator gives was checked. -/
theorem operate_within {op : Operator} {a b v : Number} (h : operate op a b = .ok v) :
    v.Within maxBits := by
  unfold operate at h
  split at h
  · cases h
  · split at h
    · cases h
    · exact checked_within h

/-- The constants are doubles and need no check. -/
theorem constant?_within {name : Text} {v : Number} (h : constant? name = some v) :
    v.Within maxBits := by
  unfold constant? at h
  split at h
  · cases h
    trivial
  · split at h <;> cases h
    trivial

/-- Every value of an expression is within the limit: it was checked, or it is a constant. -/
theorem Expr.eval_within {e : Expr} {v : Number} (h : e.eval = .ok v) : v.Within maxBits := by
  cases e with
  | number w =>
      rw [Expr.eval] at h
      exact checked_within h
  | literal w =>
      rw [Expr.eval] at h
      cases h
  -- a symbol is not checked: the constants are of a fixed size
  | symbol name =>
      rw [Expr.eval] at h
      split at h <;> cases h
      exact constant?_within ‹_›
  | signed negative e =>
      rw [Expr.eval] at h
      split at h
      · cases h
      · exact checked_within h
  | binary op left right =>
      rw [Expr.eval] at h
      split at h
      · cases h
      · split at h
        · cases h
        · exact operate_within h
  | call function named args =>
      rw [Expr.eval] at h
      split at h
      · cases h
      · split at h
        · cases h
        · split at h
          · cases h
          · exact checked_within h
  | form f =>
      rw [Expr.eval] at h
      cases h

/-- What an evaluation returns is bounded. -/
theorem Event.returned_bounded {e : Expr} : ∀ x ∈ Event.returned e.eval, x.Bounded := by
  intro x hx
  cases h : e.eval with
  | error f => simp [h, Event.returned] at hx
  | ok v =>
      rw [h, Event.returned, List.mem_singleton] at hx
      subst hx
      exact Expr.eval_within h

/-- An operator on bounded operands has bounded events only. -/
theorem Operator.events_bounded {op : Operator} {a b : Number} (ha : a.Within maxBits)
    (hb : b.Within maxBits) : ∀ x ∈ op.events a b, x.Bounded := by
  intro x hx
  unfold Operator.events at hx
  split at hx
  · cases hx
  · rename_i hguard
    split at hx
    · cases hx
    · rename_i v happly
      rw [List.mem_singleton] at hx
      subst hx
      refine ⟨ha, hb, apply_within ha hb ?_ happly⟩
      rintro rfl
      exact guardPower_ok hguard

mutual

/-- Everything that happens while an expression is evaluated is bounded. -/
theorem Expr.events_bounded : (e : Expr) → ∀ x ∈ e.events, x.Bounded
  | .signed negative e => by
      intro x hx
      rw [Expr.events, List.mem_append] at hx
      rcases hx with hx | hx
      · exact e.events_bounded x hx
      · exact Event.returned_bounded x hx
  | .binary op left right => by
      intro x hx
      rw [Expr.events, List.append_assoc, List.mem_append, List.mem_append] at hx
      rcases hx with hx | hx | hx
      · exact left.events_bounded x hx
      -- the right operand is read only if the left one has a value, and the operator only if both have one
      · cases hleft : left.eval with
        | error f => simp [hleft] at hx
        | ok a =>
            simp only [hleft, List.mem_append] at hx
            rcases hx with hx | hx
            · exact right.events_bounded x hx
            · cases hright : right.eval with
              | error f => simp [hright] at hx
              | ok b =>
                  simp only [hright] at hx
                  exact Operator.events_bounded (Expr.eval_within hleft) (Expr.eval_within hright) x hx
      · exact Event.returned_bounded x hx
  | .call function named args => by
      intro x hx
      rw [Expr.events, List.mem_append] at hx
      rcases hx with hx | hx
      · split at hx
        · cases hx
        · exact eventsAll_bounded args x hx
      · exact Event.returned_bounded x hx
  | .number _ | .literal _ | .symbol _ | .form _ => by
      intro x hx
      simp only [Expr.events] at hx
      exact Event.returned_bounded x hx

/-- Expressions from left to right: everything that happens is bounded. -/
theorem eventsAll_bounded : (es : List Expr) → ∀ x ∈ eventsAll es, x.Bounded
  | [] => by simp [eventsAll]
  | e :: es => by
      intro x hx
      rw [eventsAll, List.mem_append] at hx
      rcases hx with hx | hx
      · exact e.events_bounded x hx
      · split at hx
        · cases hx
        · exact eventsAll_bounded es x hx

end

/-- Everything that happens while a text is evaluated is bounded. -/
theorem events_bounded (t : Text) : ∀ x ∈ events t, x.Bounded := by
  intro x hx
  simp only [events] at hx
  split at hx
  · cases hx
  · split at hx
    · cases hx
    · exact Expr.events_bounded _ x hx

/-! ## Nothing is missing

Where an evaluation has a value, all of its parts have one. So every operand is among the values, and for
every operator what it computes is there as well. -/

/-- What is evaluated on the way to the value of an expression: the expression itself, and the parts of
its operands and arguments. -/
inductive Expr.Part (part : Expr) : Expr → Prop
  | self : Expr.Part part part
  | signed {negative : Bool} {e : Expr} (h : Expr.Part part e) : Expr.Part part (.signed negative e)
  | left {op : Operator} {left right : Expr} (h : Expr.Part part left) :
      Expr.Part part (.binary op left right)
  | right {op : Operator} {left right : Expr} (h : Expr.Part part right) :
      Expr.Part part (.binary op left right)
  | argument {function : Option Text} {named : Bool} {args : List Expr} {e : Expr} (he : e ∈ args)
      (h : Expr.Part part e) : Expr.Part part (.call function named args)

/-- An operator has a value only if both operands have one. -/
theorem exists_of_eval_binary {op : Operator} {left right : Expr} {v : Number}
    (h : (Expr.binary op left right).eval = .ok v) :
    ∃ a b, left.eval = .ok a ∧ right.eval = .ok b ∧ operate op a b = .ok v := by
  rw [Expr.eval] at h
  cases hleft : left.eval with
  | error f =>
      rw [hleft] at h
      cases h
  | ok a =>
      rw [hleft] at h
      cases hright : right.eval with
      | error f =>
          rw [hright] at h
          cases h
      | ok b =>
          rw [hright] at h
          exact ⟨a, b, rfl, rfl, h⟩

/-- A call has a value only if its function is known and all arguments have one. -/
theorem exists_of_eval_call {function : Option Text} {named : Bool} {args : List Expr} {v : Number}
    (h : (Expr.call function named args).eval = .ok v) :
    ∃ fn vs, callee function named = .ok fn ∧ evalAll args = .ok vs := by
  rw [Expr.eval] at h
  cases hcallee : callee function named with
  | error f =>
      rw [hcallee] at h
      cases h
  | ok fn =>
      rw [hcallee] at h
      cases hargs : evalAll args with
      | error f =>
          rw [hargs] at h
          cases h
      | ok vs => exact ⟨fn, vs, rfl, rfl⟩

/-- What happens for one of several expressions that all have values happens for all of them. -/
theorem events_subset_of_mem {args : List Expr} {vs : List Number} (h : evalAll args = .ok vs) {e : Expr}
    (he : e ∈ args) : (∃ v, e.eval = .ok v) ∧ e.events ⊆ eventsAll args := by
  induction args generalizing vs with
  | nil => cases he
  | cons head rest ih =>
      rw [evalAll] at h
      cases hhead : head.eval with
      | error f =>
          rw [hhead] at h
          cases h
      | ok v =>
          rw [hhead] at h
          cases hrest : evalAll rest with
          | error f =>
              rw [hrest] at h
              cases h
          | ok ws =>
              simp only [eventsAll, hhead]
              rcases List.mem_cons.1 he with rfl | hmem
              · exact ⟨⟨v, hhead⟩, List.subset_append_left _ _⟩
              · have hsubset := ih hrest hmem
                exact ⟨hsubset.1, List.Subset.trans hsubset.2 (List.subset_append_right _ _)⟩

/-- What happens for a part of an expression that has a value happens for the expression. -/
theorem Expr.Part.events_subset {part e : Expr} (h : part.Part e) {v : Number} (hv : e.eval = .ok v) :
    (∃ w, part.eval = .ok w) ∧ part.events ⊆ e.events := by
  induction h generalizing v with
  | self => exact ⟨⟨v, hv⟩, List.Subset.refl _⟩
  | @signed negative e _ ih =>
      cases he : e.eval with
      | error f =>
          rw [Expr.eval, he] at hv
          cases hv
      | ok w =>
          rw [Expr.events]
          exact ⟨(ih he).1, List.Subset.trans (ih he).2 (List.subset_append_left _ _)⟩
  | left _ ih =>
      obtain ⟨a, b, hleft, -, -⟩ := exists_of_eval_binary hv
      rw [Expr.events, List.append_assoc]
      exact ⟨(ih hleft).1, List.Subset.trans (ih hleft).2 (List.subset_append_left _ _)⟩
  | @right op left right _ ih =>
      obtain ⟨a, b, hleft, hright, -⟩ := exists_of_eval_binary hv
      -- the operand on the left has a value, so the events of the other one are in the log
      refine ⟨(ih hright).1, fun x hx => ?_⟩
      have hmem := (ih hright).2 hx
      simp [Expr.events, hleft, hmem]
  | argument he _ ih =>
      obtain ⟨fn, vs, hcallee, hargs⟩ := exists_of_eval_call hv
      obtain ⟨⟨w, hw⟩, hsubset⟩ := events_subset_of_mem hargs he
      refine ⟨(ih hw).1, fun x hx => ?_⟩
      have hmem := hsubset ((ih hw).2 hx)
      simp [Expr.events, hcallee, hmem]

theorem Expr.value_mem_events {e : Expr} {v : Number} (h : e.eval = .ok v) : Event.value v ∈ e.events := by
  cases e <;> simp [Expr.events, Event.returned, h]

/-- The operator of an expression that has a value computes a result before it is checked. -/
theorem Expr.computed_mem_events {op : Operator} {left right : Expr} {v : Number}
    (h : (Expr.binary op left right).eval = .ok v) :
    ∃ a b result, left.eval = .ok a ∧ right.eval = .ok b ∧ op.apply a b = .ok result ∧
      Event.computed op a b result ∈ (Expr.binary op left right).events := by
  obtain ⟨a, b, hleft, hright, hoperate⟩ := exists_of_eval_binary h
  unfold operate at hoperate
  split at hoperate
  · cases hoperate
  · rename_i hguard
    split at hoperate
    · cases hoperate
    · rename_i result happly
      refine ⟨a, b, result, hleft, hright, happly, ?_⟩
      simp [Expr.events, hleft, hright, Operator.events, hguard, happly]

/-- A text that has a value is read as an expression, and what happens is what happens for that. -/
theorem exists_of_evaluate {t : Text} {v : Number} (h : evaluate t = .ok v) :
    ∃ e, parse? (prepared t) = some e ∧ e.eval = .ok v ∧ events t = e.events := by
  simp only [evaluate] at h
  simp only [events]
  by_cases hne : prepared t = []
  · rw [if_pos hne] at h
    cases h
  · rw [if_neg hne] at h ⊢
    cases hparse : parse? (prepared t) with
    | none =>
        rw [hparse] at h
        cases h
    | some e =>
        rw [hparse] at h
        exact ⟨e, rfl, h, rfl⟩

/-- Every part of a text that has a value has a value too, which is among those that were found. -/
theorem part_recorded {t : Text} {e part : Expr} {v : Number} (h : evaluate t = .ok v)
    (hparse : parse? (prepared t) = some e) (hpart : part.Part e) :
    ∃ w, part.eval = .ok w ∧ Event.value w ∈ events t := by
  obtain ⟨e', hparse', hvalue, hevents⟩ := exists_of_evaluate h
  cases hparse.symm.trans hparse'
  obtain ⟨⟨w, hw⟩, hsubset⟩ := hpart.events_subset hvalue
  rw [hevents]
  exact ⟨w, hw, hsubset (Expr.value_mem_events hw)⟩

/-- Every operator in a text that has a value was applied to the values of its operands. -/
theorem operator_recorded {t : Text} {e left right : Expr} {op : Operator} {v : Number}
    (h : evaluate t = .ok v) (hparse : parse? (prepared t) = some e)
    (hpart : (Expr.binary op left right).Part e) :
    ∃ a b result, left.eval = .ok a ∧ right.eval = .ok b ∧ op.apply a b = .ok result ∧
      Event.computed op a b result ∈ events t := by
  obtain ⟨e', hparse', hvalue, hevents⟩ := exists_of_evaluate h
  cases hparse.symm.trans hparse'
  obtain ⟨⟨w, hw⟩, hsubset⟩ := hpart.events_subset hvalue
  obtain ⟨a, b, result, hleft, hright, happly, hmem⟩ := Expr.computed_mem_events hw
  rw [hevents]
  exact ⟨a, b, result, hleft, hright, happly, hsubset hmem⟩

/-- The value of a text is one of the values that were found on the way to it. -/
theorem value_mem_events {t : Text} {v : Number} (h : evaluate t = .ok v) :
    Event.value v ∈ events t := by
  obtain ⟨e, -, hvalue, hevents⟩ := exists_of_evaluate h
  rw [hevents]
  exact Expr.value_mem_events hvalue

/-! ## Printing -/

/-- A whole double is within the limit of integers. -/
theorem integer?_lt {x : Float} {n : Int} (h : Decimal.integer? x = some n) : n.natAbs < 2 ^ maxBits := by
  unfold Decimal.integer? at h
  split at h
  · rename_i neg m hshape
    obtain ⟨hdouble, -⟩ := Decimal.finite_of_shape hshape
    simp only [Option.ite_none_right_eq_some, Option.some.injEq] at h
    have hquotient : m.ratio.1 / m.ratio.2 < 2 ^ maxBits := by
      refine (Nat.div_le_self _ _).trans_lt ?_
      have hexp : m.exp.toNat ≤ 971 := by
        have := hdouble.le_greatest
        omega
      calc m.ratio.1
          ≤ m.mant * 2 ^ m.exp.toNat := m.ratio_fst_le
        _ < 2 ^ 53 * 2 ^ m.exp.toNat := Nat.mul_lt_mul_of_pos_right hdouble.mant_lt (Nat.two_pow_pos _)
        _ = 2 ^ (53 + m.exp.toNat) := (Nat.pow_add 2 53 _).symm
        _ ≤ 2 ^ maxBits := Nat.pow_le_pow_right (by decide) (by unfold maxBits; omega)
    rw [← h.2, Decimal.natAbs_signed]
    exact hquotient
  · cases h

/-- Three binary digits are less than one decimal digit. -/
theorem lt_ten_pow {n k d : Nat} (h : n < 2 ^ k) (hk : k ≤ 3 * d) : n < 10 ^ d :=
  calc n
      < 2 ^ k := h
    _ ≤ 2 ^ (3 * d) := Nat.pow_le_pow_right (by decide) hk
    _ = (2 ^ 3) ^ d := Nat.pow_mul 2 3 d
    _ ≤ 10 ^ d := Nat.pow_le_pow_left (by decide) d

/-- An integer within the limit has at most 3334 decimal digits. -/
theorem numeral?_of_lt {n : Int} (h : n.natAbs < 2 ^ maxBits) :
    Number.numeral? n = some (Text.ofInt n) := by
  have hlength : (Text.ofNat n.natAbs).length ≤ 3334 :=
    Text.length_ofNat_le (by decide) (lt_ten_pow h (by decide))
  exact if_pos (hlength.trans (by decide))

/-- A number within the limit can always be printed. -/
theorem print?_of_within {v : Number} (h : v.Within maxBits) : v.print? = some v.display := by
  cases v with
  | int n => exact numeral?_of_lt (bits_le_iff.mp h)
  | real x =>
      simp only [Number.print?, Number.display]
      split
      · rename_i n hn
        exact numeral?_of_lt (integer?_lt hn)
      · rfl
  | complex z => rfl

/-- Whatever happens while a text is evaluated, integers stay small, and a number that comes out can be
printed. -/
theorem evaluation_bounded (t : Text) :
    (∀ x ∈ events t, x.Bounded) ∧
      ∀ v, outcome t = .number v → v.Within maxBits ∧ v.print? = some v.display := by
  refine ⟨events_bounded t, fun v hv => ?_⟩
  have hvalue : evaluate t = .ok v := by
    unfold outcome at hv
    split at hv
    · cases hv
    · split at hv <;> cases hv
      assumption
  have hwithin : v.Within maxBits := events_bounded t _ (value_mem_events hvalue)
  exact ⟨hwithin, print?_of_within hwithin⟩

theorem events_product :
    (events "2^5*-3".toList)[6]? = some (.computed .mul (.int 32) (.int (-3)) (.int (-96))) := by
  cbv

theorem outcome_product : outcome "2^5*-3".toList = .number (.int (-96)) := by
  cbv

/-- A power and a product: the power is an operand of the product. -/
theorem evaluation_bounded_product :
    (Event.computed .mul (.int 32) (.int (-3)) (.int (-96))).Bounded ∧
      (Number.int (-96)).Within maxBits ∧ (Number.int (-96)).print? = some "-96".toList := by
  have hbounded := evaluation_bounded "2^5*-3".toList
  exact ⟨hbounded.1 _ (List.mem_of_getElem? events_product), hbounded.2 _ outcome_product⟩

end Arithmetic

end TabletopChat
