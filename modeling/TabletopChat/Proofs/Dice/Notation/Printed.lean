import TabletopChat.Proofs.Decimal.Rounding
import TabletopChat.Proofs.Dice.Plain.Chains
import TabletopChat.Proofs.Dice.Notation.Shape

/-!
# Proofs/Dice/Notation/Printed — what rolled trees are written as

The terms of a rolled tree of integers are written as a chain of numbers. Arithmetic finds the tree
again in that chain, because its operators bind as those of dice notation do; so the chain is worth
what the tree is worth.

- `Rolled.integral` : trees of integers
- `Rolled.within`   : trees whose parts stay within the limits of arithmetic
- `Prints`          : a rolled tree, its terms, the chain that they are, and what is read from it
- `prints_of_shaped` : every rolled tree of the right shape is written as a chain
-/

namespace TabletopChat

namespace Notation

open Plain (Infix Expression Operand textOf levelInArithmetic Whole Reads ReadsOperand)
open Arithmetic (Number Parsed checked)

/-! ## Trees of integers -/

def Binary.integral? : Binary → Option Infix
  | .arithmetic .add => some .add
  | .arithmetic .sub => some .sub
  | .arithmetic .mul => some .mul
  | .arithmetic .floorDiv => some .floorDiv
  | .arithmetic .mod => some .mod
  | _ => none

theorem Binary.eq_of_integral? {op : Binary} {f : Infix} (h : op.integral? = some f) :
    op = .arithmetic f.operator := by
  unfold integral? at h
  split at h <;> cases h <;> rfl

theorem value_ints (f : Infix) (a b : Int) :
    Binary.value (.arithmetic f.operator) (.int a) (.int b) = f.operator.onInts a b := f.apply_ints a b

mutual

/-- Whether all numbers of a tree are integers: there is no comparison, no division and no decimal
fraction in it. -/
def Rolled.integral : Rolled → Bool
  | .literal (.int _) _ => true
  | .literal _ _ => false
  | .dice _ _ _ => true
  | .group x _ _ => x.integral
  | .set xs _ => allIntegral xs
  | .signed _ x _ => x.integral
  | .binary op l r _ => op.integral?.isSome && l.integral && r.integral

def allIntegral : List Rolled → Bool
  | [] => true
  | x :: xs => x.integral && allIntegral xs

end

mutual

/-- A tree of integers is worth an integer, unless something in it is divided by zero. -/
theorem Rolled.total_whole : (r : Rolled) → r.integral = true → Whole r.total
  | .literal (.int n) k, _ => by
    rw [Rolled.total]
    split
    · exact .int n
    · exact .int 0
  | .dice sides ds k, _ => .int _
  -- what is not kept is worth zero, in brackets as everywhere
  | .group x o k, h => by
    rw [Rolled.total]
    split
    · exact x.total_whole h
    · exact .int 0
  | .set xs k, h => by
    rw [Rolled.total]
    split
    · exact totalOf_whole xs h 0
    · exact .int 0
  | .signed n x k, h => by
    have hx := x.total_whole h
    rw [Rolled.total]
    split
    · generalize x.total = v at hx
      cases hx with
      | int m => exact .int _
      | divisionByZero => exact .divisionByZero
    · exact .int 0
  | .binary op l r k, h => by
    simp only [Rolled.integral, Bool.and_eq_true, Option.isSome_iff_exists] at h
    rcases h with ⟨⟨⟨f, hf⟩, hl⟩, hr⟩
    have hleft := l.total_whole hl
    have hright := r.total_whole hr
    rw [Rolled.total]
    split
    · generalize l.total = v at hleft
      generalize r.total = w at hright
      cases hleft with
      | divisionByZero => exact .divisionByZero
      | int a =>
        cases hright with
        | divisionByZero => exact .divisionByZero
        | int b =>
          -- of the operators only those of arithmetic on integers are left
          rw [Binary.eq_of_integral? hf]
          simpa only [value_ints] using Plain.whole_onInts f a b
    · exact .int 0

/-- A sum of trees of integers is an integer, unless something in them is divided by zero. -/
theorem totalOf_whole : (xs : List Rolled) → allIntegral xs = true → (sum : Int) →
    Whole (totalOf (.int sum) xs)
  | [], _, sum => .int sum
  | x :: xs, h, sum => by
    simp only [allIntegral, Bool.and_eq_true] at h
    have hx := x.total_whole h.1
    rw [totalOf]
    split
    · generalize x.total = v at hx
      cases hx with
      | divisionByZero => exact .divisionByZero
      | int n => exact totalOf_whole xs h.2 (sum + n)
    · exact totalOf_whole xs h.2 sum

end

/-! ## Brackets and parts -/

def Rolled.depth : Rolled → Nat
  | .group x false _ => x.depth + 1
  | .signed _ x _ => x.depth
  | .binary _ l r _ => max l.depth r.depth
  | _ => 0

/-- The parts of a tree that are written one by one, and the tree itself. -/
def Rolled.parts : Rolled → List Rolled
  | .group x false k => .group x false k :: x.parts
  | .signed n x k => .signed n x k :: x.parts
  | .binary op l r k => .binary op l r k :: (l.parts ++ r.parts)
  | x => [x]

def small : Except Arithmetic.Fault Number → Bool
  | .ok (.int n) => Number.bits n ≤ Number.maxBits
  | _ => true

/-- Whether no part of a tree is worth more than arithmetic allows. -/
def Rolled.within (r : Rolled) : Bool := r.parts.all fun x => small x.total

theorem Rolled.mem_parts (r : Rolled) : r ∈ r.parts := by
  unfold parts
  split <;> exact .head _

theorem Rolled.small_of_within {r : Rolled} (h : r.within = true) : small r.total = true :=
  List.all_eq_true.mp h r r.mem_parts

theorem within_group {x : Rolled} {k : Bool} (h : (Rolled.group x false k).within = true) :
    x.within = true := by
  simp only [Rolled.within, Rolled.parts, List.all_cons, Bool.and_eq_true] at h
  exact h.2

theorem within_signed {n : Bool} {x : Rolled} {k : Bool}
    (h : (Rolled.signed n x k).within = true) : x.within = true := by
  simp only [Rolled.within, Rolled.parts, List.all_cons, Bool.and_eq_true] at h
  exact h.2

theorem within_binary {op : Binary} {l r : Rolled} {k : Bool}
    (h : (Rolled.binary op l r k).within = true) : l.within = true ∧ r.within = true := by
  simp only [Rolled.within, Rolled.parts, List.all_cons, List.all_append, Bool.and_eq_true] at h
  exact h.2

theorem bits_of_small {n : Int} (h : small (.ok (.int n)) = true) :
    Number.bits n ≤ Number.maxBits := of_decide_eq_true h

/-- What arithmetic allows can be written and read. -/
theorem natAbs_lt_of_small {n : Int} (h : small (.ok (.int n)) = true) :
    n.natAbs < 10 ^ Arithmetic.maxDigits := by
  calc n.natAbs < 2 ^ Number.bits n := Decimal.lt_two_pow_bitLength _
    _ ≤ 2 ^ Number.maxBits := Nat.pow_le_pow_right (by decide) (bits_of_small h)
    _ ≤ 10 ^ Arithmetic.maxDigits := by decide +kernel

/-! ## Printed trees -/

/-- The terms of a rolled tree are written as a chain of numbers, and arithmetic reads the chain as an
expression that is worth what the tree is worth. What is no chain of several operands is a single
one. The operators of arithmetic have two more levels below them than those of dice notation. -/
structure Prints (r : Rolled) (ts : List Term) (c : Expression Nat) (x : Parsed) : Prop where
  text : arithmeticOf ts = textOf [' '] Text.ofNat c.pieces
  depth : c.depth = r.depth
  leaves : ∀ n ∈ c.leaves, n < 10 ^ Arithmetic.maxDigits
  reads : Reads (r.level + 2) c x
  operand : r.level = topLevel → ∃ o, c = .last o ∧ ReadsOperand o x
  value : x.expr.eval = r.total

theorem levelInArithmetic_eq (f : Infix) :
    levelInArithmetic f = (Binary.arithmetic f.operator).level + 2 := by
  cases f <;> rfl

theorem arithmeticOf_append (ts us : List Term) :
    arithmeticOf (ts ++ us) = arithmeticOf ts ++ arithmeticOf us := List.flatMap_append

theorem arithmeticOf_text (t : Text) (ts : List Term) :
    arithmeticOf (.text t :: ts) = t ++ arithmeticOf ts := rfl

/-- What is written as a number. -/
theorem prints_number {r : Rolled} {ts : List Term} {n : Int} (hdepth : r.depth = 0)
    (htext : arithmeticOf ts = Text.ofInt n) (hvalue : r.total = .ok (.int n))
    (hsmall : small r.total = true) :
    Prints r ts (.last (Plain.operandOf n)) (Plain.parsedOf n) := by
  rw [hvalue] at hsmall
  exact {
    text := by rw [htext, Expression.pieces, Plain.textOf_operandOf]
    depth := by rw [hdepth, Expression.depth, Plain.depth_operandOf]
    leaves := by
      intro m hm
      have hleaf : m ∈ (Plain.operandOf n).leaves := hm
      rw [Plain.leaves_operandOf, List.mem_singleton] at hleaf
      exact hleaf ▸ natAbs_lt_of_small hsmall
    reads := (Plain.readsOperand_parsedOf n).reads _
    operand := fun _ => ⟨_, rfl, Plain.readsOperand_parsedOf n⟩
    value := by rw [hvalue, Plain.eval_parsedOf (bits_of_small hsmall)] }

def worthTerms (r : Rolled) : Except Unwritten (List Term) :=
  (worth r.total).map fun t => [.text t]

theorem flatten_literal (v : Number) (k : Bool) :
    (Rolled.literal v k).flatten = worthTerms (.literal v k) := by
  simp only [Rolled.flatten, worthTerms]
  cases worth _ <;> rfl

theorem flatten_set (xs : List Rolled) (k : Bool) :
    (Rolled.set xs k).flatten = worthTerms (.set xs k) := by
  simp only [Rolled.flatten, worthTerms]
  cases worth _ <;> rfl

theorem flatten_operated (x : Rolled) (k : Bool) :
    (Rolled.group x true k).flatten = worthTerms (.group x true k) := by
  simp only [Rolled.flatten, worthTerms]
  cases worth _ <;> rfl

/-- What is written as its worth. -/
theorem prints_worth {r : Rolled} {ts : List Term} (hdepth : r.depth = 0)
    (hintegral : r.integral = true) (hwithin : r.within = true)
    (hflatten : worthTerms r = .ok ts) : ∃ c x, Prints r ts c x := by
  unfold worthTerms at hflatten
  have hwhole := r.total_whole hintegral
  cases hvalue : r.total with
  | error f =>
    -- a worth that is divided by zero cannot be written, so that there are no terms
    rw [hvalue] at hwhole hflatten
    cases hwhole
    cases hflatten
  | ok v =>
    rw [hvalue] at hwhole hflatten
    cases hwhole with
    | int n =>
      refine ⟨_, _, prints_number hdepth (n := n) ?_ hvalue (Rolled.small_of_within hwithin)⟩
      unfold worth at hflatten
      dsimp only at hflatten
      split at hflatten
      · cases hflatten
      · cases hflatten
        exact List.append_nil _

/-- A sign in front of an operand. -/
theorem prints_signed {x : Rolled} {ts : List Term} {c : Expression Nat} {p : Parsed} {n : Bool}
    (h : Prints x ts c p) (hlevel : x.level = topLevel) (hwhole : Whole x.total)
    (hsmall : small (Rolled.signed n x true).total = true) :
    ∃ c' p', Prints (.signed n x true) (.text [if n then '-' else '+'] :: ts) c' p' := by
  -- at the top level the chain is a single operand, which can take a sign
  rcases h.operand hlevel with ⟨o, rfl, ho⟩
  refine ⟨.last (.signed n o), ⟨.signed n p.expr, false⟩, ?_⟩
  exact {
    text := by
      rw [arithmeticOf_text, h.text]
      rfl
    depth := h.depth
    leaves := h.leaves
    reads := (ho.signed n).reads _
    operand := fun _ => ⟨_, rfl, ho.signed n⟩
    value := by
      simp only [Rolled.total, Arithmetic.Expr.eval, h.value, if_true] at hsmall ⊢
      generalize x.total = v at hwhole hsmall
      cases hwhole with
      | int m => exact Plain.checked_of_le (bits_of_small hsmall)
      | divisionByZero => rfl }

/-- Brackets around a chain. -/
theorem prints_group {x : Rolled} {ts : List Term} {c : Expression Nat} {p : Parsed}
    (h : Prints x ts c p) :
    ∃ c' p', Prints (.group x false true) (.text ['('] :: ts ++ [.text [')']]) c' p' := by
  refine ⟨.last (.group c), p, ?_⟩
  exact {
    text := by
      rw [List.cons_append, arithmeticOf_text, arithmeticOf_append, h.text]
      simp [Expression.pieces, Operand.pieces, Plain.Piece.text, arithmeticOf]
    depth := by simp only [Expression.depth, Operand.depth, h.depth, Rolled.depth]
    leaves := by
      intro n hn
      refine h.leaves n ?_
      simpa [Expression.leaves, Expression.pieces, Operand.pieces] using hn
    reads := h.reads.group.reads _
    operand := fun _ => ⟨_, rfl, h.reads.group⟩
    value := by rw [h.value, Rolled.total, if_pos rfl] }

/-- An operator between two chains. -/
theorem prints_binary {l r : Rolled} {ls rs : List Term} {c d : Expression Nat} {p q : Parsed}
    {f : Infix} (hl : Prints l ls c p) (hr : Prints r rs d q)
    (hleft : (Binary.arithmetic f.operator).level ≤ l.level)
    (hright : (Binary.arithmetic f.operator).level < r.level)
    (hwholel : Whole l.total) (hwholer : Whole r.total)
    (hsmall : small (Rolled.binary (.arithmetic f.operator) l r true).total = true) :
    ∃ c' p', Prints (.binary (.arithmetic f.operator) l r true)
      (ls ++ .text (' ' :: f.operator.sign ++ [' ']) :: rs) c' p' := by
  have hlevel := levelInArithmetic_eq f
  refine ⟨c.join f d, Arithmetic.combine (some f.operator) p q, ?_⟩
  exact {
    text := by
      rw [arithmeticOf_append, arithmeticOf_text, hl.text, hr.text]
      simp [Plain.Piece.text]
    depth := by simp only [Expression.depth_join, hl.depth, hr.depth, Rolled.depth]
    leaves := by
      intro n hn
      have hboth : n ∈ c.leaves ∨ n ∈ d.leaves := by simpa [Expression.leaves] using hn
      exact hboth.elim (hl.leaves n) (hr.leaves n)
    -- the levels that the reader left are those of the grammar, so the joined chain needs no brackets
    reads := by
      rw [Rolled.level, ← hlevel]
      exact hl.reads.join hr.reads (by omega) (by omega)
    -- no operator is as strong as an operand
    operand := fun htop => absurd htop (Nat.ne_of_lt (Binary.level_lt_top _))
    value := by
      simp only [Rolled.total, Arithmetic.combine, Arithmetic.Expr.eval, hl.value, hr.value,
        if_true] at hsmall ⊢
      generalize l.total = v at hwholel hsmall
      generalize r.total = w at hwholer hsmall
      cases hwholel with
      | divisionByZero => rfl
      | int a =>
        cases hwholer with
        | divisionByZero => rfl
        | int b =>
          simp only [value_ints, Plain.operate_ints] at hsmall ⊢
          -- the result is within the limit because it was small enough to be shown
          have hwhole := Plain.whole_onInts f a b
          generalize f.operator.onInts a b = z at hwhole hsmall
          cases hwhole with
          | int m => exact Plain.checked_of_le (bits_of_small hsmall)
          | divisionByZero => rfl }

/-- A rolled tree of integers is written as a chain that is worth the same, if it has the shape that it
was read in and stays within the limits. -/
theorem prints_of_shaped {r : Rolled} (h : r.Shaped) {ts : List Term}
    (hintegral : r.integral = true) (hwithin : r.within = true) (hflatten : r.flatten = .ok ts) :
    ∃ c x, Prints r ts c x := by
  -- the shape is what the reader leaves: its levels say which brackets are not missed
  induction h generalizing ts with
  | literal v k => exact prints_worth rfl hintegral hwithin (flatten_literal v k ▸ hflatten)
  | dice sides ds =>
    cases hflatten
    refine ⟨_, _, prints_number rfl ?_ rfl (Rolled.small_of_within hwithin)⟩
    exact List.append_nil _
  | set xs k => exact prints_worth rfl hintegral hwithin (flatten_set xs k ▸ hflatten)
  | operated x k => exact prints_worth rfl hintegral hwithin (flatten_operated x k ▸ hflatten)
  | @group x hx ih =>
    cases hts : x.flatten with
    | error e => simp [Rolled.flatten, hts] at hflatten
    | ok us =>
      simp only [Rolled.flatten, hts] at hflatten
      cases hflatten
      rcases ih hintegral (within_group hwithin) hts with ⟨c, p, hp⟩
      exact prints_group hp
  | @signed n x hx hlevel ih =>
    cases hts : x.flatten with
    | error e => simp [Rolled.flatten, hts] at hflatten
    | ok us =>
      simp only [Rolled.flatten, hts] at hflatten
      cases hflatten
      rcases ih hintegral (within_signed hwithin) hts with ⟨c, p, hp⟩
      exact prints_signed hp hlevel (x.total_whole hintegral) (Rolled.small_of_within hwithin)
  | @binary op l r hl hr hleft hright ihl ihr =>
    simp only [Rolled.integral, Bool.and_eq_true, Option.isSome_iff_exists] at hintegral
    rcases hintegral with ⟨⟨⟨f, hf⟩, hintl⟩, hintr⟩
    rcases within_binary hwithin with ⟨hwithinl, hwithinr⟩
    cases Binary.eq_of_integral? hf
    cases hls : l.flatten with
    | error e => simp [Rolled.flatten, hls] at hflatten
    | ok ls =>
      cases hrs : r.flatten with
      | error e => simp [Rolled.flatten, hls, hrs] at hflatten
      | ok rs =>
        simp only [Rolled.flatten, hls, hrs] at hflatten
        cases hflatten
        rcases ihl hintl hwithinl hls with ⟨c, p, hp⟩
        rcases ihr hintr hwithinr hrs with ⟨d, q, hq⟩
        exact prints_binary hp hq hleft hright (l.total_whole hintl) (r.total_whole hintr)
          (Rolled.small_of_within hwithin)

end Notation

end TabletopChat
