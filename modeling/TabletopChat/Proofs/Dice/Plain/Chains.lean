import TabletopChat.Proofs.Dice.Plain.Value

/-!
# Proofs/Dice/Plain/Chains — reading chains of numbers part by part

A chain of numbers with an operator between two parts is read like the parts, if the left part binds at
least as tightly as the operator and the right part more tightly. So what a chain is read as is known
from how it is put together.

- `Reads`, `ReadsOperand` : chains and operands that are read as a whole
- `Reads.join`            : two chains with an operator between them
- `operandOf`             : integers as operands
-/

namespace TabletopChat

namespace Plain

open Arithmetic (Parsed Token checked Number)

/-! ## Tokens -/

abbrev numbers : Climber Nat Token Parsed := tokenReader id

def tokensOf (ps : List (Piece Nat)) : List Token := ps.map (Piece.token id)

@[simp] theorem tokensOf_nil : tokensOf [] = [] := rfl

@[simp] theorem tokensOf_cons (p : Piece Nat) (ps : List (Piece Nat)) :
    tokensOf (p :: ps) = p.token id :: tokensOf ps := rfl

@[simp] theorem tokensOf_append (ps qs : List (Piece Nat)) :
    tokensOf (ps ++ qs) = tokensOf ps ++ tokensOf qs := List.map_append

/-! ## What follows -/

/-- What follows ends the expression or goes on with an operator that binds no more tightly than a
level. -/
def StopsAt (level : Nat) (u : List Token) : Prop :=
  numbers.Ends u ∨ ∃ (f : Infix) (v : List Token), u = .mark f.mark :: v ∧ levelInArithmetic f ≤ level

theorem StopsAt.follows {level : Nat} {u : List Token} (h : StopsAt level u) : numbers.Follows u := by
  rcases h with hends | ⟨f, v, rfl, -⟩
  · exact .inl hends
  · exact .inr ⟨f, v, rfl⟩

theorem StopsAt.mono {level level' : Nat} {u : List Token} (h : StopsAt level u)
    (hle : level ≤ level') : StopsAt level' u := by
  rcases h with hends | ⟨f, v, rfl, hf⟩
  · exact .inl hends
  · exact .inr ⟨f, v, rfl, Nat.le_trans hf hle⟩

/-- Nothing more is read where only looser operators follow. -/
theorem StopsAt.rest {level k : Nat} {u : List Token} (h : StopsAt level u) (hk : level < k)
    (x : Parsed) : numbers.Rest k x u x u := by
  rcases h with hends | ⟨f, v, rfl, hf⟩
  · exact lawful_end hends
  · exact lawful_looser (Nat.lt_of_le_of_lt hf hk)

/-! ## Chains -/

def ReadsOperand (o : Operand Nat) (x : Parsed) : Prop :=
  ∀ u, numbers.Follows u → numbers.Item (tokensOf o.pieces ++ u) x u

/-- A chain whose operators are of a level or above is read as a whole, and then what stands behind it,
where no operator that follows takes a part of the chain away. -/
def Reads (level : Nat) (c : Expression Nat) (x : Parsed) : Prop :=
  ∀ k u y v, k ≤ level → StopsAt level u → numbers.Rest k x u y v →
    numbers.Climb k (tokensOf c.pieces ++ u) y v

theorem ReadsOperand.reads {o : Operand Nat} {x : Parsed} (h : ReadsOperand o x) (level : Nat) :
    Reads level (.last o) x := by
  intro k u y v _ hu hrest
  exact lawful_climbing (h u hu.follows) hrest

/-- What is read where nothing follows. -/
theorem Reads.climb {level : Nat} {c : Expression Nat} {x : Parsed} (h : Reads level c x)
    {u : List Token} (hu : numbers.Ends u) : numbers.Climb 0 (tokensOf c.pieces ++ u) x u :=
  h 0 u x u (Nat.zero_le _) (.inl hu) (lawful_end hu)

theorem ReadsOperand.signed {o : Operand Nat} {x : Parsed} (h : ReadsOperand o x) (n : Bool) :
    ReadsOperand (.signed n o) ⟨.signed n x.expr, false⟩ := by
  intro u hu
  exact sign_item (h u hu)

theorem Reads.group {level : Nat} {c : Expression Nat} {x : Parsed} (h : Reads level c x) :
    ReadsOperand (.group c) x := by
  intro u hu
  have hclimb := h.climb (u := .mark (.closing .round) :: u) (.inr ⟨u, rfl⟩)
  simpa [Operand.pieces, Piece.token] using brackets_item hclimb hu

def Expression.join : Expression Nat → Infix → Expression Nat → Expression Nat
  | .last o, f, d => .more o f d
  | .more o g c, f, d => .more o g (c.join f d)

@[simp] theorem Expression.pieces_join (c : Expression Nat) (f : Infix) (d : Expression Nat) :
    (c.join f d).pieces = c.pieces ++ .operator f :: d.pieces := by
  cases c with
  | last o => rfl
  | more o g c =>
    have ih := c.pieces_join f d
    simp [join, pieces, ih]

@[simp] theorem Expression.depth_join (c : Expression Nat) (f : Infix) (d : Expression Nat) :
    (c.join f d).depth = max c.depth d.depth := by
  cases c with
  | last o => rfl
  | more o g c =>
    have ih := c.depth_join f d
    simp only [join, depth, ih, Nat.max_assoc]

/-- The left chain is read first, up to the operator; the right chain keeps its operators, which bind
more tightly; and the reading goes on behind both. -/
theorem Reads.join {a b : Nat} {c d : Expression Nat} {x y : Parsed} {f : Infix}
    (hleft : Reads a c x) (hright : Reads b d y) (ha : levelInArithmetic f ≤ a)
    (hb : levelInArithmetic f < b) :
    Reads (levelInArithmetic f) (c.join f d) (Arithmetic.combine (some f.operator) x y) := by
  intro k u z v hk hu hrest
  -- the operator ends the left chain, and what follows ends the right one
  have hoperator : StopsAt a (.mark f.mark :: (tokensOf d.pieces ++ u)) := .inr ⟨f, _, rfl, ha⟩
  have hbehind : numbers.Climb (levelInArithmetic f + 1) (tokensOf d.pieces ++ u) y u :=
    hright _ u y u hb (hu.mono (Nat.le_of_lt hb)) (hu.rest (Nat.lt_succ_self _) y)
  have hgoes : numbers.Rest k x (.mark f.mark :: (tokensOf d.pieces ++ u)) z v :=
    lawful_tighter hk hbehind hrest
  have hall := hleft k _ z v (Nat.le_trans hk ha) hoperator hgoes
  simpa [Piece.token] using hall

/-! ## Integers -/

/-- An integer as an operand: a number, with a sign if it is negative. -/
def operandOf : Int → Operand Nat
  | .ofNat n => .leaf n
  | .negSucc n => .signed true (.leaf (n + 1))

def parsedOf : Int → Parsed
  | .ofNat n => ⟨.number (.int n), false⟩
  | .negSucc n => ⟨.signed true (.number (.int ((n + 1 : Nat) : Int))), false⟩

theorem textOf_operandOf (n : Int) :
    textOf [' '] Text.ofNat (operandOf n).pieces = Text.ofInt n := by
  cases n <;> simp [operandOf, Operand.pieces, Piece.text, Text.ofInt]

theorem depth_operandOf (n : Int) : (operandOf n).depth = 0 := by
  cases n <;> rfl

theorem leaves_operandOf (n : Int) : (operandOf n).leaves = [n.natAbs] := by
  cases n <;> rfl

theorem readsOperand_parsedOf (n : Int) : ReadsOperand (operandOf n) (parsedOf n) := by
  intro u hu
  cases n with
  | ofNat n => exact number_item n hu
  | negSucc n => exact sign_item (number_item (n + 1) hu)

theorem checked_of_le {n : Int} (h : Number.bits n ≤ Number.maxBits) :
    checked (.int n) = .ok (.int n) := by
  rw [checked, if_neg (Nat.not_lt_of_le h)]

/-- An integer within the limits is worth itself. -/
theorem eval_parsedOf {n : Int} (h : Number.bits n ≤ Number.maxBits) :
    (parsedOf n).expr.eval = .ok (.int n) := by
  cases n with
  | ofNat n => exact checked_of_le h
  | negSucc n =>
    -- the number behind the sign is as large as the whole
    have hinner : checked (.int ((n + 1 : Nat) : Int)) = .ok (.int ((n + 1 : Nat) : Int)) :=
      checked_of_le h
    simp only [parsedOf, Arithmetic.Expr.eval, hinner]
    exact checked_of_le h

end Plain

end TabletopChat
