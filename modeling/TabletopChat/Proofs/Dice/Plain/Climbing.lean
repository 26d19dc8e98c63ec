import TabletopChat.Proofs.Dice.Plain.Expression

/-!
# Proofs/Dice/Plain/Climbing — reading chains of operands by precedence climbing

Dice notation and arithmetic are both read by precedence climbing: an operand is read, and then the
operators behind it for as long as they bind tightly enough. Whatever the inputs and the results are,
such a reader takes a whole chain of operands, in the order in which it is written.

- `Climber`        : readers of operands and of the operators behind them, as relations
- `Climber.Lawful` : what the readers do, one rule after the other
- `Climber.Lawful.reads` : every expression is read as a whole
-/

namespace TabletopChat

namespace Plain

variable {α β ρ : Type}

/-! ## Chains -/

/-- What stands behind the first operand of a chain. -/
abbrev Tail (α : Type) := List (Infix × Operand α)

def Expression.head : Expression α → Operand α
  | .last x => x
  | .more x _ _ => x

def Expression.tail : Expression α → Tail α
  | .last _ => []
  | .more _ op e => (op, e.head) :: e.tail

def Tail.pieces (l : Tail α) : List (Piece α) := l.flatMap fun p => .operator p.1 :: p.2.pieces

/-- An expression is its first operand and a tail of further ones. -/
theorem Expression.pieces_eq (e : Expression α) : e.pieces = e.head.pieces ++ Tail.pieces e.tail := by
  cases e with
  | last x => simp [Expression.pieces, Expression.head, Expression.tail, Tail.pieces]
  | more x op e =>
      have ih := e.pieces_eq
      simp [Expression.pieces, Expression.head, Expression.tail, Tail.pieces, ih]

/-! ## Climbers -/

/-- Readers by precedence climbing. `Item t x u`, `Climb k t x u` and `Rest k x t y u` say that an
operand, an expression, and the operators behind the expression `x` are read from the beginning of
`t` and leave `u`; only operators of level `k` and above are read. `Spells x ps` says that the result
`x` is written with the pieces `ps`, and `Leaf` which leaves can be read. -/
structure Climber (α β ρ : Type) where
  spell : Piece α → List β
  Leaf : α → Prop
  level : Infix → Nat
  binary : Infix → ρ → ρ → ρ
  Spells : ρ → List (Piece α) → Prop
  Item : List β → ρ → List β → Prop
  Climb : Nat → List β → ρ → List β → Prop
  Rest : Nat → ρ → List β → ρ → List β → Prop

namespace Climber

variable (C : Climber α β ρ)

def input (ps : List (Piece α)) : List β := ps.flatMap C.spell

@[simp] theorem input_nil : C.input [] = [] := rfl

@[simp] theorem input_cons (p : Piece α) (ps : List (Piece α)) :
    C.input (p :: ps) = C.spell p ++ C.input ps := rfl

@[simp] theorem input_append (ps qs : List (Piece α)) :
    C.input (ps ++ qs) = C.input ps ++ C.input qs := List.flatMap_append

/-- Where an expression ends: with the input, or before a closing bracket. -/
def Ends (t : List β) : Prop := t = [] ∨ ∃ u, t = C.spell .closing ++ u

def Follows (t : List β) : Prop := C.Ends t ∨ ∃ op u, t = C.spell (.operator op) ++ u

/-- Behind an operand of a chain an operator or the end follows. -/
theorem follows_tail {t : List β} (ht : C.Ends t) (l : Tail α) :
    C.Follows (C.input (Tail.pieces l) ++ t) := by
  match l with
  | [] => exact .inl ht
  | (op, x) :: l =>
    refine .inr ⟨op, C.input (x.pieces ++ Tail.pieces l) ++ t, ?_⟩
    simp [Tail.pieces]

structure Lawful : Prop where
  leaf : ∀ {a t}, C.Leaf a → C.Follows t →
    ∃ x, C.Item (C.spell (.leaf a) ++ t) x t ∧ C.Spells x [.leaf a]
  signed : ∀ {n t x u ps}, C.Item t x u → C.Spells x ps →
    ∃ y, C.Item (C.spell (.sign n) ++ t) y u ∧ C.Spells y (.sign n :: ps)
  group : ∀ {t x u ps}, C.Climb 0 t x (C.spell .closing ++ u) → C.Follows u → C.Spells x ps →
    ∃ y, C.Item (C.spell .opening ++ t) y u ∧ C.Spells y (.opening :: (ps ++ [.closing]))
  climb : ∀ {k t x u y v}, C.Item t x u → C.Rest k x u y v → C.Climb k t y v
  ends : ∀ {k x t}, C.Ends t → C.Rest k x t x t
  low : ∀ {k x op t}, C.level op < k →
    C.Rest k x (C.spell (.operator op) ++ t) x (C.spell (.operator op) ++ t)
  high : ∀ {k x op t y u z v}, k ≤ C.level op → C.Climb (C.level op + 1) t y u →
    C.Rest k (C.binary op x y) u z v → C.Rest k x (C.spell (.operator op) ++ t) z v
  binary : ∀ {op x ps y qs}, C.Spells x ps → C.Spells y qs →
    C.Spells (C.binary op x y) (ps ++ .operator op :: qs)

/-! ## Reading -/

def Below (k : Nat) (l : Tail α) : Prop := ∀ op x r, l = (op, x) :: r → C.level op < k

theorem below_nil (k : Nat) : C.Below k [] := by
  intro op x r h
  cases h

theorem Below.eq_nil {C : Climber α β ρ} {l : Tail α} (h : C.Below 0 l) : l = [] := by
  match l with
  | [] => rfl
  | (op, x) :: r => exact absurd (h op x r rfl) (Nat.not_lt_zero _)

def Reads (x : Operand α) : Prop :=
  ∀ t, C.Follows t → ∃ y, C.Item (C.input x.pieces ++ t) y t ∧ C.Spells y x.pieces

variable {C}

/-- Behind an expression that is written with `ps`, the operators of level `k` and above are read,
with their operands. What is left is shorter, so that the reading can be continued at another
level. -/
theorem Lawful.rest (h : C.Lawful) {l : Tail α} (hl : ∀ p ∈ l, C.Reads p.2) {k : Nat} {x : ρ}
    {ps : List (Piece α)} (hx : C.Spells x ps) {t : List β} (ht : C.Ends t) :
    ∃ y qs r, C.Rest k x (C.input (Tail.pieces l) ++ t) y (C.input (Tail.pieces r) ++ t) ∧
      C.Spells y qs ∧ qs ++ Tail.pieces r = ps ++ Tail.pieces l ∧ r <:+ l ∧ C.Below k r := by
  induction hn : l.length using Nat.strongRecOn generalizing l k x ps with
  | _ n ih =>
    match l with
    | [] => exact ⟨x, ps, [], h.ends ht, hx, rfl, List.suffix_refl _, C.below_nil k⟩
    | (op, z) :: l =>
      have hinput : C.input (Tail.pieces ((op, z) :: l)) ++ t =
          C.spell (.operator op) ++ (C.input z.pieces ++ (C.input (Tail.pieces l) ++ t)) := by
        simp [Tail.pieces]
      by_cases hlevel : C.level op < k
      · refine ⟨x, ps, (op, z) :: l, ?_, hx, rfl, List.suffix_refl _, ?_⟩
        · rw [hinput]
          exact h.low hlevel
        · intro op' z' r he
          cases he
          exact hlevel
      · have hk : k ≤ C.level op := Nat.le_of_not_lt hlevel
        have hshort : l.length < n := by simp [← hn]
        have hl' : ∀ p ∈ l, C.Reads p.2 := fun p hp => hl p (.tail _ hp)
        -- the right operand takes the operators that bind more tightly than `op` ...
        rcases hl (op, z) (.head _) _ (C.follows_tail ht l) with ⟨y, hitem, hy⟩
        rcases ih l.length hshort hl' (k := C.level op + 1) hy rfl with
          ⟨y', qs, r, hrest, hy', hqs, hr, -⟩
        have hclimb := h.climb hitem hrest
        -- ... and the reading goes on behind it
        have hr' : ∀ p ∈ r, C.Reads p.2 := fun p hp => hl' p (hr.subset hp)
        have hshorter : r.length < n := Nat.lt_of_le_of_lt hr.length_le hshort
        rcases ih r.length hshorter hr' (k := k)
            (h.binary hx hy' : C.Spells (C.binary op x y') _) rfl with
          ⟨w, ws, s, hrest', hw, hws, hs, hbelow⟩
        refine ⟨w, ws, s, ?_, hw, ?_, ?_, hbelow⟩
        · rw [hinput]
          exact h.high hk hclimb hrest'
        · calc ws ++ Tail.pieces s = ps ++ .operator op :: (qs ++ Tail.pieces r) := by
                rw [hws]; simp
            _ = ps ++ .operator op :: (z.pieces ++ Tail.pieces l) := by rw [hqs]
            _ = ps ++ Tail.pieces ((op, z) :: l) := by simp [Tail.pieces]
        · exact (hs.trans hr).trans (List.suffix_cons _ _)

/-- An expression is read as a whole if its operands are. -/
theorem Lawful.chain (h : C.Lawful) {e : Expression α} (hhead : C.Reads e.head)
    (htail : ∀ p ∈ e.tail, C.Reads p.2) {t : List β} (ht : C.Ends t) :
    ∃ x, C.Climb 0 (C.input e.pieces ++ t) x t ∧ C.Spells x e.pieces := by
  rcases hhead _ (C.follows_tail ht e.tail) with ⟨y, hitem, hy⟩
  rcases h.rest htail (k := 0) hy ht with ⟨z, qs, r, hrest, hz, hqs, -, hbelow⟩
  -- nothing binds less tightly than level zero, so that nothing is left
  have hr : r = [] := hbelow.eq_nil
  subst hr
  have hall : qs = e.pieces := by
    rw [e.pieces_eq, ← hqs]
    simp [Tail.pieces]
  have hinput : C.input e.pieces ++ t =
      C.input e.head.pieces ++ (C.input (Tail.pieces e.tail) ++ t) := by
    rw [e.pieces_eq]
    simp
  refine ⟨z, ?_, hall ▸ hz⟩
  rw [hinput]
  exact h.climb hitem hrest

mutual

/-- An operand is read as a whole: what stands in brackets is a smaller chain. -/
theorem Lawful.reads_operand (h : C.Lawful) :
    (x : Operand α) → (∀ a ∈ x.leaves, C.Leaf a) → C.Reads x
  | .leaf a, hleaf => by
    intro t ht
    have ha : C.Leaf a := hleaf a (by simp [Operand.leaves, Operand.pieces])
    simpa [Operand.pieces] using h.leaf ha ht
  | .signed n x, hleaf => by
    intro t ht
    rcases h.reads_operand x hleaf t ht with ⟨y, hitem, hspells⟩
    simpa [Operand.pieces] using h.signed (n := n) hitem hspells
  | .group e, hleaf => by
    intro t ht
    have hinner : ∀ a ∈ e.leaves, C.Leaf a := by
      intro a ha
      exact hleaf a (by simpa [Operand.leaves, Expression.leaves, Operand.pieces] using ha)
    have hchain := h.reads_chain e hinner
    have hclosed : C.Ends (C.spell .closing ++ t) := .inr ⟨t, rfl⟩
    rcases h.chain hchain.1 hchain.2 hclosed with ⟨y, hclimb, hspells⟩
    simpa [Operand.pieces] using h.group hclimb ht hspells

/-- All operands of a chain are read as a whole. -/
theorem Lawful.reads_chain (h : C.Lawful) :
    (e : Expression α) → (∀ a ∈ e.leaves, C.Leaf a) →
      C.Reads e.head ∧ ∀ p ∈ e.tail, C.Reads p.2
  | .last x, hleaf => by
    refine ⟨h.reads_operand x hleaf, ?_⟩
    simp [Expression.tail]
  | .more x op e, hleaf => by
    have hleaves : ∀ a, a ∈ x.leaves ∨ a ∈ e.leaves → C.Leaf a := by
      intro a ha
      exact hleaf a (by simpa [Operand.leaves, Expression.leaves, Expression.pieces] using ha)
    have hx := h.reads_operand x fun a ha => hleaves a (.inl ha)
    have he := h.reads_chain e fun a ha => hleaves a (.inr ha)
    refine ⟨hx, ?_⟩
    intro p hp
    rcases List.mem_cons.mp hp with rfl | hp
    · exact he.1
    · exact he.2 p hp

end

/-- An expression is read as a whole, and the result is written as the expression is. -/
theorem Lawful.reads (h : C.Lawful) {e : Expression α} (hleaf : ∀ a ∈ e.leaves, C.Leaf a)
    {t : List β} (ht : C.Ends t) :
    ∃ x, C.Climb 0 (C.input e.pieces ++ t) x t ∧ C.Spells x e.pieces :=
  h.chain (h.reads_chain e hleaf).1 (h.reads_chain e hleaf).2 ht

end Climber

end Plain

end TabletopChat
