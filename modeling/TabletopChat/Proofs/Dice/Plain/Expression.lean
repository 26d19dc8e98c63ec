import TabletopChat.Arithmetic.Operation
import TabletopChat.Dice.Group
import TabletopChat.Proofs.Text.Numeral

/-!
# Proofs/Dice/Plain/Expression — the language that both ways to roll have in common

Integers and dice with signs, brackets and the operators `+ - * // %`, written without blanks. How
tightly the operators bind is left open here: an expression is a chain of operands, so that every text
of the language is written by exactly one expression.

- `Infix`, `Term`           : operators, and what stands between them
- `Expression`, `Operand`   : chains of operands
- `Piece`                   : what an expression is written with, from left to right
- `Expression.write`        : the text of an expression
- `Expression.Fits`         : the bounds of the numbers in an expression
-/

namespace TabletopChat

namespace Plain

/-! ## Terms and operators -/

inductive Infix
  | add | sub | mul | floorDiv | mod
  deriving DecidableEq, Repr

def Infix.operator : Infix → Arithmetic.Operator
  | .add => .add
  | .sub => .sub
  | .mul => .mul
  | .floorDiv => .floorDiv
  | .mod => .mod

/-- A number, or dice with their number and their faces. -/
inductive Term
  | number (n : Nat)
  | dice (count : Option Nat) (faces : Nat)
  deriving DecidableEq, Repr

def Term.rolls : Term → Nat
  | .number _ => 0
  | .dice count _ => count.getD 1

def Term.text : Term → Text
  | .number n => Text.ofNat n
  | .dice count faces => (count.map Text.ofNat).getD [] ++ 'd' :: Text.ofNat faces

/-- The bounds of a term: numbers have at most a hundred digits, and there is no die without faces and
no group without dice. -/
def Term.Fits : Term → Prop
  | .number n => n < 10 ^ 100
  | .dice count faces =>
    (1 ≤ count.getD 1 ∧ count.getD 1 < 10 ^ 100) ∧ 1 ≤ faces ∧ faces < 10 ^ 100

instance : (t : Term) → Decidable t.Fits
  | .number n => inferInstanceAs (Decidable (n < 10 ^ 100))
  | .dice count faces => inferInstanceAs
    (Decidable ((1 ≤ count.getD 1 ∧ count.getD 1 < 10 ^ 100) ∧ 1 ≤ faces ∧ faces < 10 ^ 100))

/-! ## Expressions -/

mutual

/-- A chain of operands over leaves of a type. -/
inductive Expression (α : Type)
  | last (x : Operand α)
  | more (x : Operand α) (op : Infix) (e : Expression α)

/-- An operand: a leaf or an expression in brackets, with signs in front of it. -/
inductive Operand (α : Type)
  | leaf (a : α)
  | signed (negative : Bool) (x : Operand α)
  | group (e : Expression α)

end

inductive Piece (α : Type)
  | leaf (a : α)
  | sign (negative : Bool)
  | opening
  | closing
  | operator (op : Infix)

variable {α β : Type}

mutual

def Expression.pieces : Expression α → List (Piece α)
  | .last x => x.pieces
  | .more x op e => x.pieces ++ .operator op :: e.pieces

def Operand.pieces : Operand α → List (Piece α)
  | .leaf a => [.leaf a]
  | .signed n x => .sign n :: x.pieces
  | .group e => .opening :: (e.pieces ++ [.closing])

end

mutual

def Expression.depth : Expression α → Nat
  | .last x => x.depth
  | .more x _ e => max x.depth e.depth

def Operand.depth : Operand α → Nat
  | .leaf _ => 0
  | .signed _ x => x.depth
  | .group e => e.depth + 1

end

/-! ## Leaves -/

def Piece.leaf? : Piece α → Option α
  | .leaf a => some a
  | _ => none

def leavesOf (ps : List (Piece α)) : List α := ps.filterMap Piece.leaf?

@[simp] theorem leavesOf_nil : leavesOf ([] : List (Piece α)) = [] := rfl

@[simp] theorem leavesOf_append (ps qs : List (Piece α)) :
    leavesOf (ps ++ qs) = leavesOf ps ++ leavesOf qs := List.filterMap_append

@[simp] theorem leavesOf_leaf (a : α) (ps : List (Piece α)) :
    leavesOf (.leaf a :: ps) = a :: leavesOf ps := rfl

@[simp] theorem leavesOf_sign (n : Bool) (ps : List (Piece α)) :
    leavesOf (.sign n :: ps) = leavesOf ps := rfl

@[simp] theorem leavesOf_opening (ps : List (Piece α)) :
    leavesOf (.opening :: ps) = leavesOf ps := rfl

@[simp] theorem leavesOf_closing (ps : List (Piece α)) :
    leavesOf (.closing :: ps) = leavesOf ps := rfl

@[simp] theorem leavesOf_operator (op : Infix) (ps : List (Piece α)) :
    leavesOf (.operator op :: ps) = leavesOf ps := rfl

def Expression.leaves (e : Expression α) : List α := leavesOf e.pieces

def Operand.leaves (x : Operand α) : List α := leavesOf x.pieces

def rollsOf (ts : List Term) : Nat := (ts.map Term.rolls).sum

@[simp] theorem rollsOf_append (ts us : List Term) : rollsOf (ts ++ us) = rollsOf ts + rollsOf us := by
  simp [rollsOf]

/-- The bounds of an expression: those of its terms, and no more than a thousand dice. -/
structure Expression.Fits (e : Expression Term) : Prop where
  terms : ∀ t ∈ e.leaves, t.Fits
  rolls : rollsOf e.leaves ≤ 1000

instance (e : Expression Term) : Decidable e.Fits :=
  decidable_of_iff ((∀ t ∈ e.leaves, t.Fits) ∧ rollsOf e.leaves ≤ 1000)
    ⟨fun h => ⟨h.1, h.2⟩, fun h => ⟨h.terms, h.rolls⟩⟩

/-! ## Texts -/

def Piece.text (gap : Text) (leafText : α → Text) : Piece α → Text
  | .leaf a => leafText a
  | .sign n => [if n then '-' else '+']
  | .opening => ['(']
  | .closing => [')']
  | .operator op => gap ++ op.operator.sign ++ gap

def textOf (gap : Text) (leafText : α → Text) (ps : List (Piece α)) : Text :=
  ps.flatMap (Piece.text gap leafText)

@[simp] theorem textOf_nil (gap : Text) (leafText : α → Text) : textOf gap leafText [] = [] := rfl

@[simp] theorem textOf_cons (gap : Text) (leafText : α → Text) (p : Piece α) (ps : List (Piece α)) :
    textOf gap leafText (p :: ps) = p.text gap leafText ++ textOf gap leafText ps := rfl

@[simp] theorem textOf_append (gap : Text) (leafText : α → Text) (ps qs : List (Piece α)) :
    textOf gap leafText (ps ++ qs) = textOf gap leafText ps ++ textOf gap leafText qs :=
  List.flatMap_append

/-- The text of an expression, without blanks. -/
def Expression.write (e : Expression Term) : Text := textOf [] Term.text e.pieces

-- `-2*(d6+1)//3` as a chain of three operands
example :
    (Expression.more (.signed true (.leaf (.number 2))) .mul
      (.more (.group (.more (.leaf (.dice none 6)) .add (.last (.leaf (.number 1))))) .floorDiv
        (.last (.leaf (.number 3))))).write = "-2*(d6+1)//3".toList := by
  decide +kernel

/-! ## The ends of a text -/

def Piece.isOuter : Piece α → Bool
  | .operator _ => false
  | _ => true

mutual

theorem Operand.exists_first : (x : Operand α) →
    ∃ p ps, x.pieces = p :: ps ∧ p.isOuter = true
  | .leaf a => ⟨.leaf a, [], rfl, rfl⟩
  | .signed n x => ⟨.sign n, x.pieces, rfl, rfl⟩
  | .group e => ⟨.opening, e.pieces ++ [.closing], rfl, rfl⟩

theorem Expression.exists_first : (e : Expression α) →
    ∃ p ps, e.pieces = p :: ps ∧ p.isOuter = true
  | .last x => x.exists_first
  | .more x op e => by
    rcases x.exists_first with ⟨p, ps, hps, hp⟩
    exact ⟨p, ps ++ .operator op :: e.pieces, by simp [Expression.pieces, hps], hp⟩

end

mutual

/-- An expression ends in a piece that is no sign. -/
theorem Operand.exists_last : (x : Operand α) →
    ∃ ps p, x.pieces = ps ++ [p] ∧ p.isOuter = true
  | .leaf a => ⟨[], .leaf a, rfl, rfl⟩
  | .signed n x => by
    rcases x.exists_last with ⟨ps, p, hps, hp⟩
    exact ⟨.sign n :: ps, p, by simp [Operand.pieces, hps], hp⟩
  | .group e => ⟨.opening :: e.pieces, .closing, rfl, rfl⟩

theorem Expression.exists_last : (e : Expression α) →
    ∃ ps p, e.pieces = ps ++ [p] ∧ p.isOuter = true
  | .last x => x.exists_last
  | .more x op e => by
    rcases e.exists_last with ⟨ps, p, hps, hp⟩
    exact ⟨x.pieces ++ .operator op :: ps, p, by simp [Expression.pieces, hps], hp⟩

end

/-- A text that is not empty and has no blank in it. -/
structure Solid (t : Text) : Prop where
  ne_nil : t ≠ []
  not_blank : ∀ c ∈ t, Text.isBlank c = false

theorem Solid.append {t u : Text} (ht : Solid t) (hu : Solid u) : Solid (t ++ u) where
  ne_nil := by simp [ht.ne_nil]
  not_blank c hc := (List.mem_append.mp hc).elim (ht.not_blank c) (hu.not_blank c)

theorem Solid.reverse {t : Text} (h : Solid t) : Solid t.reverse where
  ne_nil := by simp [h.ne_nil]
  not_blank c hc := h.not_blank c (List.mem_reverse.mp hc)

/-- A solid text does not begin with a blank. -/
theorem Solid.notBefore {t : Text} (h : Solid t) (u : Text) :
    Text.NotBefore Text.isBlank (t ++ u) := by
  match t, h with
  | [], h => exact absurd rfl h.ne_nil
  | c :: cs, h =>
    intro d hd
    cases hd
    exact h.not_blank c (.head _)

theorem solid_ofNat (n : Nat) : Solid (Text.ofNat n) where
  ne_nil := Text.ofNat_ne_nil n
  not_blank c hc := by
    have hdigit := Text.isDigit_of_mem_ofNat hc
    simp only [Char.isDigit, Bool.and_eq_true, decide_eq_true_eq, UInt32.le_iff_toNat_le] at hdigit
    have hlow : 48 ≤ c.toNat := hdigit.1
    have hhigh : c.toNat ≤ 57 := hdigit.2
    simp only [Text.isBlank, Bool.or_eq_false_iff, Bool.and_eq_false_iff, decide_eq_false_iff_not,
      beq_eq_false_iff_ne]
    omega

theorem solid_piece {p : Piece α} (hp : p.isOuter = true) {gap : Text} {leafText : α → Text}
    (hleaf : ∀ a, p.leaf? = some a → Solid (leafText a)) : Solid (p.text gap leafText) := by
  cases p with
  | leaf a => exact hleaf a rfl
  | sign n => cases n <;> exact ⟨by simp [Piece.text], by simp [Piece.text]; decide⟩
  | opening => exact ⟨by simp [Piece.text], by simp [Piece.text]; decide⟩
  | closing => exact ⟨by simp [Piece.text], by simp [Piece.text]; decide⟩
  | operator op => cases hp

theorem mem_leavesOf {p : Piece α} {ps : List (Piece α)} (hp : p ∈ ps) {a : α}
    (ha : p.leaf? = some a) : a ∈ leavesOf ps := List.mem_filterMap.mpr ⟨p, hp, ha⟩

/-- Nothing is trimmed from the text of an expression, whatever stands around its operators. -/
theorem strip_textOf (gap : Text) {leafText : α → Text} {e : Expression α}
    (h : ∀ a ∈ e.leaves, Solid (leafText a)) :
    Text.strip (textOf gap leafText e.pieces) = textOf gap leafText e.pieces := by
  have hfirst : Text.NotBefore Text.isBlank (textOf gap leafText e.pieces) := by
    rcases e.exists_first with ⟨p, ps, hps, hp⟩
    rw [hps, textOf_cons]
    refine (solid_piece hp fun a ha => h a ?_).notBefore _
    exact mem_leavesOf (by simp [hps]) ha
  have hlast : Text.NotBefore Text.isBlank (textOf gap leafText e.pieces).reverse := by
    rcases e.exists_last with ⟨ps, p, hps, hp⟩
    rw [hps, textOf_append, List.reverse_append, textOf_cons, textOf_nil, List.append_nil]
    refine (solid_piece hp fun a ha => h a ?_).reverse.notBefore _
    exact mem_leavesOf (by simp [hps]) ha
  exact Text.stripBy_eq_self hfirst hlast

end Plain

end TabletopChat
