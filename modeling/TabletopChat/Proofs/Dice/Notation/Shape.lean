import TabletopChat.Dice.Notation.Roll

/-!
# Proofs/Dice/Notation/Shape — the trees that dice notation is read as

The operands of an operator bind at least as tightly as the operator itself, and a sign stands in front
of a single operand. Brackets are part of the tree, so a tree can be written down again without adding
any. Rolling the dice keeps this shape.

- `Tree.Shaped`, `Rolled.Shaped` : the shape of trees
- `parse_shaped`  : the shape of what is read
- `roll_shaped`   : the shape of what is rolled
- `Cache.Reached` : expressions that were read before
-/

namespace TabletopChat

namespace Notation

/-! ## Levels -/

def Binary.level : Binary → Nat
  | .arithmetic .add => 1
  | .arithmetic .sub => 1
  | .arithmetic _ => 2
  | _ => 0

/-- The level of what no operator stands in. -/
def topLevel : Nat := 3

theorem Binary.level_lt_top (op : Binary) : op.level < topLevel := by
  unfold level
  split <;> decide

def Tree.level : Tree → Nat
  | .binary op _ _ => op.level
  | _ => topLevel

def Rolled.level : Rolled → Nat
  | .binary op _ _ _ => op.level
  | _ => topLevel

/-! ## Shapes -/

/-- A tree that is written without any brackets but its own. What stands in a set does not matter. -/
inductive Tree.Shaped : Tree → Prop
  | literal (v : Arithmetic.Number) : Shaped (.literal v)
  | dice (count : Nat) (sides : Sides) (os : List Operation) : Shaped (.dice count sides os)
  | set (xs : List Tree) (os : List Operation) : Shaped (.set xs os)
  | group {x : Tree} (hx : Shaped x) (os : List Operation) : Shaped (.group x os)
  | signed (negative : Bool) {x : Tree} (hx : Shaped x) (hlevel : x.level = topLevel) :
    Shaped (.signed negative x)
  | binary {op : Binary} {l r : Tree} (hl : Shaped l) (hr : Shaped r)
    (hleft : op.level ≤ l.level) (hright : op.level < r.level) : Shaped (.binary op l r)

/-- A rolled tree of this shape. What is written part by part is kept; what is written as a number may
be dropped. -/
inductive Rolled.Shaped : Rolled → Prop
  | literal (v : Arithmetic.Number) (kept : Bool) : Shaped (.literal v kept)
  | dice (sides : Sides) (ds : List Die) : Shaped (.dice sides ds true)
  | set (xs : List Rolled) (kept : Bool) : Shaped (.set xs kept)
  | operated (x : Rolled) (kept : Bool) : Shaped (.group x true kept)
  | group {x : Rolled} (hx : Shaped x) : Shaped (.group x false true)
  | signed (negative : Bool) {x : Rolled} (hx : Shaped x) (hlevel : x.level = topLevel) :
    Shaped (.signed negative x true)
  | binary {op : Binary} {l r : Rolled} (hl : Shaped l) (hr : Shaped r)
    (hleft : op.level ≤ l.level) (hright : op.level < r.level) : Shaped (.binary op l r true)

/-! ## Reading -/

/-- Whether the operator that a text begins with, if there is one, is below a level. -/
def StopsBelow (k : Nat) (t : Text) : Prop := ∀ j op u, binary? t = some (j, op, u) → j < k

theorem level_of_binary? {t u : Text} {j : Nat} {op : Binary} (h : binary? t = some (j, op, u)) :
    op.level = j := by
  unfold binary? at h
  split at h <;> cases h <;> rfl

theorem stopsBelow_top (t : Text) : StopsBelow (topLevel + 1) t := by
  intro j op u h
  have htop := op.level_lt_top
  rw [level_of_binary? h] at htop
  exact Nat.lt_succ_of_lt htop

/-- What is read from level `k` on: no operator in it is below the level, and none of the level or
above follows. -/
structure ReadFrom (k : Nat) (x : Tree) (u : Text) : Prop where
  shaped : x.Shaped
  level : k ≤ x.level ∨ x.level = topLevel
  stops : StopsBelow k u

structure IsOperand (x : Tree) : Prop where
  shaped : x.Shaped
  level : x.level = topLevel

/-- What a rule gives. A left operand has to take the operators that bind more tightly than its own
before the rule goes on behind it. -/
def Rule.Gives : Rule → Text → Tree → Text → Prop
  | .climb k, _, x, u => ReadFrom k x u
  | .climbRest k left, t, x, u => left.Shaped → (k ≤ left.level ∨ left.level = topLevel) →
    StopsBelow (left.level + 1) t → ReadFrom k x u
  | .operand, _, x, _ => IsOperand x
  | .members _, _, x, _ => IsOperand x

/-- Dice are single operands. -/
theorem diceTerm_operand {count t u : Text} {x : Tree} (h : diceTerm count t = .ok (x, u)) :
    IsOperand x := by
  unfold diceTerm at h
  split at h
  · cases h
  · split at h
    · cases h
    · split at h
      · cases h
      · cases h
        exact ⟨.dice _ _ _, rfl⟩

/-- A number is an operand, and so are dice. -/
theorem plainTerm_operand {t u : Text} {x : Tree} (h : plainTerm t = .ok (x, u)) : IsOperand x := by
  unfold plainTerm at h
  dsimp only at h
  split at h
  · exact diceTerm_operand h
  · split at h
    · cases h
    · cases h
      exact ⟨.literal _, rfl⟩
  · cases h
  · cases h
    exact ⟨.literal _, rfl⟩
  · split at h
    · cases h
      exact ⟨.literal _, rfl⟩
    · cases h
      exact ⟨.literal _, rfl⟩

/-- What stands in brackets is an operand, with its operations. -/
theorem closeBracket_operand {make : List Operation → Tree} (hmake : ∀ os, IsOperand (make os))
    {t u : Text} {x : Tree} (h : closeBracket make t = .ok (x, u)) : IsOperand x := by
  unfold closeBracket at h
  split at h
  · cases h
    exact hmake _
  · cases h

theorem set_operand (xs : List Tree) (os : List Operation) : IsOperand (.set xs os) :=
  ⟨.set xs os, rfl⟩

section Rules

variable {self : Rule → Reader Tree}
  (hself : ∀ rule t x u, self rule t = .ok (x, u) → rule.Gives t x u)

include hself

/-- The members of a set, or the inside of a group, are expressions, so that the whole is an operand. -/
theorem members_gives {before : List Tree} {t u : Text} {x : Tree}
    (h : members self before t = .ok (x, u)) : IsOperand x := by
  unfold members at h
  split at h
  · cases h
  · rename_i m rest hm
    have hmember : m.Shaped := (hself (.climb 0) _ _ _ hm).shaped
    split at h
    · split at h
      · exact closeBracket_operand (set_operand _) h
      · exact hself (.members _) _ _ _ h
    · refine closeBracket_operand (fun os => ?_) h
      split
      · exact ⟨.group hmember os, rfl⟩
      · exact set_operand _ _
    · cases h

/-- Every term is an operand. -/
theorem term_gives {t u : Text} {x : Tree} (h : term self t = .ok (x, u)) : IsOperand x := by
  unfold term at h
  split at h
  · split at h
    · exact closeBracket_operand (set_operand _) h
    · exact hself (.members _) _ _ _ h
  · exact plainTerm_operand h

/-- A sign stands in front of a single operand. -/
theorem operand_gives {t u : Text} {x : Tree} (h : operand self t = .ok (x, u)) : IsOperand x := by
  unfold operand at h
  split at h
  · split at h
    · rename_i y rest hy
      have hoperand : IsOperand y := hself .operand _ _ _ hy
      cases h
      exact ⟨.signed false hoperand.shaped hoperand.level, rfl⟩
    · cases h
  · split at h
    · rename_i y rest hy
      have hoperand : IsOperand y := hself .operand _ _ _ hy
      cases h
      exact ⟨.signed true hoperand.shaped hoperand.level, rfl⟩
    · cases h
  · split at h
    · rename_i y rest hy
      cases h
      exact term_gives hself hy
    · cases h

/-- An operator takes what was read before it as its left operand, and is the last one that was read
when the rule goes on. -/
theorem climbRest_gives {k : Nat} {left : Tree} {t u : Text} {x : Tree}
    (h : climbRest self k left t = .ok (x, u)) : (Rule.climbRest k left).Gives t x u := by
  intro hleft hlevel hstops
  unfold climbRest at h
  split at h
  · rename_i hnone
    cases h
    refine ⟨hleft, hlevel, ?_⟩
    intro j op v hsome
    rw [hnone] at hsome
    cases hsome
  · rename_i j op rest hop
    split at h
    · rename_i hk
      split at h
      · cases h
      · rename_i right rest' hright
        have hread : ReadFrom (j + 1) right rest' := hself (.climb (j + 1)) _ _ _ hright
        have hj : op.level = j := level_of_binary? hop
        -- the left operand has taken all operators that bind more tightly than its own
        have hjleft : op.level ≤ left.level := by
          have hlt := hstops j op rest hop
          omega
        have hjright : op.level < right.level := by
          have htop := op.level_lt_top
          rcases hread.level with hle | heq <;> omega
        have hbinary : (Tree.binary op left right).Shaped :=
          .binary hleft hread.shaped hjleft hjright
        -- the right operand has taken all that bind more tightly than this one
        have hrest : StopsBelow ((Tree.binary op left right).level + 1) rest' := by
          rw [Tree.level, hj]
          exact hread.stops
        exact hself (.climbRest k (.binary op left right)) _ _ _ h hbinary
          (.inl (by rw [Tree.level, hj]; exact hk)) hrest
    · rename_i hk
      cases h
      refine ⟨hleft, hlevel, ?_⟩
      intro j' op' v hsome
      rw [hop] at hsome
      cases hsome
      omega

/-- Each rule gives what it is meant to if all rules do that it refers to. -/
theorem apply_gives (rule : Rule) {t u : Text} {x : Tree} (h : apply self rule t = .ok (x, u)) :
    rule.Gives t x u := by
  cases rule with
  | climb k =>
    simp only [apply] at h
    split at h
    · cases h
    · rename_i y rest hy
      have hoperand : IsOperand y := hself .operand _ _ _ hy
      refine hself (.climbRest k y) _ _ _ h hoperand.shaped (.inr hoperand.level) ?_
      rw [hoperand.level]
      exact stopsBelow_top _
  | climbRest k left => exact climbRest_gives hself h
  | operand => exact operand_gives hself h
  | members before => exact members_gives hself h

end Rules

/-- With every amount of fuel, the rules give what they are meant to. -/
theorem read_gives (fuel : Nat) (rule : Rule) (t : Text) (x : Tree) (u : Text)
    (h : read fuel rule t = .ok (x, u)) : rule.Gives t x u := by
  induction fuel generalizing rule t x u with
  | zero => cases h
  | succ fuel ih => exact apply_gives ih rule h

/-- What is read has the shape that it is written in. -/
theorem parse_shaped {t : Text} {x : Tree} (h : parse t = .ok x) : x.Shaped := by
  unfold parse at h
  split at h
  · cases h
  · rename_i y hy
    cases h
    exact (read_gives _ (.climb 0) _ _ _ hy).shaped
  · cases h

/-! ## Rolling -/

open Act

def KeepsOperated (P : Rolled → Prop) : Prop := ∀ x o, P x → Yields P (operate x o)

theorem operateAll_yields {P : Rolled → Prop} (hP : KeepsOperated P) {x : Rolled} (hx : P x)
    (os : List Operation) : Yields P (operateAll x os) := by
  induction os generalizing x with
  | nil => exact .pure hx
  | cons o os ih => exact (hP x o hx).bind fun y hy => ih hy

def Rolled.IsDice (x : Rolled) : Prop := ∃ sides ds, x = .dice sides ds true

def Rolled.IsSet (x : Rolled) : Prop := ∃ xs, x = .set xs true

def Rolled.IsOperated (x : Rolled) : Prop := ∃ y, x = .group y true true

/-- Dice are dice after an operation. -/
theorem isDice_operated : KeepsOperated Rolled.IsDice := by
  rintro x o ⟨sides, ds, rfl⟩
  unfold operate
  split
  · exact (Yields.trivial _).bind fun places _ => .pure ⟨sides, _, rfl⟩
  · exact (Yields.trivial _).bind fun places _ => .pure ⟨sides, _, rfl⟩
  · exact (Yields.trivial _).bind fun ds' _ => .pure ⟨sides, ds', rfl⟩

/-- A set is a set after an operation. -/
theorem isSet_operated : KeepsOperated Rolled.IsSet := by
  rintro x o ⟨xs, rfl⟩
  unfold operate
  split
  · exact (Yields.trivial _).bind fun places _ => .pure ⟨_, rfl⟩
  · exact (Yields.trivial _).bind fun places _ => .pure ⟨_, rfl⟩
  · exact .pure ⟨xs, rfl⟩

/-- What had operations has them after one more. -/
theorem isOperated_operated : KeepsOperated Rolled.IsOperated := by
  rintro x o ⟨y, rfl⟩
  unfold operate
  split
  · exact (Yields.trivial _).bind fun places _ => .pure ⟨_, rfl⟩
  · exact (Yields.trivial _).bind fun places _ => .pure ⟨_, rfl⟩
  · exact .pure ⟨y, rfl⟩

/-- A rolled tree that has the shape and the level of the tree that it was rolled from. -/
def RolledFrom (x : Tree) (r : Rolled) : Prop := r.Shaped ∧ r.level = x.level

/-- A group without operations keeps its inside, and one with operations is a number. -/
theorem group_yields {x : Tree} (hx : Yields (RolledFrom x) x.roll) (os : List Operation) :
    Yields (RolledFrom (.group x os)) (Tree.group x os).roll := by
  rw [Tree.roll]
  refine hx.bind fun r hr => ?_
  cases os with
  | nil => exact .pure ⟨.group hr.1, rfl⟩
  | cons o os =>
    -- with an operation the brackets are written as their worth, whatever is in them
    have hoperated : Rolled.IsOperated (.group r true true) := ⟨r, rfl⟩
    intro s y s' hrun
    rcases operateAll_yields isOperated_operated hoperated (o :: os) s y s' hrun with ⟨z, rfl⟩
    exact ⟨.operated z true, rfl⟩

/-- The dice are rolled in place. -/
theorem roll_shaped {x : Tree} (h : x.Shaped) : Yields (RolledFrom x) x.roll := by
  induction h with
  | literal v => exact .pure ⟨.literal v true, rfl⟩
  | dice count sides os =>
    rw [Tree.roll]
    refine (Yields.trivial _).bind fun ds _ => ?_
    intro s y s' hrun
    rcases operateAll_yields isDice_operated ⟨sides, ds, rfl⟩ os s y s' hrun with ⟨sides', ds', rfl⟩
    exact ⟨.dice sides' ds', rfl⟩
  | set xs os =>
    rw [Tree.roll]
    refine (Yields.trivial _).bind fun rs _ => ?_
    intro s y s' hrun
    rcases operateAll_yields isSet_operated ⟨rs, rfl⟩ os s y s' hrun with ⟨rs', rfl⟩
    exact ⟨.set rs' true, rfl⟩
  | group hx os ih => exact group_yields ih os
  | @signed negative x hx hlevel ih =>
    rw [Tree.roll]
    refine ih.bind fun r hr => .pure ⟨.signed negative hr.1 (hr.2.trans hlevel), rfl⟩
  | @binary op l r hl hr hleft hright ihl ihr =>
    rw [Tree.roll]
    refine ihl.bind fun a ha => ihr.bind fun b hb => .pure ⟨?_, rfl⟩
    exact .binary ha.1 hb.1 (ha.2 ▸ hleft) (hb.2 ▸ hright)

/-! ## Texts -/

/-- A cache that reading one text after the other leads to. -/
inductive Cache.Reached : Cache → Prop
  | empty : Reached []
  | read {t : Text} {c c' : Cache} {x : Tree} (hc : Reached c)
    (hread : parseCached t c = .ok (x, c')) : Reached c'

/-- What is taken from the cache or read anew has the shape that it is written in. -/
theorem parseCached_shaped {t : Text} {c c' : Cache} {x : Tree} (hc : ∀ e ∈ c, e.2.Shaped)
    (h : parseCached t c = .ok (x, c')) : x.Shaped ∧ ∀ e ∈ c', e.2.Shaped := by
  unfold parseCached at h
  split at h
  · rename_i e he
    cases h
    exact ⟨hc e (List.mem_of_find?_eq_some he), hc⟩
  · cases hparse : parse t with
    | error e =>
      rw [hparse] at h
      cases h
    | ok y =>
      rw [hparse] at h
      cases h
      have hy := parse_shaped hparse
      refine ⟨hy, ?_⟩
      intro e he
      cases he with
      | head => exact hy
      | tail _ he => exact hc e he

/-- All expressions in a cache were read from some text. -/
theorem Cache.Reached.shaped {c : Cache} (h : Reached c) : ∀ e ∈ c, e.2.Shaped := by
  induction h with
  | empty => exact fun e he => absurd he List.not_mem_nil
  | read hc hread ih => exact (parseCached_shaped ih hread).2

def KeepsReached (s s' : Table) : Prop := s.cache.Reached → s'.cache.Reached

theorem readText_keeps (t : Text) : Always KeepsReached (readText t) := by
  intro s hc
  cases hread : parseCached t s.cache with
  | error e => cases e <;> simpa only [Act.run, readText, hread] using hc
  | ok result => simpa only [Act.run, readText, hread] using hc.read hread

theorem rollTree_keeps (x : Tree) : Always KeepsReached (rollTree x) := fun _ hc => hc

theorem termsOf_keeps (r : Rolled) : Always KeepsReached (termsOf r) := by
  intro s hc
  unfold termsOf
  split <;> exact hc

/-- Rolling a text leads from reached caches to reached caches, even when it stops early. -/
theorem roll_keeps (t : Text) : Always KeepsReached (Notation.roll t) := by
  have htrans {s t u : Table} (h : KeepsReached s t) (h' : KeepsReached t u) : KeepsReached s u :=
    fun hc => h' (h hc)
  refine (readText_keeps t).bind htrans fun x => (rollTree_keeps x).bind htrans fun r => ?_
  exact (termsOf_keeps r).bind htrans fun ts => fun _ hc => hc

/-- A text that is read from a reached cache has the shape of a parsed one. -/
theorem readText_shaped {t : Text} {s s' : Table} {x : Tree} (hc : s.cache.Reached)
    (h : (readText t).run s = (.ok x, s')) : x.Shaped := by
  cases hread : parseCached t s.cache with
  | error e => cases e <;> simp [Act.run, readText, hread] at h
  | ok result =>
    rw [Act.run, readText, hread] at h
    cases h
    exact (parseCached_shaped hc.shaped hread).1

/-- Rolling the dice of a tree keeps its shape. -/
theorem rollTree_shaped {x : Tree} (hx : x.Shaped) : Yields Rolled.Shaped (rollTree x) := by
  intro s r s' h
  rcases hroll : x.roll ⟨s.dice, 0⟩ with ⟨result, tray⟩
  rw [Act.run, rollTree, Act.zoom, hroll] at h
  cases h
  exact (roll_shaped hx _ _ _ hroll).1

theorem termsOf_flatten (r : Rolled) :
    Yields (fun ts => r.flatten = .ok ts) (termsOf r) := by
  intro s ts s' h
  unfold termsOf at h
  split at h <;> cases h
  assumption

/-- What is rolled for a text has the shape of what was read, and its terms are those of the rolled
tree. -/
theorem rolled_shaped {t : Text} {s s' : Table} {o : Outcome} (hc : s.cache.Reached)
    (h : (Notation.roll t).run s = (.ok o, s')) :
    o.rolled.Shaped ∧ o.rolled.flatten = .ok o.terms := by
  rcases exists_of_run_bind h with ⟨x, s₁, hx, h⟩
  rcases exists_of_run_bind h with ⟨r, s₂, hr, h⟩
  rcases exists_of_run_bind h with ⟨ts, s₃, hts, h⟩
  cases h
  exact ⟨rollTree_shaped (readText_shaped hc hx) _ _ _ hr, termsOf_flatten r _ _ _ hts⟩

end Notation

end TabletopChat
