import TabletopChat.Proofs.Dice.Notation.Printed

/-!
# Proofs/Dice/Notation/Worth — the terms of a roll are worth what the roll is worth

A rolled expression of integers is written as terms, which arithmetic reads again. Whatever the dice
show, the result is the total of the rolled tree, as long as arithmetic reads brackets that deep and
nothing is larger than it allows.

- `terms_worth_total`   : evaluating the terms of a roll
- `brackets_worthless`  : brackets that are nested too deep
-/

namespace TabletopChat

namespace Notation

open Act

/-- Rolling a text and evaluating its terms gives the total of the rolled tree, which is an integer or a
division by zero. The tree holds no comparison, no division and no decimal fraction; its brackets are
nested no deeper than arithmetic reads, sets and brackets with operations aside; and no part of it is
larger than arithmetic allows. -/
theorem terms_worth_total {t : Text} {s s' : Table} {o : Outcome} (hcache : s.cache.Reached)
    (hroll : (Notation.roll t).run s = (.ok o, s')) (hintegral : o.rolled.integral = true)
    (hdepth : o.rolled.depth ≤ 200) (hwithin : o.rolled.within = true) :
    Plain.Whole o.rolled.total ∧
      Arithmetic.evaluate (arithmeticOf o.terms) = o.rolled.total := by
  refine ⟨o.rolled.total_whole hintegral, ?_⟩
  rcases rolled_shaped hcache hroll with ⟨hshaped, hflatten⟩
  rcases prints_of_shaped hshaped hintegral hwithin hflatten with ⟨c, x, h⟩
  have hnumeric : Plain.Numeric Text.ofNat id c.leaves := fun n hn => ⟨rfl, h.leaves n hn⟩
  have hgap : Plain.isGapText [' '] := .inr rfl
  have hclimb : Plain.numbers.Climb 0 (Plain.tokensOf c.pieces) x [] := by
    simpa using h.reads.climb (u := []) (.inl rfl)
  have hparse : Arithmetic.parse? (Plain.textOf [' '] Text.ofNat c.pieces) = some x.expr :=
    Plain.parse?_of_climb hnumeric (h.depth ▸ hdepth) hgap hclimb
  calc Arithmetic.evaluate (arithmeticOf o.terms)
      = Arithmetic.evaluate (Plain.textOf [' '] Text.ofNat c.pieces) := by rw [h.text]
    _ = x.expr.eval := Plain.evaluate_textOf hnumeric hgap hparse
    _ = o.rolled.total := h.value

def freshTable (d : Dice) : Table := ⟨d, []⟩

/-- Dice that are rolled again or dropped, a set with a negative total, stacked signs and brackets with an
operation behind them. -/
theorem terms_worth_total_mixed :
    let t := "3d6ro1p<2 - (1-3,)*--2 // (7%-(2d4+1)p4)".toList
    let s := freshTable (.listed #[3, 5, 1, 6, 2, 2])
    ∃ o s', s.cache.Reached ∧ (Notation.roll t).run s = (.ok o, s') ∧ o.rolled.integral = true ∧
      o.rolled.depth ≤ 200 ∧ o.rolled.within = true ∧ Plain.Whole o.rolled.total ∧
        Arithmetic.evaluate (arithmeticOf o.terms) = o.rolled.total := by
  intro t s
  rcases exists_of_run (a := Notation.roll t) (s := s) (by decide +kernel) with ⟨o, s', hrun⟩
  have hintegral : o.rolled.integral = true :=
    eq_of_run (f := fun o => o.rolled.integral) hrun (by decide +kernel)
  have hdepth : o.rolled.depth ≤ 200 := by
    have h : o.rolled.depth = 1 := eq_of_run (f := fun o => o.rolled.depth) hrun (by decide +kernel)
    omega
  have hwithin : o.rolled.within = true :=
    eq_of_run (f := fun o => o.rolled.within) hrun (by decide +kernel)
  exact ⟨o, s', .empty, hrun, hintegral, hdepth, hwithin,
    terms_worth_total .empty hrun hintegral hdepth hwithin⟩

def integer? : Except Arithmetic.Fault Arithmetic.Number → Option Int
  | .ok (.int n) => some n
  | _ => none

/-- In brackets that are nested too deep, one is worth one, but the terms have no value. -/
theorem brackets_worthless :
    let t := List.replicate 201 '(' ++ "1".toList ++ List.replicate 201 ')'
    let s := freshTable (.fixed 1)
    ∃ o s', s.cache.Reached ∧ (Notation.roll t).run s = (.ok o, s') ∧ o.rolled.integral = true ∧
      o.rolled.within = true ∧ integer? o.rolled.total = some 1 ∧
        integer? (Arithmetic.evaluate (arithmeticOf o.terms)) = none := by
  intro t s
  rcases exists_of_run (a := Notation.roll t) (s := s) (by decide +kernel) with ⟨o, s', hrun⟩
  have hintegral : o.rolled.integral = true :=
    eq_of_run (f := fun o => o.rolled.integral) hrun (by decide +kernel)
  have hwithin : o.rolled.within = true :=
    eq_of_run (f := fun o => o.rolled.within) hrun (by decide +kernel)
  have htotal : integer? o.rolled.total = some 1 :=
    eq_of_run (f := fun o => integer? o.rolled.total) hrun (by decide +kernel)
  have hvalue : integer? (Arithmetic.evaluate (arithmeticOf o.terms)) = none :=
    eq_of_run (x := o) (y := none)
      (f := fun o => integer? (Arithmetic.evaluate (arithmeticOf o.terms))) hrun (by decide +kernel)
  exact ⟨o, s', .empty, hrun, hintegral, hwithin, htotal, hvalue⟩

end Notation

end TabletopChat
