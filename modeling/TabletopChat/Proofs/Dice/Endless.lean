import TabletopChat.Dice.Shorthand
import TabletopChat.Proofs.Arithmetic.Wording

/-!
# Proofs/Dice/Endless — dice that do not run out

With dice that never run out, an action needs a bounded number of them. So it has a result as soon as
the limit is high enough, and which one does not depend on the limit.

- `Act.Succeeds`     : a result for every limit that is high enough
- `Dice.Endless`     : dice that answer every draw, and end every loop of rolling again
- `roll_succeeds`    : rolling an expression
-/

namespace TabletopChat

/-! ## Results if the limit is high enough -/

namespace Act

variable {ε δ σ τ α β : Type} {limit : Nat → σ → σ} {P : σ → Prop} {Q : α → Prop} {R : β → Prop}

/-- From every state with `P` an action has a result with `Q` and leads to a state with `P`, whatever
the limit is, if it is high enough. -/
def Succeeds (limit : Nat → σ → σ) (P : σ → Prop) (Q : α → Prop) (a : Act ε σ α) : Prop :=
  ∀ s, P s → ∃ x s' bound, Q x ∧ P s' ∧ ∀ l, bound ≤ l → a.run (limit l s) = (.ok x, limit l s')

theorem Succeeds.pure {x : α} (h : Q x) : Succeeds limit P Q (Pure.pure x : Act ε σ α) := by
  intro s hs
  exact ⟨x, s, 0, h, hs, fun _ _ => rfl⟩

/-- Actions one after the other have a result, as long as enough dice may be drawn for both. -/
theorem Succeeds.bind {a : Act ε σ α} {f : α → Act ε σ β} (ha : Succeeds limit P Q a)
    (hf : ∀ x, Q x → Succeeds limit P R (f x)) : Succeeds limit P R (a >>= f) := by
  intro s hs
  rcases ha s hs with ⟨x, t, m, hx, ht, hrun⟩
  rcases hf x hx t ht with ⟨y, u, n, hy, hu, hnext⟩
  refine ⟨y, u, max m n, hy, hu, ?_⟩
  intro l hl
  rw [run_bind_of_ok (hrun l (by omega))]
  exact hnext l (by omega)

theorem Succeeds.imp {Q' : α → Prop} {a : Act ε σ α} (h : Succeeds limit P Q a)
    (hQ : ∀ x, Q x → Q' x) : Succeeds limit P Q' a := by
  intro s hs
  rcases h s hs with ⟨x, t, m, hx, ht, hrun⟩
  exact ⟨x, t, m, hQ x hx, ht, hrun⟩

/-- A result comes from a run, namely from one with a limit that is high enough. -/
theorem Succeeds.traced {a : Act ε σ α} (h : Succeeds limit P Q a) :
    Succeeds limit P (fun x => Q x ∧ ∃ s s', a.run s = (.ok x, s')) a := by
  intro s hs
  rcases h s hs with ⟨x, t, m, hx, ht, hrun⟩
  exact ⟨x, t, m, ⟨hx, limit m s, limit m t, hrun m (Nat.le_refl m)⟩, ht, hrun⟩

theorem Succeeds.modify {f : σ → σ} (hlimit : ∀ l s, f (limit l s) = limit l (f s))
    (hP : ∀ s, P s → P (f s)) :
    Succeeds limit P (fun _ => True) (Act.modify f : Act ε σ Unit) := by
  intro s hs
  refine ⟨(), f s, 0, trivial, hP s hs, ?_⟩
  intro l _
  rw [run_modify, hlimit]

/-- An action that looks at the state, but not at the limit in it. -/
theorem Succeeds.get_bind {f : σ → Act ε σ β} (hlimit : ∀ l s, f (limit l s) = f s)
    (hf : ∀ s, P s → Succeeds limit P R (f s)) : Succeeds limit P R (Act.get >>= f) := by
  intro s hs
  rcases hf s hs s hs with ⟨x, t, m, hx, ht, hrun⟩
  refine ⟨x, t, m, hx, ht, ?_⟩
  intro l hl
  rw [run_bind_of_ok (run_get _), hlimit]
  exact hrun l hl

/-- An action on a part of a state, where the limit is a limit of the part. -/
theorem Succeeds.zoom {view : σ → τ} {update : τ → σ → σ} {limit' : Nat → τ → τ} {P' : τ → Prop}
    {a : Act ε τ α} (ha : Succeeds limit' P' Q a)
    (hview : ∀ l s, view (limit l s) = limit' l (view s))
    (hupdate : ∀ l t s, update (limit' l t) (limit l s) = limit l (update t s))
    (hP' : ∀ s, P s → P' (view s)) (hP : ∀ t s, P s → P' t → P (update t s)) :
    Succeeds limit P Q (Act.zoom view update a) := by
  intro s hs
  rcases ha (view s) (hP' s hs) with ⟨x, t, m, hx, ht, hrun⟩
  refine ⟨x, update t s, m, hx, hP t s hs ht, ?_⟩
  intro l hl
  have hstep : a (view (limit l s)) = (.ok x, limit' l t) := by
    rw [hview]
    exact hrun l hl
  simp only [Act.run, Act.zoom, hstep, hupdate]

/-- An action that has a result has it as an attempt, too. -/
theorem Succeeds.attempt {a : Act ε σ α} (h : Succeeds limit P Q a) :
    Succeeds limit P (fun r => ∃ x, r = .ok x ∧ Q x) (Act.attempt a : Act δ σ (Except ε α)) := by
  intro s hs
  rcases h s hs with ⟨x, t, m, hx, ht, hrun⟩
  refine ⟨.ok x, t, m, ⟨x, rfl, hx⟩, ht, ?_⟩
  intro l hl
  have hstep : a (limit l s) = (.ok x, limit l t) := hrun l hl
  simp only [Act.run, Act.attempt, hstep]

end Act

open Act

/-! ## Dice -/

namespace Dice

def withLimit (l : Nat) (d : Dice) : Dice := { d with limit := l }

/-- Dice that never run out: they answer every draw within its bounds, and however often a result
up to a threshold is rolled again, one above it comes. -/
structure Endless (d : Dice) : Prop where
  answers : ∀ i a b, a ≤ b → ∃ v, d.answer i a b = some v ∧ a ≤ v ∧ v ≤ b
  passes : ∀ i (again faces : Nat), again < faces →
    ∃ n v, d.answer (i + n) 1 faces = some v ∧ (again : Int) < v

theorem Endless.next {d : Dice} (h : d.Endless) : ({ d with drawn := d.drawn + 1 } : Dice).Endless :=
  ⟨h.answers, h.passes⟩

theorem run_draw {d : Dice} {a b v : Int} (h : d.answer d.drawn a b = some v) {l : Nat}
    (hl : d.drawn < l) :
    (draw a b).run (d.withLimit l) = (.ok v, withLimit l { d with drawn := d.drawn + 1 }) := by
  simp [draw, Act.run, withLimit, h, hl]

theorem draw_succeeds {a b : Int} (h : a ≤ b) :
    Succeeds withLimit Endless (fun v => a ≤ v ∧ v ≤ b) (draw a b) := by
  intro d hd
  rcases hd.answers d.drawn a b h with ⟨v, hv, hbounds⟩
  exact ⟨v, _, d.drawn + 1, hbounds, hd.next, fun l hl => run_draw hv hl⟩

end Dice

namespace Shorthand

open Text Dice

/-! ## Reading groups of dice -/

theorem digits?_nulFree {t : Text} (h : NulFree t) : Gives (fun x => NulFree x.2) (digits? t) := by
  unfold digits?
  split
  · exact gives_none
  · exact gives_some (h.of_subset (List.dropWhile_subset _))

theorem word?_nulFree {w t : Text} (h : NulFree t) : Gives NulFree (word? w t) :=
  gives_ite (gives_some (h.of_subset (List.drop_subset _ _))) gives_none

theorem threshold?_nulFree {w t : Text} (h : NulFree t) :
    Gives (fun x => NulFree x.2) (threshold? w t) := by
  refine (word?_nulFree h).bind fun rest hrest => ?_
  split
  · exact digits?_nulFree (nulFree_cons.1 hrest).2
  · exact (word?_nulFree hrest).bind fun _ h => digits?_nulFree h

theorem optional_nulFree {r : Option (Text × Text)} {t : Text} (h : NulFree t)
    (hr : Gives (fun x => NulFree x.2) r) : NulFree (optional r t).2 := by
  cases r with
  | none => exact h
  | some x => exact hr x rfl

theorem pattern?_nulFree {t : Text} (h : NulFree t) : Gives (fun x => NulFree x.2) (pattern? t) := by
  refine (word?_nulFree (h.of_subset (List.dropWhile_subset _))).bind fun rest hrest => ?_
  refine (digits?_nulFree hrest).map fun x hx => ?_
  have honce := optional_nulFree hx (threshold?_nulFree (w := ['r', 'o']) hx)
  exact optional_nulFree honce (threshold?_nulFree honce)

/-- What stands before and after the first group of dice. -/
theorem firstPattern?_nulFree {t : Text} (h : NulFree t) :
    Gives (fun x => NulFree x.1 ∧ NulFree x.2.2) (firstPattern? t) := by
  induction t with
  | nil =>
      exact gives_none
  | cons c cs ih =>
      unfold firstPattern?
      split
      · rename_i hread
        exact gives_some ⟨nulFree_nil, pattern?_nulFree h _ hread⟩
      · rw [nulFree_cons] at h
        exact (ih h.2).map fun _ hx => ⟨nulFree_cons.2 ⟨h.1, hx.1⟩, hx.2⟩

/-! ## Rolling groups of dice -/

/-- A loop of rolling again ends when a result above the threshold comes. -/
theorem run_rollAbove {faces again n : Nat} {w : Int} (hfaces : 1 ≤ faces) (hw : (again : Int) < w)
    {d : Dice} (hd : d.Endless) (v : Int) (hpass : d.answer (d.drawn + n) 1 faces = some w) :
    ∃ (x : Int) (d' : Dice), d'.Endless ∧ ∀ fuel l, n + 2 ≤ fuel → d.drawn + n < l →
      (rollAbove faces again fuel v).run (d.withLimit l) = (.ok x, d'.withLimit l) := by
  -- by induction on how many results come in front of the one that passes
  induction n generalizing d v with
  | zero =>
      by_cases hv : v ≤ again
      · refine ⟨w, _, hd.next, ?_⟩
        intro fuel l hfuel hl
        obtain ⟨fuel, rfl⟩ : ∃ m, fuel = m + 2 := ⟨fuel - 2, by omega⟩
        rw [rollAbove, if_pos hv, run_bind_of_ok (run_draw hpass (by omega)), rollAbove,
          if_neg (by omega), run_pure]
      · refine ⟨v, d, hd, ?_⟩
        intro fuel l hfuel _
        obtain ⟨fuel, rfl⟩ : ∃ m, fuel = m + 1 := ⟨fuel - 1, by omega⟩
        rw [rollAbove, if_neg hv, run_pure]
  | succ n ih =>
      by_cases hv : v ≤ again
      · rcases hd.answers d.drawn 1 faces (by omega) with ⟨u, hu, _⟩
        have hlater : d.answer (d.drawn + 1 + n) 1 faces = some w := by
          rw [← hpass]
          congr 1
          omega
        rcases ih hd.next u hlater with ⟨x, d', hd', hrun⟩
        refine ⟨x, d', hd', ?_⟩
        intro fuel l hfuel hl
        obtain ⟨fuel, rfl⟩ : ∃ m, fuel = m + 1 := ⟨fuel - 1, by omega⟩
        rw [rollAbove, if_pos hv, run_bind_of_ok (run_draw hu (by omega))]
        exact hrun fuel l (by omega) (by dsimp only; omega)
      · refine ⟨v, d, hd, ?_⟩
        intro fuel l hfuel _
        obtain ⟨fuel, rfl⟩ : ∃ m, fuel = m + 1 := ⟨fuel - 1, by omega⟩
        rw [rollAbove, if_neg hv, run_pure]

theorem again_lt_of_plan {p : Pattern} {plan : Plan} (h : p.plan = .ok plan) :
    plan.again < plan.faces := by
  unfold Pattern.plan at h
  grind

/-- A die with a face that is not rolled again comes to an end. -/
theorem rollDie_succeeds {p : Plan} (h : p.again < p.faces) :
    Succeeds withLimit Endless (fun _ => True) p.rollDie := by
  have hfaces : (1 : Int) ≤ p.faces := by omega
  refine (draw_succeeds hfaces).bind fun v _ => ?_
  split
  · exact (draw_succeeds hfaces).imp fun _ _ => trivial
  · intro d hd
    rcases hd.passes d.drawn p.again p.faces h with ⟨n, w, hpass, hw⟩
    rcases run_rollAbove (by omega) hw hd v hpass with ⟨x, d', hd', hrun⟩
    refine ⟨x, d', d.drawn + n + 1, trivial, hd', ?_⟩
    intro l hl
    rw [run_bind_of_ok (run_get _)]
    exact hrun _ l (by simp only [withLimit]; omega) (by omega)

/-- Dice that are rolled again on some of their faces only come to a result. -/
theorem rollDice_succeeds {p : Plan} (h : p.again < p.faces) (n : Nat) :
    Succeeds withLimit Endless (fun _ => True) (p.rollDice n) := by
  induction n with
  | zero =>
      exact .pure trivial
  | succ n ih =>
      exact (rollDie_succeeds h).bind fun _ _ => ih.bind fun _ _ => .pure trivial

/-- A text without null characters has a result when its groups are replaced. -/
theorem finish_succeeds {expression residue : Text} {groups : List DieGroup} (h : NulFree residue) :
    Succeeds withLimit Endless (fun r => NulFree r.text) (finish expression residue groups) := by
  rw [finish_unlimited]
  rcases Arithmetic.outcome_nulFree h with ⟨v, hv⟩ | ⟨why, hwhy, hfree⟩
  · rw [hv]
    exact .pure v.nulFree_display
  · rw [hwhy]
    exact .pure hfree

theorem nulFree_invalidDice : NulFree invalidDice := nulFree_of_ofList rfl (by decide +kernel)

/-- Totals take the place of groups, and what is left is evaluated. -/
theorem rollGroups_succeeds (expression : Text) (fuel : Nat) (groups : List DieGroup) {t : Text}
    (h : NulFree t) :
    Succeeds withLimit Endless (fun r => NulFree r.text) (rollGroups expression fuel groups t) := by
  induction fuel generalizing groups t with
  | zero =>
      exact finish_succeeds h
  | succ fuel ih =>
      unfold rollGroups
      split
      · exact finish_succeeds h
      · rename_i before p rest hfirst
        rcases firstPattern?_nulFree h _ hfirst with ⟨hbefore, hrest⟩
        split
        · exact .pure nulFree_invalidDice
        · rename_i plan hplan
          refine (rollDice_succeeds (again_lt_of_plan hplan) _).bind fun results _ => ih _ ?_
          simp [hbefore, hrest]

/-- Rolling an expression leads to a text without null characters, if it holds none itself. -/
theorem roll_succeeds {expression : Text} (h : NulFree expression) :
    Succeeds withLimit Endless (fun r => NulFree r.text) (roll expression) := by
  unfold roll
  simp only
  split
  · exact .pure nulFree_invalidDice
  · exact rollGroups_succeeds _ _ _ h.strip

end Shorthand

end TabletopChat
