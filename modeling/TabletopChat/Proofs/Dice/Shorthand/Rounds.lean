import TabletopChat.Proofs.Arithmetic.Wording
import TabletopChat.Proofs.Dice.Shorthand.Letters
import TabletopChat.Proofs.Dice.Plain.Rolling

/-!
# Proofs/Dice/Shorthand/Rounds — the rules of rolling in place

Rolling an expression goes in rounds: the first group of dice is found, its dice are rolled one after the
other, its total takes its place, and the text is searched again. Each round takes a letter, so that the
rounds end. Within a round each die shows a face; a first result up to one threshold is rolled again
once, and any other up to a second threshold until it is above it.

- `Plan.Rolls`           : how one die is rolled
- `Round`, `Rounds`      : the rounds of an expression, told without fuel
- `Ends`                 : what takes the place of an expression behind its last round
- `Round.WithinRules`    : what is true of a round with dice that keep to their bounds
- `rollGroups_rounds`    : rolling goes in rounds
- `roll_within_rules`    : an expression
-/

namespace TabletopChat

namespace Shorthand

open Act

/-! ## One die -/

/-- Drawing until a result is above a threshold: the supply before, the result, the supply behind. -/
inductive Until (faces again : Nat) : Dice → Int → Dice → Prop
  | above {d d' : Dice} {v : Int} :
      (Dice.draw 1 faces).run d = (.ok v, d') → (again : Int) < v → Until faces again d v d'
  | more {d d' d'' : Dice} {v w : Int} :
      (Dice.draw 1 faces).run d = (.ok v, d') → v ≤ again → Until faces again d' w d'' →
      Until faces again d w d''

/-- A die of a group: the first result, and the one that is kept. -/
structure Die where
  first : Int
  kept : Int

/-- How a die is rolled: the supply before, the die, the supply behind. -/
inductive Plan.Rolls (p : Plan) : Dice → Die → Dice → Prop
  /-- a first result up to `once` is rolled again, whatever comes then -/
  | once {d d' d'' : Dice} {first kept : Int} :
      (Dice.draw 1 p.faces).run d = (.ok first, d') → first ≤ p.once →
      (Dice.draw 1 p.faces).run d' = (.ok kept, d'') → p.Rolls d ⟨first, kept⟩ d''
  /-- another one up to `again` is rolled until one is above it -/
  | again {d d' d'' : Dice} {first kept : Int} :
      (Dice.draw 1 p.faces).run d = (.ok first, d') → (p.once : Int) < first → first ≤ p.again →
      Until p.faces p.again d' kept d'' → p.Rolls d ⟨first, kept⟩ d''
  /-- one above both is kept -/
  | kept {d d' : Dice} {first : Int} :
      (Dice.draw 1 p.faces).run d = (.ok first, d') → (p.once : Int) < first →
      (p.again : Int) < first → p.Rolls d ⟨first, first⟩ d'

/-- A die is rolled again as long as it does not exceed the threshold, or is kept at once. -/
theorem until_of_rollAbove {faces again fuel : Nat} {v w : Int} {d d' : Dice}
    (h : (rollAbove faces again fuel v).run d = (.ok w, d')) :
    (v ≤ again ∧ Until faces again d w d') ∨ ((again : Int) < v ∧ w = v ∧ d' = d) := by
  induction fuel generalizing v d with
  | zero => cases h -- the fuel is used up before there is a result
  | succ fuel ih =>
      unfold rollAbove at h
      split at h
      · rename_i hv
        rcases exists_of_run_bind h with ⟨u, e, hdraw, hrest⟩
        rcases ih hrest with ⟨hu, huntil⟩ | ⟨hu, rfl, rfl⟩
        · exact .inl ⟨hv, .more hdraw hu huntil⟩
        · exact .inl ⟨hv, .above hdraw hu⟩
      · rename_i hv
        cases h
        exact .inr ⟨by omega, rfl, rfl⟩

/-- A die that was rolled has a first throw. -/
theorem rolls_of_rollDie {p : Plan} {v : Int} {d d' : Dice} (h : p.rollDie.run d = (.ok v, d')) :
    ∃ first, p.Rolls d ⟨first, v⟩ d' := by
  rcases exists_of_run_bind h with ⟨first, e, hdraw, hrest⟩
  refine ⟨first, ?_⟩
  split at hrest
  · rename_i honce
    exact .once hdraw honce hrest
  · rename_i honce
    rw [run_bind_of_ok (run_get e)] at hrest
    rcases until_of_rollAbove hrest with ⟨hagain, huntil⟩ | ⟨hagain, rfl, rfl⟩
    · exact .again hdraw (by omega) hagain huntil
    · exact .kept hdraw (by omega) hagain

/-! ## The dice of a group -/

inductive Plan.RollsAll (p : Plan) : Dice → List Die → Dice → Prop
  | nil {d : Dice} : p.RollsAll d [] d
  | cons {d d' d'' : Dice} {x : Die} {xs : List Die} :
      p.Rolls d x d' → p.RollsAll d' xs d'' → p.RollsAll d (x :: xs) d''

/-- Dice of a group are rolled one after the other. -/
theorem rollsAll_of_rollDice {p : Plan} {n : Nat} {vs : List Int} {d d' : Dice}
    (h : (p.rollDice n).run d = (.ok vs, d')) :
    ∃ xs, xs.length = n ∧ xs.map Die.kept = vs ∧ p.RollsAll d xs d' := by
  induction n generalizing vs d with
  | zero =>
      cases h
      exact ⟨[], rfl, rfl, .nil⟩
  | succ n ih =>
      rcases exists_of_run_bind h with ⟨v, e, hdie, hrest⟩
      rcases exists_of_run_bind hrest with ⟨ws, e', hdice, hpure⟩
      cases hpure
      rcases rolls_of_rollDie hdie with ⟨first, hrolls⟩
      rcases ih hdice with ⟨xs, hlength, hkept, hall⟩
      exact ⟨⟨first, v⟩ :: xs, by simp [hlength], by simp [hkept], .cons hrolls hall⟩

/-! ## Rounds -/

/-- A group of dice that was rolled: how it is written, in numbers, and its dice. -/
structure Round where
  pattern : Pattern
  plan : Plan
  dice : List Die

def Round.group (r : Round) : DieGroup := ⟨.faces r.plan.faces, r.dice.map Die.kept⟩

/-- Rounds one after the other, from a text and a supply of dice to another text and supply: the first
group of dice is rolled, and the text is searched again with its total in its place. -/
inductive Rounds : Text → Dice → List Round → Text → Dice → Prop
  | nil {t : Text} {d : Dice} : Rounds t d [] t d
  | cons {t before rest u : Text} {d d' d'' : Dice} {r : Round} {rs : List Round} :
      firstPattern? t = some (before, r.pattern, rest) → r.pattern.plan = .ok r.plan →
      r.dice.length = r.plan.count → r.plan.RollsAll d r.dice d' →
      Rounds (before ++ Text.ofInt r.group.total ++ rest) d' rs u d'' → Rounds t d (r :: rs) u d''

/-- Whether a text is searched no further: it has no group of dice, or the first one is out of
bounds. -/
def Settled (t : Text) : Prop :=
  ∀ before p rest, firstPattern? t = some (before, p, rest) → ∃ f, p.plan = .error f

/-- What takes the place of a text that is searched no further: its first group of dice is refused, or it
has none and is calculated. -/
inductive Ends (u : Text) : Text → Prop
  | refused {before rest : Text} {p : Pattern} {f : Fault}
      (hfirst : firstPattern? u = some (before, p, rest)) (hplan : p.plan = .error f) : Ends u invalidDice
  | calculated {t : Text} (hfirst : firstPattern? u = none) (hshown : Arithmetic.Says u t) : Ends u t

/-- A text where the rounds end is searched no further. -/
theorem Ends.settled {u t : Text} (h : Ends u t) : Settled u := by
  intro before p rest hfirst
  cases h with
  | refused hfirst' hplan =>
      rw [hfirst] at hfirst'
      cases hfirst'
      exact ⟨_, hplan⟩
  | calculated hnone _ =>
      rw [hfirst] at hnone
      cases hnone

/-- Each round takes a letter. -/
theorem Rounds.length_le {t u : Text} {d d' : Dice} {rs : List Round} (h : Rounds t d rs u d') :
    rs.length + letters u ≤ letters t := by
  induction h with
  | nil => simp
  | cons hfirst _ _ _ _ ih =>
      have hlt := letters_of_firstPattern? hfirst
      rw [letters_around_total] at ih
      simp only [List.length_cons]
      omega

/-- The groups are not changed when the text that is left is evaluated. -/
theorem groups_of_finish {expression residue : Text} {groups : List DieGroup} {r : Rolled}
    {d d' : Dice} (h : (finish expression residue groups).run d = (.ok r, d')) :
    r.groups = groups ∧ d' = d := by
  rw [finish_unlimited] at h
  split at h
  · cases h
    exact ⟨rfl, rfl⟩
  · cases h
    exact ⟨rfl, rfl⟩
  · cases h

/-- The text that is shown is the value of what is left, or says why there is none. -/
theorem says_of_finish {expression residue : Text} {groups : List DieGroup} {r : Rolled} {d d' : Dice}
    (h : (finish expression residue groups).run d = (.ok r, d')) : Arithmetic.Says residue r.text := by
  rw [finish_unlimited] at h
  split at h
  · rename_i hvalue
    cases h
    exact Arithmetic.says_of_number hvalue
  · rename_i hwhy
    cases h
    exact Arithmetic.says_of_fault hwhy
  · cases h

/-- A text without a group of dice is searched no further. -/
theorem finish_rounds {expression residue : Text} {groups : List DieGroup} {r : Rolled} {d d' : Dice}
    (hnone : firstPattern? residue = none)
    (h : (finish expression residue groups).run d = (.ok r, d')) :
    ∃ rs u, Rounds residue d rs u d' ∧ r.groups = groups ++ rs.map Round.group ∧ Ends u r.text := by
  rcases groups_of_finish h with ⟨hgroups, rfl⟩
  exact ⟨[], residue, .nil, by simp [hgroups], .calculated hnone (says_of_finish h)⟩

/-- Rolling the groups of a text goes in rounds up to a text that is searched no further. -/
theorem rollGroups_rounds {expression t : Text} {fuel : Nat} {groups : List DieGroup} {r : Rolled}
    {d d' : Dice} (hfuel : letters t ≤ fuel)
    (h : (rollGroups expression fuel groups t).run d = (.ok r, d')) :
    ∃ rs u, Rounds t d rs u d' ∧ r.groups = groups ++ rs.map Round.group ∧ Ends u r.text := by
  induction fuel generalizing groups t d with
  | zero => exact finish_rounds (firstPattern?_eq_none (by omega)) h
  | succ fuel ih =>
      unfold rollGroups at h
      split at h
      · rename_i hnone
        exact finish_rounds hnone h
      · rename_i before p rest hfirst
        split at h
        · -- the first group is out of bounds, which ends the search before the fuel does
          rename_i f hplan
          cases h
          exact ⟨[], t, .nil, by simp, .refused hfirst hplan⟩
        · rename_i plan hplan
          rcases exists_of_run_bind h with ⟨results, e, hdice, hrest⟩
          rcases rollsAll_of_rollDice hdice with ⟨xs, hlength, rfl, hall⟩
          have hlt := letters_of_firstPattern? hfirst
          -- the round takes a letter, so that the fuel is enough for the letters that are left
          rcases ih (by rw [letters_around_total]; omega) hrest with ⟨rs, u, hrounds, hgroups, hends⟩
          exact ⟨⟨p, plan, xs⟩ :: rs, u, .cons hfirst hplan hlength hall hrounds,
            by simp [hgroups, Round.group], hends⟩

/-- What takes the place of an expression, and the groups of dice that are rolled for it: an expression in
which a stray word is left is not rolled, and any other one goes in rounds. -/
inductive Gives (expression : Text) : Text → List DieGroup → Prop
  | stray {u : Text} (hu : Cleared (Text.strip expression) u) (h : Stray u) : Gives expression invalidDice []
  | rolled {rs : List Round} {u t : Text} {d d' : Dice}
      (hclear : ∀ u, Cleared (Text.strip expression) u → ¬ Stray u)
      (hrounds : Rounds (Text.strip expression) d rs u d') (hends : Ends u t) :
      Gives expression t (rs.map Round.group)

/-- An expression that was rolled shows one of the listed results. -/
theorem gives_of_roll {expression : Text} {r : Rolled} {d d' : Dice}
    (h : (roll expression).run d = (.ok r, d')) : Gives expression r.text r.groups := by
  unfold roll at h
  dsimp only at h
  split at h
  · rename_i hmalformed
    cases h
    obtain ⟨u, hu, hstray⟩ := isMalformed_iff.1 hmalformed
    exact .stray hu hstray
  · rename_i hclear
    obtain ⟨rs, u, hrounds, hgroups, hends⟩ := rollGroups_rounds le_rfl h
    rw [hgroups, List.nil_append]
    exact .rolled (fun u hu hstray => hclear (isMalformed_iff.2 ⟨u, hu, hstray⟩)) hrounds hends

/-! ## Rules -/

/-- What the rules say of a round. -/
structure Round.WithinRules (r : Round) : Prop where
  few : r.group.results.length ≤ 1000
  shown : ∀ v ∈ r.group.results, 1 ≤ v ∧ v ≤ (r.plan.faces : Int)
  /-- what is kept is above the second threshold, unless the first result was up to the first one -/
  above : ∀ x ∈ r.dice, (r.plan.again : Int) < x.kept ∨ x.first ≤ (r.plan.once : Int)

structure Die.Obeys (p : Plan) (x : Die) : Prop where
  low : 1 ≤ x.kept
  high : x.kept ≤ (p.faces : Int)
  above : (p.again : Int) < x.kept ∨ x.first ≤ (p.once : Int)

variable {d d' : Dice}

theorem inRange_of_draw {faces : Nat} {v : Int} (hfaces : 1 ≤ faces) (hd : d.InRange)
    (h : (Dice.draw 1 faces).run d = (.ok v, d')) : d'.InRange ∧ 1 ≤ v ∧ v ≤ (faces : Int) := by
  have hfaces : (1 : Int) ≤ faces := by omega
  have hdraw := Plain.draw_ensures hfaces d hd
  rw [h] at hdraw
  exact ⟨hdraw.1, hdraw.2 v rfl⟩

/-- A die that is rolled again ends above the threshold. -/
theorem Until.inRange {faces again : Nat} {v : Int} (h : Until faces again d v d') (hfaces : 1 ≤ faces)
    (hd : d.InRange) : d'.InRange ∧ 1 ≤ v ∧ v ≤ (faces : Int) ∧ (again : Int) < v := by
  induction h with
  | above hdraw habove =>
      rcases inRange_of_draw hfaces hd hdraw with ⟨hrange, hlow, hhigh⟩
      exact ⟨hrange, hlow, hhigh, habove⟩
  | more hdraw _ _ ih => exact ih (inRange_of_draw hfaces hd hdraw).1

/-- One die keeps to the rules, however often it is rolled again. -/
theorem Plan.Rolls.obeys {p : Plan} {x : Die} (h : p.Rolls d x d') (hfaces : 1 ≤ p.faces)
    (hd : d.InRange) : d'.InRange ∧ x.Obeys p := by
  cases h with
  | once hdraw honce hnext =>
      have hfirst := (inRange_of_draw hfaces hd hdraw).1
      rcases inRange_of_draw hfaces hfirst hnext with ⟨hrange, hlow, hhigh⟩
      exact ⟨hrange, hlow, hhigh, .inr honce⟩
  | again hdraw _ _ huntil =>
      have hfirst := (inRange_of_draw hfaces hd hdraw).1
      rcases huntil.inRange hfaces hfirst with ⟨hrange, hlow, hhigh, habove⟩
      exact ⟨hrange, hlow, hhigh, .inl habove⟩
  | kept hdraw _ habove =>
      rcases inRange_of_draw hfaces hd hdraw with ⟨hrange, hlow, hhigh⟩
      exact ⟨hrange, hlow, hhigh, .inl habove⟩

/-- All dice of a group keep to its rules. -/
theorem Plan.RollsAll.obeys {p : Plan} {xs : List Die} (h : p.RollsAll d xs d') (hfaces : 1 ≤ p.faces)
    (hd : d.InRange) : d'.InRange ∧ ∀ x ∈ xs, x.Obeys p := by
  induction h with
  | nil => exact ⟨hd, by simp⟩
  | cons hfirst _ ih =>
      rcases hfirst.obeys hfaces hd with ⟨hnext, hx⟩
      rcases ih hnext with ⟨hrange, hxs⟩
      exact ⟨hrange, List.forall_mem_cons.2 ⟨hx, hxs⟩⟩

theorem Pattern.bounds_of_plan {p : Pattern} {plan : Plan} (h : p.plan = .ok plan) :
    1 ≤ plan.faces ∧ plan.count ≤ maxDice := by
  unfold Pattern.plan at h
  grind

/-- All rounds keep to the rules. -/
theorem Rounds.withinRules {t u : Text} {rs : List Round} (h : Rounds t d rs u d') (hd : d.InRange) :
    ∀ r ∈ rs, r.WithinRules := by
  induction h with
  | nil => simp
  | @cons _ _ _ _ _ _ _ r _ _ hplan hlength hall _ ih =>
      rcases r.pattern.bounds_of_plan hplan with ⟨hfaces, hcount⟩
      rcases hall.obeys hfaces hd with ⟨hrange, hdice⟩
      refine List.forall_mem_cons.2 ⟨⟨?_, ?_, fun x hx => (hdice x hx).above⟩, ih hrange⟩
      · simpa [Round.group, hlength, maxDice] using hcount
      · intro v hv
        rcases List.mem_map.1 hv with ⟨x, hx, rfl⟩
        exact ⟨(hdice x hx).low, (hdice x hx).high⟩

/-! ## Expressions -/

/-- Rolling an expression goes in rounds, at most as many as it has letters `d`; and if dice keep to
their bounds, so does every round: the number of dice, their faces, and the thresholds up to which they
are rolled again. An expression in which a stray word is left is not rolled at all. -/
theorem roll_within_rules (expression : Text) (d : Dice) :
    (∀ rs u d', Rounds (Text.strip expression) d rs u d' → rs.length ≤ letters expression) ∧
      (∀ u, Cleared (Text.strip expression) u → Stray u →
        (roll expression).run d =
          (.ok ⟨invalidDice, [], some (invalidRemark expression none)⟩, d)) ∧
      (d.InRange → ∀ r d', (roll expression).run d = (.ok r, d') →
        r.groups.length ≤ letters expression ∧
          ∃ rs u, Rounds (Text.strip expression) d rs u d' ∧ r.groups = rs.map Round.group ∧
            (∀ r ∈ rs, r.WithinRules) ∧
            ((∃ v, Cleared (Text.strip expression) v ∧ Stray v) ∧ rs = [] ∨ Settled u)) := by
  have hrounds {rs : List Round} {u : Text} {d' : Dice} (h : Rounds (Text.strip expression) d rs u d') :
      rs.length ≤ letters expression := by
    have hle := h.length_le
    have hstrip := letters_strip_le expression
    omega
  refine ⟨fun rs u d' h => hrounds h, fun u hu hstray => ?_, fun hd r d' hrun => ?_⟩
  -- a stray word is found before any dice are drawn
  · rw [roll, if_pos (isMalformed_iff.2 ⟨u, hu, hstray⟩), run_pure]
  · unfold roll at hrun
    dsimp only at hrun
    split at hrun
    · rename_i hmalformed
      cases hrun
      exact ⟨Nat.zero_le _, [], _, .nil, rfl, by simp, .inl ⟨isMalformed_iff.1 hmalformed, rfl⟩⟩
    -- otherwise every round uses up a letter, and the text is settled when no group is left in it
    · rcases rollGroups_rounds le_rfl hrun with ⟨rs, u, h, hgroups, hends⟩
      rw [List.nil_append] at hgroups
      refine ⟨?_, rs, u, h, hgroups, h.withinRules hd, .inr hends.settled⟩
      rw [hgroups, List.length_map]
      exact hrounds h

/-- A total that becomes the number of dice of the next group, with dice that are rolled again for both
reasons; and a word that is no group of dice. -/
theorem roll_within_rules_chain :
    let chain := "2d6ro<1r<2d4 + 1d8r<5".toList
    let stray := "1d6+2dx".toList
    let d : Dice := ⟨fun i a b => some (a + (i : Int) % (b - a + 1)), 5000, 0⟩
    (d.InRange ∧ ∃ r d', (roll chain).run d = (.ok r, d') ∧ d'.drawn = 14 ∧
      r.groups = [⟨.faces 6, [2, 3]⟩, ⟨.faces 4, [4, 1, 2, 3, 4]⟩, ⟨.faces 8, [6]⟩] ∧
      r.groups.length ≤ letters chain ∧ ∃ rs u, Rounds (Text.strip chain) d rs u d' ∧
        rs.length ≤ letters chain ∧ r.groups = rs.map Round.group ∧ (∀ r ∈ rs, r.WithinRules) ∧
        ((∃ v, Cleared (Text.strip chain) v ∧ Stray v) ∧ rs = [] ∨ Settled u)) ∧
      ∃ u, Cleared (Text.strip stray) u ∧ Stray u ∧
        (roll stray).run d = (.ok ⟨invalidDice, [], some (invalidRemark stray none)⟩, d) := by
  intro chain stray d
  have hd : d.InRange := by
    intro i a b v hab hv
    have hv : a + (i : Int) % (b - a + 1) = v := Option.some.inj hv
    have hlow := Int.emod_nonneg (i : Int) (show b - a + 1 ≠ 0 by omega)
    have hhigh := Int.emod_lt_of_pos (i : Int) (show 0 < b - a + 1 by omega)
    omega
  obtain ⟨r, d', hrun⟩ := exists_of_run (a := roll chain) (s := d) (by decide +kernel)
  have hgroups : r.groups = [⟨.faces 6, [2, 3]⟩, ⟨.faces 4, [4, 1, 2, 3, 4]⟩, ⟨.faces 8, [6]⟩] :=
    eq_of_run hrun (by decide +kernel)
  have hdrawn : d'.drawn = 14 := by
    have hstate : ((roll chain).run d).2.drawn = 14 := by decide +kernel
    rwa [hrun] at hstate
  rcases roll_within_rules chain d with ⟨hlength, -, hrules⟩
  rcases hrules hd r d' hrun with ⟨hletters, rs, u, hrounds, hsame, hwithin, hends⟩
  have hcleared : Cleared (Text.strip stray) "+2dx".toList := cleared_iff.2 (by decide +kernel)
  have hstray : Stray "+2dx".toList := by
    refine ⟨['+'], ['2'], 'd', ['x'], by decide, ?_, ?_, .inl rfl⟩
    · rintro x ⟨⟩
      decide
    · exact List.forall_mem_singleton.2 (by decide)
  have hrefused := (roll_within_rules stray d).2.1 "+2dx".toList hcleared hstray
  exact ⟨⟨hd, r, d', hrun, hdrawn, hgroups, hletters, rs, u, hrounds, hlength rs u d' hrounds, hsame,
    hwithin, hends⟩, "+2dx".toList, hcleared, hstray, hrefused⟩

end Shorthand

end TabletopChat
