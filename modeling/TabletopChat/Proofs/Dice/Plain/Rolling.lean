import TabletopChat.Dice.Notation.Roll
import TabletopChat.Proofs.Dice.Plain.Reading

/-!
# Proofs/Dice/Plain/Rolling — what it means to roll a plain expression

The dice are rolled in the order in which they are written, and each die is one draw. With dice that
answer within their bounds, all totals are small natural numbers, so that a rolled expression is again
an expression. Dice notation, which rolls a tree, draws in the same order.

- `rollPieces`        : the dice of an expression, rolled from left to right
- `rollPieces_ensures` : the rolled expression
- `spells_carries`    : rolling a tree that is written with pieces
-/

namespace TabletopChat

/-! ## Actions from states with a property -/

namespace Act

variable {ε σ α β : Type} {P : σ → Prop} {Q : α → Prop} {R : β → Prop}

instance : LawfulMonad (Act ε σ) := LawfulMonad.mk' _
  (by
    intro α a
    funext s
    change ((a >>= fun x => Pure.pure (id x)) : Act ε σ α).run s = a.run s
    rw [run_bind_pure]
    rcases a.run s with ⟨_ | _, _⟩ <;> rfl)
  (by
    intro α β x f
    rfl)
  (by
    intro α β γ a f g
    funext s
    change ((a >>= f) >>= g : Act ε σ γ).run s = (a >>= fun x => f x >>= g : Act ε σ γ).run s
    rcases h : a.run s with ⟨_ | _, _⟩
    · rw [run_bind_of_error (run_bind_of_error h), run_bind_of_error h]
    · rw [run_bind_of_ok h, run_bind, run_bind_of_ok h, run_bind])

/-- From every state with `P` an action leads to a state with `P`, and its results have `Q`. -/
def Ensures (P : σ → Prop) (Q : α → Prop) (a : Act ε σ α) : Prop :=
  ∀ s, P s → P (a.run s).2 ∧ ∀ x, (a.run s).1 = .ok x → Q x

theorem Ensures.pure {x : α} (h : Q x) : Ensures P Q (Pure.pure x : Act ε σ α) := by
  intro s hs
  refine ⟨hs, ?_⟩
  intro y hy
  cases hy
  exact h

theorem Ensures.bind {a : Act ε σ α} {f : α → Act ε σ β} (ha : Ensures P Q a)
    (hf : ∀ x, Q x → Ensures P R (f x)) : Ensures P R (a >>= f) := by
  intro s hs
  rcases ha s hs with ⟨hstate, hresult⟩
  rcases hrun : a.run s with ⟨_ | x, s'⟩
  · rw [run_bind_of_error hrun]
    rw [hrun] at hstate
    refine ⟨hstate, ?_⟩
    intro y hy
    cases hy
  · rw [run_bind_of_ok hrun]
    rw [hrun] at hstate hresult
    exact hf x (hresult x rfl) s' hstate

theorem Ensures.imp {Q' : α → Prop} {a : Act ε σ α} (h : Ensures P Q a) (hQ : ∀ x, Q x → Q' x) :
    Ensures P Q' a := by
  intro s hs
  exact ⟨(h s hs).1, fun x hx => hQ x ((h s hs).2 x hx)⟩

end Act

open Act

namespace Plain

/-! ## Draws -/

def drawMany (faces : Nat) : Nat → Act Abort Dice (List Int)
  | 0 => pure []
  | n + 1 => do
    let v ← Dice.draw 1 faces
    let vs ← drawMany faces n
    pure (v :: vs)

/-- A draw from a source that keeps to the bounds keeps to them. -/
theorem draw_ensures {a b : Int} (h : a ≤ b) :
    Ensures Dice.InRange (fun v => a ≤ v ∧ v ≤ b) (Dice.draw a b) := by
  intro d hd
  rcases hanswer : d.answer d.drawn a b with - | v
  · refine ⟨?_, ?_⟩
    · simp only [run, Dice.draw, hanswer, ite_self]
      exact hd
    · intro v hv
      simp [run, Dice.draw, hanswer] at hv
  · have hv : a ≤ v ∧ v ≤ b := hd _ _ _ _ h hanswer
    by_cases hlimit : d.drawn < d.limit
    · simp only [run, Dice.draw, hanswer, if_pos hlimit]
      refine ⟨hd, ?_⟩
      intro w hw
      cases hw
      exact hv
    · simp only [run, Dice.draw, if_neg hlimit]
      refine ⟨hd, ?_⟩
      intro w hw
      cases hw

/-- Many draws do, too. -/
theorem drawMany_ensures {faces : Nat} (h : 1 ≤ faces) (n : Nat) :
    Ensures Dice.InRange (fun vs => vs.length = n ∧ ∀ v ∈ vs, 1 ≤ v ∧ v ≤ (faces : Int))
      (drawMany faces n) := by
  induction n with
  | zero => exact .pure (by simp)
  | succ n ih =>
    refine (draw_ensures (by omega)).bind fun v hv => ih.bind fun vs hvs => .pure ?_
    refine ⟨by simp [hvs.1], ?_⟩
    intro w hw
    rcases List.mem_cons.mp hw with rfl | hw
    · exact hv
    · exact hvs.2 w hw

/-! ## Rolled terms -/

inductive Shown
  | number (n : Nat)
  | dice (g : DieGroup)
  deriving DecidableEq, Repr

def Shown.text : Shown → Text
  | .number n => Text.ofNat n
  | .dice g => Text.ofInt g.total

def Shown.group? : Shown → Option DieGroup
  | .number _ => none
  | .dice g => some g

def groupsAmong (qs : List (Piece Shown)) : List DieGroup := (leavesOf qs).filterMap Shown.group?

/-- Whether a rolled term is written as a natural number with few digits. -/
def Shown.Small (a : Shown) : Prop := ∃ n, a.text = Text.ofNat n ∧ n < 10 ^ 200

def Term.roll : Term → Act Abort Dice Shown
  | .number n => pure (.number n)
  | .dice count faces => do
    let vs ← drawMany faces (count.getD 1)
    pure (.dice ⟨.faces faces, vs⟩)

def Piece.roll : Piece Term → Act Abort Dice (Piece Shown)
  | .leaf t => do
    let a ← t.roll
    pure (.leaf a)
  | .sign n => pure (.sign n)
  | .opening => pure .opening
  | .closing => pure .closing
  | .operator op => pure (.operator op)

def rollPieces : List (Piece Term) → Act Abort Dice (List (Piece Shown))
  | [] => pure []
  | p :: ps => do
    let q ← p.roll
    let qs ← rollPieces ps
    pure (q :: qs)

/-! ## Totals -/

/-- The total of dice is a natural number, and no larger than all faces together. -/
theorem exists_total {faces n : Nat} {vs : List Int} (hlength : vs.length = n)
    (hvs : ∀ v ∈ vs, 1 ≤ v ∧ v ≤ (faces : Int)) :
    ∃ k : Nat, vs.foldr (· + ·) (0 : Int) = (k : Int) ∧ k ≤ n * faces := by
  induction vs generalizing n with
  | nil => exact ⟨0, rfl, Nat.zero_le _⟩
  | cons v vs ih =>
    rcases ih rfl fun w hw => hvs w (.tail _ hw) with ⟨k, hk, hle⟩
    rcases hvs v (.head _) with ⟨hpos, hmax⟩
    refine ⟨v.toNat + k, ?_, ?_⟩
    · rw [List.foldr_cons, hk]
      omega
    · have hn : n = vs.length + 1 := by simpa using hlength.symm
      rw [hn, Nat.succ_mul]
      omega

def Term.Sound (t : Term) : Prop := t.Fits ∧ t.rolls ≤ 1000

/-- A term that was rolled is small. -/
theorem Term.roll_ensures {t : Term} (h : t.Sound) : Ensures Dice.InRange Shown.Small t.roll := by
  rcases h with ⟨hfits, hrolls⟩
  cases t with
  | number n => exact .pure ⟨n, rfl, Nat.lt_of_lt_of_le hfits (by decide)⟩
  | dice count faces =>
    refine (drawMany_ensures hfits.2.1 (count.getD 1)).bind fun vs hvs => .pure ?_
    rcases exists_total hvs.1 hvs.2 with ⟨k, hk, hle⟩
    refine ⟨k, by simp [Shown.text, DieGroup.total, hk, Text.ofInt], ?_⟩
    have hfaces : faces < 10 ^ 100 := hfits.2.2
    calc k ≤ count.getD 1 * faces := hle
      _ ≤ 1000 * 10 ^ 100 := Nat.mul_le_mul hrolls (Nat.le_of_lt hfaces)
      _ < 10 ^ 200 := by decide

theorem rollPieces_append (ps qs : List (Piece Term)) :
    rollPieces (ps ++ qs) = (do
      let xs ← rollPieces ps
      let ys ← rollPieces qs
      pure (xs ++ ys)) := by
  induction ps with
  | nil => simp [rollPieces]
  | cons p ps ih => simp [rollPieces, ih]

def Rolls (depth : Nat) (qs : List (Piece Shown)) : Prop :=
  ∃ e : Expression Shown, e.pieces = qs ∧ e.depth = depth ∧ ∀ a ∈ e.leaves, a.Small

def RollsOperand (depth : Nat) (qs : List (Piece Shown)) : Prop :=
  ∃ x : Operand Shown, x.pieces = qs ∧ x.depth = depth ∧ ∀ a ∈ x.leaves, a.Small

mutual

/-- Rolling an operand gives an operand of the same depth. -/
theorem rollOperand_ensures : (x : Operand Term) → (∀ t ∈ x.leaves, t.Sound) →
    Ensures Dice.InRange (RollsOperand x.depth) (rollPieces x.pieces)
  | .leaf t, h => by
    have ht : t.Sound := h t (by simp [Operand.leaves, Operand.pieces])
    simp only [Operand.pieces, rollPieces, Piece.roll, bind_assoc, pure_bind]
    refine (Term.roll_ensures ht).bind fun a ha => .pure ?_
    refine ⟨.leaf a, rfl, rfl, ?_⟩
    intro b hb
    have hba : b = a := by simpa [Operand.leaves, Operand.pieces] using hb
    exact hba ▸ ha
  | .signed n x, h => by
    simp only [Operand.pieces, rollPieces, Piece.roll, pure_bind]
    refine (rollOperand_ensures x h).bind fun qs hqs => .pure ?_
    rcases hqs with ⟨y, rfl, hdepth, hleaves⟩
    exact ⟨.signed n y, rfl, hdepth, hleaves⟩
  | .group e, h => by
    have he : ∀ t ∈ e.leaves, t.Sound := by
      intro t ht
      exact h t (by simpa [Operand.leaves, Expression.leaves, Operand.pieces] using ht)
    simp only [Operand.pieces, rollPieces, Piece.roll, rollPieces_append, bind_assoc, pure_bind]
    refine (rollPieces_ensures e he).bind fun qs hqs => .pure ?_
    rcases hqs with ⟨f, rfl, hdepth, hleaves⟩
    refine ⟨.group f, rfl, by simp [Operand.depth, hdepth], ?_⟩
    intro a ha
    exact hleaves a (by simpa [Operand.leaves, Expression.leaves, Operand.pieces] using ha)

/-- The rolled pieces of an expression are an expression again, with the same brackets. -/
theorem rollPieces_ensures : (e : Expression Term) → (∀ t ∈ e.leaves, t.Sound) →
    Ensures Dice.InRange (Rolls e.depth) (rollPieces e.pieces)
  | .last x, h => by
    refine (rollOperand_ensures x h).imp fun qs hqs => ?_
    rcases hqs with ⟨y, hpieces, hdepth, hleaves⟩
    exact ⟨.last y, hpieces, hdepth, hleaves⟩
  | .more x op e, h => by
    have hboth : ∀ t, t ∈ x.leaves ∨ t ∈ e.leaves → t.Sound := by
      intro t ht
      exact h t (by simpa [Operand.leaves, Expression.leaves, Expression.pieces] using ht)
    simp only [Expression.pieces, rollPieces, Piece.roll, rollPieces_append, bind_assoc, pure_bind]
    refine (rollOperand_ensures x fun t ht => hboth t (.inl ht)).bind fun qs hqs => ?_
    refine (rollPieces_ensures e fun t ht => hboth t (.inr ht)).bind fun rs hrs => .pure ?_
    rcases hqs with ⟨y, rfl, hy, hyleaves⟩
    rcases hrs with ⟨f, rfl, hf, hfleaves⟩
    refine ⟨.more y op f, rfl, by simp [Expression.depth, hy, hf], ?_⟩
    intro a ha
    have hcases : a ∈ y.leaves ∨ a ∈ f.leaves := by
      simpa [Operand.leaves, Expression.leaves, Expression.pieces] using ha
    exact hcases.elim (hyleaves a) (hfleaves a)

end

/-! ## Dice notation -/

open Notation

/-- An action on a tray that does what an action on the dice does. Its results are related to those
of the other, and it counts no more than `n` dice. -/
def Carries {α β : Type} (n : Nat) (R : α → β → Prop) (a : Act Abort Dice α)
    (b : Act Halt Tray β) : Prop :=
  ∀ d r, r + n ≤ maxRolled →
    match a.run d with
    | (.ok x, d') => ∃ y, b.run ⟨d, r⟩ = (.ok y, ⟨d', r + n⟩) ∧ R x y
    | (.error e, d') => ∃ r', b.run ⟨d, r⟩ = (.error (.abort e), ⟨d', r'⟩)

theorem Carries.pure {α β : Type} {R : α → β → Prop} {x : α} {y : β} (h : R x y) :
    Carries 0 R (Pure.pure x) (Pure.pure y) := fun _ _ _ => ⟨y, rfl, h⟩

/-- Actions that carry the same results along, one after the other. -/
theorem Carries.bind {α β γ δ : Type} {m n : Nat} {R : α → β → Prop} {S : γ → δ → Prop}
    {a : Act Abort Dice α} {b : Act Halt Tray β} {f : α → Act Abort Dice γ} {g : β → Act Halt Tray δ}
    (hab : Carries m R a b) (hfg : ∀ x y, R x y → Carries n S (f x) (g y)) :
    Carries (m + n) S (a >>= f) (b >>= g) := by
  intro d r hr
  have hfirst := hab d r (by omega)
  rcases hrun : a.run d with ⟨e | x, d'⟩
  · rw [hrun] at hfirst
    rcases hfirst with ⟨r', hb⟩
    rw [run_bind_of_error hrun]
    exact ⟨r', run_bind_of_error hb⟩
  · rw [hrun] at hfirst
    rcases hfirst with ⟨y, hb, hxy⟩
    rw [run_bind_of_ok hrun, run_bind_of_ok hb]
    have hnext := hfg x y hxy d' (r + m) (by omega)
    rwa [Nat.add_assoc] at hnext

theorem Carries.map {α β γ δ : Type} {n : Nat} {R : α → β → Prop} {S : γ → δ → Prop}
    {a : Act Abort Dice α} {b : Act Halt Tray β} {f : α → γ} {g : β → δ} (hab : Carries n R a b)
    (hfg : ∀ x y, R x y → S (f x) (g y)) :
    Carries n S (do let x ← a; Pure.pure (f x)) (do let y ← b; Pure.pure (g y)) :=
  hab.bind (n := 0) fun x y hxy => .pure (hfg x y hxy)

theorem Carries.of_eq {α β : Type} {m n : Nat} {R : α → β → Prop} {a : Act Abort Dice α}
    {b : Act Halt Tray β} (h : Carries m R a b) (hmn : m = n) : Carries n R a b := hmn ▸ h

/-- Both kinds of rolling draw from the same source. -/
theorem drawBetween_carries (a b : Int) : Carries 0 Eq (Dice.draw a b) (drawBetween a b) := by
  intro d r _
  rcases hdraw : (Dice.draw a b).run d with ⟨e | v, d'⟩
  · refine ⟨r, ?_⟩
    have hstep : Dice.draw a b d = (.error e, d') := hdraw
    simp only [drawBetween, run, zoom, mapError, hstep]
  · refine ⟨v, ?_, rfl⟩
    have hstep : Dice.draw a b d = (.ok v, d') := hdraw
    simp only [drawBetween, run, zoom, mapError, hstep, Nat.add_zero]

/-- A die draws alike for both rollers. -/
theorem rollDie_carries {faces : Nat} (h : 1 ≤ faces) :
    Carries 1 Eq (Dice.draw 1 faces) (Notation.rollDie (.faces faces)) := by
  intro d r hr
  have hcount : countDie.run ⟨d, r⟩ = (.ok (), ⟨d, r + 1⟩) := by
    have hlt : r < maxRolled := by omega
    simp only [countDie, run_bind_of_ok (run_get _), if_pos hlt, run_modify]
  have hroll : Notation.rollDie (.faces faces) = (do countDie; drawBetween 1 faces) := by
    match faces, h with
    | k + 1, _ => rfl
  rw [hroll, run_bind_of_ok hcount]
  exact drawBetween_carries 1 faces d (r + 1) hr

def keptDice (vs : List Int) : List Die := vs.map fun v => ⟨v, true⟩

/-- All dice of a plain group are kept. -/
theorem keptValues_keptDice (vs : List Int) : keptValues (keptDice vs) = vs := by
  induction vs with
  | nil => rfl
  | cons v vs ih =>
    simp only [keptDice, keptValues, List.map_cons, List.filter_cons_of_pos] at ih ⊢
    rw [ih]

/-- Rolling a group of dice counts as many as there are. -/
theorem rollDice_carries {faces : Nat} (h : 1 ≤ faces) {fuel n : Nat} (hn : n ≤ fuel) :
    Carries n (fun vs ds => ds = keptDice vs) (drawMany faces n)
      (Notation.rollDice (.faces faces) fuel n) := by
  induction n generalizing fuel with
  | zero =>
    cases fuel <;> exact .pure rfl
  | succ n ih =>
    match fuel, hn with
    | k + 1, hn =>
      -- the first die takes one of the `n + 1` draws
      refine Carries.of_eq ?_ (Nat.add_comm 1 n)
      refine (rollDie_carries h).bind fun v w hvw => ?_
      refine (ih (Nat.le_of_succ_le_succ hn)).map fun vs ds hds => ?_
      rw [hds, hvw]
      rfl

def Piece.term : Piece Shown → Notation.Term
  | .leaf (.dice g) => .dice g
  | p => .text (p.text [' '] Shown.text)

def Flattens (qs : List (Piece Shown)) (r : Rolled) : Prop :=
  r.flatten = .ok (qs.map Piece.term)

/-- A number is rolled without a die. -/
theorem number_carries {n : Nat} (hn : n < 10 ^ 100) :
    Carries 0 Flattens (rollPieces [.leaf (.number n)]) (Tree.literal (.int n)).roll := by
  -- a number of a term is short enough to be written out
  have hsmall : ¬ 10 ^ maxWritten ≤ n := by
    have hmax : 10 ^ 100 ≤ 10 ^ maxWritten := Nat.pow_le_pow_right (by decide) (by decide)
    omega
  refine .pure ?_
  simp [Flattens, Rolled.flatten, Rolled.total, worth, hsmall, Piece.term, Piece.text, Shown.text,
    Text.ofInt]

/-- Dice draw alike for both rollers. -/
theorem dice_carries {count : Option Nat} {faces : Nat} (h : 1 ≤ faces) :
    Carries (count.getD 1) Flattens (rollPieces [.leaf (.dice count faces)])
      (Tree.dice (count.getD 1) (.faces faces) []).roll := by
  intro d r hr
  -- what is left of the thousand dice bounds the number of dice of this term
  have hcount : count.getD 1 ≤ maxRolled + 1 := by omega
  have hleft : rollPieces [.leaf (.dice count faces)] = (do
      let vs ← drawMany faces (count.getD 1)
      pure [.leaf (.dice ⟨.faces faces, vs⟩)]) := by
    simp [rollPieces, Piece.roll, Term.roll]
  have hright : (Tree.dice (count.getD 1) (.faces faces) []).roll = (do
      let ds ← Notation.rollDice (.faces faces) (maxRolled + 1) (count.getD 1)
      pure (.dice (.faces faces) ds true)) := by
    simp [Tree.roll, operateAll]
  rw [hleft, hright]
  refine (rollDice_carries h hcount).map (fun vs ds hds => ?_) d r hr
  simp [Flattens, hds, Rolled.flatten, keptValues_keptDice, Piece.term]

/-- Rolling a tree draws as rolling its pieces does, and the terms are the rolled pieces. -/
theorem spells_carries {x : Tree} {ps : List (Piece Term)} (h : Spells x ps)
    (hfits : ∀ t ∈ leavesOf ps, t.Fits) :
    Carries (rollsOf (leavesOf ps)) Flattens (rollPieces ps) x.roll := by
  induction h with
  | number n => exact number_carries (hfits (.number n) (by simp))
  | dice count faces => exact dice_carries (hfits (.dice count faces) (by simp)).2.1
  | @signed n x ps hx ih =>
    rw [leavesOf_sign] at hfits ⊢
    -- a sign draws nothing: both sides draw what the operand draws
    have hleft : rollPieces (.sign n :: ps) = (do
        let qs ← rollPieces ps
        pure (.sign n :: qs)) := by
      simp [rollPieces, Piece.roll]
    rw [hleft, Tree.roll]
    refine (ih hfits).map fun qs r hqs => ?_
    have hqs : r.flatten = .ok (qs.map Piece.term) := hqs
    simp [Flattens, Rolled.flatten, hqs, Piece.term, Piece.text]
  | @group x ps hx ih =>
    have hleaves : leavesOf (.opening :: (ps ++ [.closing])) = leavesOf ps := by simp
    rw [hleaves] at hfits ⊢
    -- nor do brackets; without operations a group is rolled as what is in it
    have hleft : rollPieces (.opening :: (ps ++ [.closing])) = (do
        let qs ← rollPieces ps
        pure (.opening :: (qs ++ [.closing]))) := by
      simp [rollPieces, rollPieces_append, Piece.roll]
    have hright : (Tree.group x []).roll = (do
        let r ← x.roll
        pure (.group r false true)) := by
      simp [Tree.roll, operateAll]
    rw [hleft, hright]
    refine (ih hfits).map fun qs r hqs => ?_
    have hqs : r.flatten = .ok (qs.map Piece.term) := hqs
    simp [Flattens, Rolled.flatten, hqs, Piece.term, Piece.text]
  | @binary op x y ps qs hx hy ihx ihy =>
    have hleaves : leavesOf (ps ++ .operator op :: qs) = leavesOf ps ++ leavesOf qs := by simp
    rw [hleaves] at hfits ⊢
    -- the operands are drawn from left to right on both sides, so the dice left over from one are those of the next
    rw [rollsOf_append]
    have hleft : rollPieces (ps ++ .operator op :: qs) = (do
        let xs ← rollPieces ps
        let ys ← rollPieces qs
        pure (xs ++ .operator op :: ys)) := by
      simp [rollPieces, rollPieces_append, Piece.roll]
    rw [hleft, Tree.roll]
    refine (ihx fun t ht => hfits t (List.mem_append_left _ ht)).bind fun xs r hxs => ?_
    refine (ihy fun t ht => hfits t (List.mem_append_right _ ht)).map fun ys s hys => ?_
    have hxs : r.flatten = .ok (xs.map Piece.term) := hxs
    have hys : s.flatten = .ok (ys.map Piece.term) := hys
    simp [Flattens, Rolled.flatten, hxs, hys, Piece.term, Piece.text, Binary.sign]

end Plain

end TabletopChat
