import TabletopChat.Dice.Notation.Roll
import TabletopChat.Proofs.Dice.Endless

/-!
# Proofs/Dice/Finishing — actions that stop for known reasons only

With dice that never run out, an action that does not have a result stops for a reason that is not a lack
of dice. Either way it comes to its end as soon as the limit is high enough, and to which one does not
depend on the limit.

- `Act.Finishes`   : one end for every limit that is high enough, and the reasons to stop
- `Stops`         : why an expansion may stop
- `Shorthand.roll_finishes`, `Notation.roll_finishes` : rolling an expression
-/

namespace TabletopChat

/-! ## One end if the limit is high enough -/

namespace Act

variable {ε δ σ τ α β : Type} {limit : Nat → σ → σ} {P : σ → Prop} {S T : ε → Prop}

/-- A result, or a reason in `S` to stop. -/
def EndsIn (S : ε → Prop) : Except ε α → Prop
  | .ok _ => True
  | .error e => S e

/-- From every state with `P` an action leads to a state with `P`, and has a result or stops for a reason
in `S`; how it ends is the same for every limit that is high enough. -/
def Finishes (limit : Nat → σ → σ) (P : σ → Prop) (S : ε → Prop) (a : Act ε σ α) : Prop :=
  ∀ s, P s → ∃ r s' bound, EndsIn S r ∧ P s' ∧ ∀ l, bound ≤ l → a.run (limit l s) = (r, limit l s')

theorem Succeeds.finishes {Q : α → Prop} {a : Act ε σ α} (h : Succeeds limit P Q a) :
    Finishes limit P S a := by
  intro s hs
  rcases h s hs with ⟨x, t, m, -, ht, hrun⟩
  exact ⟨.ok x, t, m, trivial, ht, hrun⟩

theorem Finishes.pure (x : α) : Finishes limit P S (Pure.pure x : Act ε σ α) :=
  fun s hs => ⟨.ok x, s, 0, trivial, hs, fun _ _ => rfl⟩

theorem Finishes.stop {e : ε} (h : S e) : Finishes limit P S (Act.stop e : Act ε σ α) :=
  fun s hs => ⟨.error e, s, 0, h, hs, fun _ _ => rfl⟩

/-- Actions one after the other end, or stop for one of the reasons. -/
theorem Finishes.bind {a : Act ε σ α} {f : α → Act ε σ β} (ha : Finishes limit P S a)
    (hf : ∀ x, Finishes limit P S (f x)) : Finishes limit P S (a >>= f) := by
  intro s hs
  rcases ha s hs with ⟨r, t, m, hr, ht, hrun⟩
  cases r with
  | error e =>
    -- where the first action stops, the limit need not be high enough for the second
    exact ⟨.error e, t, m, hr, ht, fun l hl => run_bind_of_error (hrun l hl)⟩
  | ok x =>
    rcases hf x t ht with ⟨r', u, n, hr', hu, hnext⟩
    refine ⟨r', u, max m n, hr', hu, fun l hl => ?_⟩
    rw [run_bind_of_ok (hrun l (by omega))]
    exact hnext l (by omega)

/-- More reasons to stop may be allowed. -/
theorem Finishes.mono {a : Act ε σ α} (h : Finishes limit P S a) (hST : ∀ e, S e → T e) :
    Finishes limit P T a := by
  intro s hs
  rcases h s hs with ⟨r, t, m, hr, ht, hrun⟩
  refine ⟨r, t, m, ?_, ht, hrun⟩
  cases r with
  | ok x => exact trivial
  | error e => exact hST e hr

/-- A step that looks at the state finishes if the limit changes nothing it looks at. -/
theorem Finishes.get_bind {f : σ → Act ε σ β} (hlimit : ∀ l s, f (limit l s) = f s)
    (hf : ∀ s, P s → Finishes limit P S (f s)) : Finishes limit P S (Act.get >>= f) := by
  intro s hs
  rcases hf s hs s hs with ⟨r, t, m, hr, ht, hrun⟩
  refine ⟨r, t, m, hr, ht, fun l hl => ?_⟩
  rw [run_bind_of_ok (run_get _), hlimit]
  exact hrun l hl

/-- An action on a part of a state, where the limit is a limit of the part. -/
theorem Finishes.zoom {view : σ → τ} {update : τ → σ → σ} {limit' : Nat → τ → τ} {P' : τ → Prop}
    {a : Act ε τ α} (ha : Finishes limit' P' S a)
    (hview : ∀ l s, view (limit l s) = limit' l (view s))
    (hupdate : ∀ l t s, update (limit' l t) (limit l s) = limit l (update t s))
    (hP' : ∀ s, P s → P' (view s)) (hP : ∀ t s, P s → P' t → P (update t s)) :
    Finishes limit P S (Act.zoom view update a) := by
  intro s hs
  rcases ha (view s) (hP' s hs) with ⟨r, t, m, hr, ht, hrun⟩
  refine ⟨r, update t s, m, hr, hP t s hs ht, fun l hl => ?_⟩
  have hstep : a (view (limit l s)) = (r, limit' l t) := by
    rw [hview]
    exact hrun l hl
  simp only [Act.run, Act.zoom, hstep, hupdate]

/-- Renaming the reasons to stop keeps an action finishing. -/
theorem Finishes.mapError {f : ε → δ} {a : Act ε σ α} {T : δ → Prop} (h : Finishes limit P S a)
    (hST : ∀ e, S e → T (f e)) : Finishes limit P T (Act.mapError f a) := by
  intro s hs
  rcases h s hs with ⟨r, t, m, hr, ht, hrun⟩
  cases r with
  | ok x =>
    refine ⟨.ok x, t, m, trivial, ht, fun l hl => ?_⟩
    have hstep : a (limit l s) = (.ok x, limit l t) := hrun l hl
    simp only [Act.run, Act.mapError, hstep]
  | error e =>
    refine ⟨.error (f e), t, m, hST e hr, ht, fun l hl => ?_⟩
    have hstep : a (limit l s) = (.error e, limit l t) := hrun l hl
    simp only [Act.run, Act.mapError, hstep]

end Act

open Act

/-! ## Reasons to stop -/

/-- Why an expansion may stop if its dice never run out: for some reasons in any case, for some only if
what is remembered has an unforeseen form, and for some only where dice notation is read. -/
inductive Stops (untidy notation_ : Prop) : Abort → Prop
  | nullCharacter : Stops untidy notation_ .nullCharacter
  | numeralTooLong : Stops untidy notation_ .numeralTooLong
  | notWritable : Stops untidy notation_ .notWritable
  | noObject (h : untidy) : Stops untidy notation_ .noObject
  | wrongType (h : untidy) : Stops untidy notation_ .wrongType
  | worthlessTerm (h : notation_) : Stops untidy notation_ .worthlessTerm
  | numberTooLarge (h : notation_) : Stops untidy notation_ .numberTooLarge

variable {untidy notation_ : Prop}

/-! ## Shorthand -/

namespace Shorthand

/-- Evaluating what is left of an expression stops for a null character only. -/
theorem finish_finishes (expression residue : Text) (groups : List DieGroup) :
    Finishes Dice.withLimit Dice.Endless (Stops untidy notation_) (finish expression residue groups) := by
  rw [finish_unlimited]
  split
  · exact .pure _
  · exact .pure _
  · exact .stop .nullCharacter

/-- Rolling group after group ends as soon as enough dice may be drawn. -/
theorem rollGroups_finishes (expression : Text) (fuel : Nat) (groups : List DieGroup) (t : Text) :
    Finishes Dice.withLimit Dice.Endless (Stops untidy notation_) (rollGroups expression fuel groups t) := by
  induction fuel generalizing groups t with
  | zero => exact finish_finishes _ _ _
  | succ fuel ih =>
    unfold rollGroups
    split
    · exact finish_finishes _ _ _
    · split
      · exact .pure _
      · rename_i plan hplan
        exact (rollDice_succeeds (again_lt_of_plan hplan) _).finishes.bind fun _ => ih _ _

/-- Rolling in place finishes, whatever the text is. -/
theorem roll_finishes (expression : Text) :
    Finishes Dice.withLimit Dice.Endless (Stops untidy notation_) (roll expression) := by
  unfold roll
  dsimp only
  split
  · exact .pure _
  · exact rollGroups_finishes _ _ _ _

end Shorthand

/-! ## Dice notation -/

namespace Notation

def Tray.withLimit (l : Nat) (t : Tray) : Tray := { t with dice := t.dice.withLimit l }

/-- A stop for a fault of the expression, or for a reason in `S`. -/
def Halts (S : Abort → Prop) : Halt → Prop
  | .fault _ => True
  | .abort e => S e

/-- A property of drawing and counting dice and of the ways to stop there, and of what is composed of such
actions. -/
structure Rolls (P : ∀ {α : Type}, Act Halt Tray α → Prop) : Prop where
  pure : ∀ {α : Type} (x : α), P (Pure.pure x : Act Halt Tray α)
  bind : ∀ {α β : Type} {a : Act Halt Tray α} {f : α → Act Halt Tray β},
    P a → (∀ x, P (f x)) → P (a >>= f)
  fault : ∀ {α : Type} (f : Fault), P (Act.stop (.fault f) : Act Halt Tray α)
  tooLarge : ∀ {α : Type}, P (Act.stop (.abort .numberTooLarge) : Act Halt Tray α)
  draw : ∀ {a b : Int}, a ≤ b → P (drawBetween a b)
  count : P countDie

namespace Rolls

variable {P : ∀ {α : Type}, Act Halt Tray α → Prop}

/-- What holds of the steps of rolling holds of rolling a die. -/
theorem rollDie (h : Rolls P) (sides : Sides) : P (rollDie sides) := by
  unfold Notation.rollDie
  split
  · exact h.bind h.count fun _ => h.bind (h.draw (by decide)) fun _ => h.pure _
  · exact h.fault _
  · rename_i n hn
    have hpositive : (1 : Int) ≤ n := by
      have hne : n ≠ 0 := fun h => hn (h ▸ rfl)
      omega
    exact h.bind h.count fun _ => h.draw hpositive

theorem rollDice (h : Rolls P) (sides : Sides) (fuel count : Nat) : P (rollDice sides fuel count) := by
  induction fuel generalizing count with
  | zero =>
    cases count with
    | zero => exact h.pure _
    | succ count => exact h.fault _
  | succ fuel ih =>
    cases count with
    | zero => exact h.pure _
    | succ count => exact h.bind (h.rollDie sides) fun _ => h.bind (ih count) fun _ => h.pure _

/-! ### Operations -/

theorem haltOf (h : Rolls P) {α : Type} (f : Arithmetic.Fault) :
    P (Act.stop (haltOf f) : Act Halt Tray α) := by
  unfold Notation.haltOf
  split
  · exact h.fault _
  · exact h.tooLarge

theorem select (h : Rolls P) (selectors : List Selector) (ms : List Member) : P (select selectors ms) := by
  unfold Notation.select
  split
  · exact h.haltOf _
  · exact h.pure _

theorem selectFirst (h : Rolls P) (selectors : List Selector) (ms : List Member) :
    P (selectFirst selectors ms) := by
  unfold Notation.selectFirst
  split
  · exact h.haltOf _
  · exact h.pure _

theorem rerollAt (h : Rolls P) (sides : Sides) (places : List Nat) (i : Nat) (ds : List Die) :
    P (rerollAt sides places i ds) := by
  induction ds generalizing i with
  | nil => exact h.pure _
  | cons d ds ih =>
    -- both branches go on with the dice behind this one
    have hrest (d' : Die) : P (do
        let ds' ← Notation.rerollAt sides places (i + 1) ds
        Pure.pure (d' :: ds')) := h.bind (ih _) fun _ => h.pure _
    unfold Notation.rerollAt
    dsimp only
    split
    · exact h.bind (h.rollDie sides) fun _ => h.bind (h.pure _) hrest
    · exact h.bind (h.pure _) hrest

/-- Rolling again keeps the property, round after round. -/
theorem rerollWhile (h : Rolls P) (sides : Sides) (selectors : List Selector) (fuel : Nat)
    (ds : List Die) : P (rerollWhile sides selectors fuel ds) := by
  induction fuel generalizing ds with
  | zero => exact h.fault _
  | succ fuel ih =>
    refine h.bind (h.select _ _) fun places => ?_
    split
    · exact h.pure _
    · exact h.bind (h.rerollAt _ _ _ _) fun _ => ih _

/-- Exploding keeps the property, round after round. -/
theorem explodeWhile (h : Rolls P) (sides : Sides) (selectors : List Selector) (fuel : Nat)
    (exploded : List Nat) (ds : List Die) : P (explodeWhile sides selectors fuel exploded ds) := by
  induction fuel generalizing exploded ds with
  | zero => exact h.fault _
  | succ fuel ih =>
    refine h.bind (h.select _ _) fun places => ?_
    dsimp only
    split
    · exact h.pure _
    · exact h.bind (h.rollDice _ _ _) fun _ => ih _ _

theorem boundDice (h : Rolls P) (action : Action) (selectors : List Selector) (ds : List Die) :
    P (boundDice action selectors ds) := by
  unfold Notation.boundDice
  split
  · exact h.pure _
  · split
    · exact h.pure _
    · exact h.fault _

theorem operateDice (h : Rolls P) (o : Operation) (sides : Sides) (ds : List Die) :
    P (operateDice o sides ds) := by
  unfold Notation.operateDice
  split
  · exact h.rerollWhile _ _ _ _
  · exact h.bind (h.select _ _) fun _ => h.rerollAt _ _ _ _
  · refine h.bind (h.selectFirst _ _) fun first => ?_
    split
    · exact h.pure _
    · exact h.bind (h.rollDice _ _ _) fun _ => h.pure _
  · exact h.explodeWhile _ _ _ _ _
  · exact h.boundDice _ _ _

/-- What holds of the steps of rolling holds of an operation on any term. -/
theorem operate (h : Rolls P) (x : Rolled) (o : Operation) : P (operate x o) := by
  unfold Notation.operate
  split
  · exact h.bind (h.select _ _) fun _ => h.pure _
  · exact h.bind (h.select _ _) fun _ => h.pure _
  · split
    · exact h.bind (h.operateDice _ _ _) fun _ => h.pure _
    · exact h.pure _

theorem operateAll (h : Rolls P) (x : Rolled) (os : List Operation) : P (operateAll x os) := by
  induction os generalizing x with
  | nil => exact h.pure _
  | cons o os ih => exact h.bind (h.operate x o) fun _ => ih _

/-! ### Expressions -/

mutual

/-- What holds of drawing a die holds of rolling a tree. -/
theorem roll (h : Rolls P) (x : Tree) : P x.roll := by
  cases x with
  | literal v => exact h.pure _
  | dice count sides os => exact h.bind (h.rollDice _ _ _) fun _ => h.operateAll _ _
  | group x os => exact h.bind (roll h x) fun _ => h.operateAll _ _
  | set xs os => exact h.bind (rollAll h xs) fun _ => h.operateAll _ _
  | signed n x => exact h.bind (roll h x) fun _ => h.pure _
  | binary op l r => exact h.bind (roll h l) fun _ => h.bind (roll h r) fun _ => h.pure _

theorem rollAll (h : Rolls P) (xs : List Tree) : P (rollAll xs) := by
  cases xs with
  | nil => exact h.pure _
  | cons x xs => exact h.bind (roll h x) fun _ => h.bind (rollAll h xs) fun _ => h.pure _

end

end Rolls

/-! ### Texts -/

/-- With dice that do not run out, rolling an expression comes to an end. But for faults of the expression it
stops only at numbers that are too large. -/
theorem finishes_rolls : Rolls fun a =>
    Finishes Tray.withLimit (fun t => t.dice.Endless) (Halts (· = .numberTooLarge)) a where
  pure x := .pure x
  bind ha hf := ha.bind hf
  fault f := .stop trivial
  tooLarge := .stop rfl
  draw {a b} h := by
    have hdraw : Finishes Dice.withLimit Dice.Endless (fun _ => False) (Dice.draw a b) :=
      (Dice.draw_succeeds h).finishes
    exact (hdraw.mapError fun _ he => he.elim).zoom (fun _ _ => rfl) (fun _ _ _ => rfl)
      (fun _ ht => ht) fun _ _ _ hd => hd
  count := by
    refine .get_bind (fun _ _ => rfl) fun t _ => ?_
    split
    · refine Succeeds.finishes (Q := fun _ => True) (.modify (fun _ _ => rfl) fun _ ht => ?_)
      exact ht
    · exact .stop trivial

def Table.withLimit (l : Nat) (s : Table) : Table := { s with dice := s.dice.withLimit l }

abbrev Concludes (untidy notation_ : Prop) {α : Type} (a : Act Halt Table α) : Prop :=
  Finishes Table.withLimit (fun s => s.dice.Endless) (Halts (Stops untidy notation_)) a

/-- Reading a text ends, or stops because it cannot be read. -/
theorem readText_finishes (t : Text) : Concludes untidy notation_ (readText t) := by
  intro s hs
  cases hparse : parseCached t s.cache with
  | ok x =>
    refine ⟨.ok x.1, { s with cache := x.2 }, 0, trivial, hs, fun l _ => ?_⟩
    simp only [Act.run, readText, Table.withLimit, hparse]
  | error u =>
    cases u with
    | malformed =>
      refine ⟨.error (.fault .unreadable), s, 0, trivial, hs, fun l _ => ?_⟩
      simp only [Act.run, readText, Table.withLimit, hparse]
    | numeralTooLong =>
      refine ⟨.error (.abort .numeralTooLong), s, 0, .numeralTooLong, hs, fun l _ => ?_⟩
      simp only [Act.run, readText, Table.withLimit, hparse]

theorem rollTree_finishes (h : notation_) (x : Tree) : Concludes untidy notation_ (rollTree x) := by
  have hroll : Finishes Tray.withLimit (fun t => t.dice.Endless) (Halts (Stops untidy notation_)) x.roll := by
    refine (finishes_rolls.roll x).mono fun halt hhalt => ?_
    cases halt with
    | fault f => exact trivial
    | abort e =>
      cases hhalt
      exact .numberTooLarge h
  exact hroll.zoom (fun _ _ => rfl) (fun _ _ _ => rfl) (fun _ hs => hs) fun _ _ _ ht => ht

theorem termsOf_finishes (h : notation_) (r : Rolled) : Concludes untidy notation_ (termsOf r) := by
  unfold termsOf
  split
  · exact .pure _
  · exact .stop (.worthlessTerm h)
  · exact .stop trivial
  · exact .stop (.numberTooLarge h)

/-- Rolling a text stops for faults of the text, for numerals that are too long, for terms without a value
and for numbers that are too large. -/
theorem roll_finishes (h : notation_) (t : Text) : Concludes untidy notation_ (roll t) :=
  (readText_finishes t).bind fun x => (rollTree_finishes h x).bind fun r =>
    (termsOf_finishes h r).bind fun _ => .pure _

end Notation

end TabletopChat
