import TabletopChat.Proofs.Text.Numeral
import TabletopChat.Proofs.Dice.Plain.Climbing

/-!
# Proofs/Dice/Plain/Reading — dice notation reads every plain expression

The tree that is read is written with the pieces of the expression, in their order.

- `Spells` : trees that are written with pieces
- `reader` : the rules of dice notation as a climber
- `parse_write` : reading the text of an expression
-/

namespace TabletopChat

namespace Plain

open Notation

/-! ## Trees -/

inductive Spells : Tree → List (Piece Term) → Prop
  | number (n : Nat) : Spells (.literal (.int n)) [.leaf (.number n)]
  | dice (count : Option Nat) (faces : Nat) :
    Spells (.dice (count.getD 1) (.faces faces) []) [.leaf (.dice count faces)]
  | signed (negative : Bool) {x : Tree} {ps : List (Piece Term)} (h : Spells x ps) :
    Spells (.signed negative x) (.sign negative :: ps)
  | group {x : Tree} {ps : List (Piece Term)} (h : Spells x ps) :
    Spells (.group x []) (.opening :: (ps ++ [.closing]))
  | binary (op : Infix) {x y : Tree} {ps qs : List (Piece Term)} (hx : Spells x ps)
    (hy : Spells y qs) : Spells (.binary (.arithmetic op.operator) x y) (ps ++ .operator op :: qs)

/-! ## Readers -/

/-- Whether a text can be the beginning of an expression: nothing is skipped in front of it, and it is
not the end of an empty set. -/
def Begins (t : Text) : Prop := skipGap t = t ∧ ∀ u, t ≠ ')' :: u

def levelInNotation : Infix → Nat
  | .add => 1
  | .sub => 1
  | .mul => 2
  | .floorDiv => 2
  | .mod => 2

/-- The rules of dice notation. Each character of the input takes at most four rules. -/
def reader : Climber Term Char Tree where
  spell := Piece.text [] Term.text
  Leaf := Term.Fits
  level := levelInNotation
  binary op x y := .binary (.arithmetic op.operator) x y
  Spells := Spells
  Item t x u := Begins t ∧ u.length < t.length ∧
    ∀ fuel, 4 * t.length ≤ fuel → read fuel .operand t = .ok (x, u)
  Climb k t x u := Begins t ∧ u.length < t.length ∧
    ∀ fuel, 4 * t.length + 1 ≤ fuel → read fuel (.climb k) t = .ok (x, u)
  Rest k x t y u := u.length ≤ t.length ∧
    ∀ fuel, 4 * t.length + 1 ≤ fuel → read fuel (.climbRest k x) t = .ok (y, u)

/-! ## Behind an operand -/

def closers : List Char := [')', '+', '-', '*', '/', '%']

/-- What follows an operand begins with a closing sign or with an operator. -/
theorem head_of_follows {t : Text} (h : reader.Follows t) : ∀ c ∈ t.head?, c ∈ closers := by
  rcases h with (rfl | ⟨u, rfl⟩) | ⟨op, u, rfl⟩
  · intro c hc
    cases hc
  · intro c hc
    cases hc
    decide
  · intro c hc
    cases op <;> cases hc <;> decide

theorem notBefore_of_follows {t : Text} (h : reader.Follows t) {p : Char → Bool}
    (hp : closers.any p = false) : Text.NotBefore p t := by
  intro c hc
  have hclosers := List.any_eq_false.mp hp c (head_of_follows h c hc)
  simpa using hclosers

theorem action?_of_follows {t : Text} (h : reader.Follows t) (onDice : Bool) :
    action? onDice t = none := by
  rcases h with (rfl | ⟨u, rfl⟩) | ⟨op, u, rfl⟩
  · rfl
  · rfl
  · cases op <;> rfl

/-- Behind a plain term there are no operations. -/
theorem operations_of_follows {t : Text} (h : reader.Follows t) (onDice : Bool) :
    operations onDice t = .ok ([], t) := by
  have hnone : operationsFrom onDice t.length t = .ok ([], t) := by
    cases t with
    | nil => rfl
    | cons c cs => simp [operationsFrom, action?_of_follows h]
  simp [operations, hnone, joinOperations]

theorem skipGap_of_notBefore {t : Text} (h : Text.NotBefore isGap t) : skipGap t = t := h.dropWhile

/-- Nor are there blanks or notes. -/
theorem afterTerm_of_follows {t : Text} (h : reader.Follows t) : afterTerm t = t := by
  have hgap : skipGap t = t := skipGap_of_notBefore (notBefore_of_follows h (by decide))
  rcases h with (rfl | ⟨u, rfl⟩) | ⟨op, u, rfl⟩
  · rfl
  · simp only [afterTerm, hgap]
    rfl
  · simp only [afterTerm, hgap]
    cases op <;> rfl

/-! ## Terms -/

theorem length_ofNat_le_maxDigits {n : Nat} (hn : n < 10 ^ 100) :
    ¬ (Text.ofNat n).length > maxDigits := by
  have hlength : (Text.ofNat n).length ≤ 100 := Text.length_ofNat_le (by decide) hn
  have hmax : 100 ≤ maxDigits := by decide
  omega

/-- A written number is read back. -/
theorem integer_ofNat {n : Nat} (hn : n < 10 ^ 100) {t : Text}
    (ht : Text.NotBefore Char.isDigit t) : integer (Text.ofNat n ++ t) = .ok (n, t) := by
  rw [integer, Text.takeWhile_ofNat (fun _ h => h) n ht, Text.dropWhile_ofNat (fun _ h => h) n ht]
  split
  · rename_i hnil
    exact absurd hnil (Text.ofNat_ne_nil n)
  · rw [if_neg (length_ofNat_le_maxDigits hn), numeral_ofNat]

/-- A numeral that fits is read as a number. -/
theorem plainTerm_number {n : Nat} (hn : n < 10 ^ 100) {t : Text} (ht : reader.Follows t) :
    plainTerm (Text.ofNat n ++ t) = .ok (.literal (.int n), t) := by
  have hdigit : Text.NotBefore Char.isDigit t := notBefore_of_follows ht (by decide)
  have hhead := head_of_follows ht
  rw [plainTerm, Text.takeWhile_ofNat (fun _ h => h) n hdigit,
    Text.dropWhile_ofNat (fun _ h => h) n hdigit]
  split
  · exact absurd (hhead 'd' rfl) (by decide)
  · exact absurd ‹_› (Text.ofNat_ne_nil n)
  · exact absurd ‹_› (Text.ofNat_ne_nil n)
  · exact absurd (hhead '.' rfl) (by decide)
  · rw [if_neg (length_ofNat_le_maxDigits hn), numeral_ofNat]

/-- A numeral behind the letter of dice is read as their faces. -/
theorem sides_faces {n : Nat} (hn : n < 10 ^ 100) {t : Text} (ht : Text.NotBefore Char.isDigit t) :
    sides (Text.ofNat n ++ t) = .ok (.faces n, t) := by
  rcases hdigits : Text.exists_ofNat n with ⟨c, cs, hn', hc⟩
  have hread := integer_ofNat hn ht
  rw [hn', List.cons_append] at hread ⊢
  unfold sides
  split
  · rename_i hpercent
    cases hpercent
    exact absurd hc (by decide)
  · rw [hread]

/-- Written dice are read back. -/
theorem plainTerm_dice {count : Option Nat} {faces : Nat} (h : (Term.dice count faces).Fits) {t : Text}
    (ht : reader.Follows t) :
    plainTerm ((Term.dice count faces).text ++ t) =
      .ok (.dice (count.getD 1) (.faces faces) [], t) := by
  have hdigit : Text.NotBefore Char.isDigit t := notBefore_of_follows ht (by decide)
  have hd (u : Text) : Text.NotBefore Char.isDigit ('d' :: u) := by
    intro c hc
    cases hc
    decide
  -- the faces are read alike, whatever the count was
  have hterm (ds : Text) (hds : ¬ ds.length > maxDigits) :
      diceTerm ds (Text.ofNat faces ++ t) =
        .ok (.dice (if ds = [] then 1 else numeral ds) (.faces faces) [], t) := by
    rw [diceTerm, if_neg hds, sides_faces h.2.2 hdigit]
    simp only [operations_of_follows ht]
  cases count with
  | none =>
    have hnone := hterm [] (by decide)
    simpa [Term.text, plainTerm, (hd _).takeWhile, (hd _).dropWhile] using hnone
  | some n =>
    have hn : n < 10 ^ 100 := h.1.2
    have hsome := hterm (Text.ofNat n) (length_ofNat_le_maxDigits hn)
    rw [if_neg (Text.ofNat_ne_nil n), numeral_ofNat] at hsome
    simp only [Term.text, Option.map_some, Option.getD_some, List.append_assoc, List.cons_append]
    rw [plainTerm, Text.takeWhile_ofNat (fun _ h => h) n (hd _),
      Text.dropWhile_ofNat (fun _ h => h) n (hd _)]
    exact hsome

def startsTerm (c : Char) : Bool := c.isDigit || c == 'd'

/-- A term begins with a digit or the letter of dice. -/
theorem exists_text (a : Term) : ∃ c cs, a.text = c :: cs ∧ startsTerm c = true := by
  cases a with
  | number n =>
    rcases Text.exists_ofNat n with ⟨c, cs, hn, hc⟩
    exact ⟨c, cs, hn, by simp [startsTerm, hc]⟩
  | dice count faces =>
    cases count with
    | none => exact ⟨'d', Text.ofNat faces, rfl, rfl⟩
    | some n =>
      rcases Text.exists_ofNat n with ⟨c, cs, hn, hc⟩
      exact ⟨c, cs ++ 'd' :: Text.ofNat faces, by simp [Term.text, hn], by simp [startsTerm, hc]⟩

theorem isGap_of_startsTerm {c : Char} (h : startsTerm c = true) : isGap c = false := by
  cases hgap : isGap c with
  | false => rfl
  | true =>
    simp only [isGap, Bool.or_eq_true, decide_eq_true_eq] at hgap
    rcases hgap with (((rfl | rfl) | rfl) | rfl) | rfl <;> exact absurd h (by decide)

theorem plainTerm_text {a : Term} (ha : a.Fits) {t : Text} (ht : reader.Follows t) :
    ∃ x, plainTerm (a.text ++ t) = .ok (x, t) ∧ Spells x [.leaf a] := by
  cases a with
  | number n => exact ⟨_, plainTerm_number ha ht, .number n⟩
  | dice count faces => exact ⟨_, plainTerm_dice ha ht, .dice count faces⟩

/-! ## The rules -/

theorem begins_of_ne {c : Char} {t : Text} (hgap : isGap c = false) (hclose : c ≠ ')') :
    Begins (c :: t) := by
  refine ⟨?_, ?_⟩
  · simp [skipGap, hgap]
  · intro u hu
    exact hclose (List.cons.inj hu).1

/-- With enough fuel for a rule, there is fuel for the rules that it refers to. -/
theorem exists_read {fuel k : Nat} (h : k + 1 ≤ fuel) (rule : Rule) :
    ∃ n, k ≤ n ∧ read fuel rule = apply (read n) rule := by
  match fuel, h with
  | n + 1, h => exact ⟨n, by omega, rfl⟩

/-- A text that begins a term is read as an operand without a sign. -/
theorem operand_term (self : Rule → Notation.Reader Tree) {c : Char} {cs : Text}
    (hc : startsTerm c = true) {x : Tree} {t : Text} (h : plainTerm (c :: cs) = .ok (x, t)) :
    operand self (c :: cs) = .ok (x, afterTerm t) := by
  have hterm : term self (c :: cs) = .ok (x, t) := by
    rw [← h]
    unfold term
    split
    · rename_i heq
      cases heq
      exact absurd hc (by decide)
    · rfl
  unfold operand
  split
  · rename_i heq
    cases heq
    exact absurd hc (by decide)
  · rename_i heq
    cases heq
    exact absurd hc (by decide)
  · rw [hterm]

/-- A leaf is spelled by what is read for it. -/
theorem lawful_leaf {a : Term} {t : Text} (ha : a.Fits) (ht : reader.Follows t) :
    ∃ x, reader.Item (a.text ++ t) x t ∧ Spells x [.leaf a] := by
  rcases plainTerm_text ha ht with ⟨x, hx, hspells⟩
  rcases exists_text a with ⟨c, cs, htext, hc⟩
  rw [htext] at hx ⊢
  have hbegins : Begins (c :: (cs ++ t)) := by
    refine begins_of_ne (isGap_of_startsTerm hc) ?_
    rintro rfl
    exact absurd hc (by decide)
  refine ⟨x, ⟨hbegins, by simp only [List.cons_append, List.length_cons, List.length_append]; omega, ?_⟩, hspells⟩
  intro fuel hfuel
  have hfuel' : 0 + 1 ≤ fuel := by
    simp only [List.cons_append, List.length_cons] at hfuel
    omega
  rcases exists_read hfuel' .operand with ⟨n, -, hread⟩
  rw [hread]
  exact (operand_term _ hc hx).trans (by rw [afterTerm_of_follows ht])

/-- A sign is spelled in front of what it belongs to. -/
theorem lawful_signed {negative : Bool} {t : Text} {x : Tree} {u : Text}
    {ps : List (Piece Term)} (hitem : reader.Item t x u) (hx : Spells x ps) :
    ∃ y, reader.Item ((if negative then '-' else '+') :: t) y u ∧
      Spells y (.sign negative :: ps) := by
  rcases hitem with ⟨hbegins, hlength, hread⟩
  refine ⟨.signed negative x, ⟨?_, Nat.lt_succ_of_lt hlength, ?_⟩, .signed negative hx⟩
  · cases negative <;> exact begins_of_ne (by decide) (by decide)
  · intro fuel hfuel
    have hfuel' : 4 * t.length + 1 ≤ fuel := by
      simp only [List.length_cons] at hfuel
      omega
    rcases exists_read hfuel' .operand with ⟨n, hn, hstep⟩
    have hinner := hread n hn
    rw [hstep]
    cases negative <;> simp [Notation.apply, operand, hbegins.1, hinner]

/-- Brackets are spelled around what is inside of them. -/
theorem lawful_group {t : Text} {x : Tree} {u : Text} {ps : List (Piece Term)}
    (hclimb : reader.Climb 0 t x (')' :: u)) (hu : reader.Follows u) (hx : Spells x ps) :
    ∃ y, reader.Item ('(' :: t) y u ∧ Spells y (.opening :: (ps ++ [.closing])) := by
  rcases hclimb with ⟨hbegins, hlength, hread⟩
  have hshorter : u.length < t.length := by
    simp only [List.length_cons] at hlength
    omega
  refine ⟨.group x [], ⟨begins_of_ne (by decide) (by decide), by simp only [List.length_cons]; omega, ?_⟩, .group hx⟩
  intro fuel hfuel
  -- the fuel is enough for the operand and for the members in it
  have hfuel' : 4 * t.length + 3 + 1 ≤ fuel := by
    simp only [List.length_cons] at hfuel
    omega
  rcases exists_read hfuel' .operand with ⟨n, hn, hstep⟩
  have hn' : 4 * t.length + 2 + 1 ≤ n := by omega
  rcases exists_read hn' (.members []) with ⟨m, hm, hmembers⟩
  have hclosed : read n (.members []) t = .ok (.group x [], u) := by
    have hinner := hread m (by omega)
    have hclose : skipGap (')' :: u) = ')' :: u := rfl
    rw [hmembers]
    simp [Notation.apply, members, hinner, hclose, closeBracket, operations_of_follows hu]
  have hterm : term (read n) ('(' :: t) = .ok (.group x [], u) := by
    simp only [term, hbegins.1]
    split
    · exact absurd rfl (hbegins.2 _)
    · exact hclosed
  rw [hstep]
  simp [Notation.apply, operand, hterm, afterTerm_of_follows hu]

theorem binary?_sign (op : Infix) (t : Text) :
    binary? (op.operator.sign ++ t) = some (levelInNotation op, .arithmetic op.operator, t) := by
  cases op <;> rfl

/-- Climbing is reading an operand and then the rest of its level. -/
theorem lawful_climb {k : Nat} {t : Text} {x : Tree} {u : Text} {y : Tree} {v : Text}
    (hitem : reader.Item t x u) (hrest : reader.Rest k x u y v) : reader.Climb k t y v := by
  rcases hitem with ⟨hbegins, hlength, hread⟩
  rcases hrest with ⟨hle, hread'⟩
  refine ⟨hbegins, by omega, ?_⟩
  intro fuel hfuel
  rcases exists_read hfuel (.climb k) with ⟨n, hn, hstep⟩
  have hoperand := hread n hn
  have hnext := hread' n (by omega)
  rw [hstep]
  simp only [Notation.apply, hoperand, hnext]

/-- The rest of a level is empty where the chain ends. -/
theorem lawful_ends {k : Nat} {x : Tree} {t : Text} (ht : reader.Ends t) :
    reader.Rest k x t x t := by
  have hnone : binary? t = none := by
    rcases ht with rfl | ⟨u, rfl⟩ <;> rfl
  refine ⟨Nat.le_refl _, ?_⟩
  intro fuel hfuel
  rcases exists_read hfuel (.climbRest k x) with ⟨n, -, hstep⟩
  rw [hstep]
  simp only [Notation.apply, climbRest, hnone]

/-- An operator of a lower level is left to the caller. -/
theorem lawful_low {k : Nat} {x : Tree} {op : Infix} {t : Text} (h : levelInNotation op < k) :
    reader.Rest k x (op.operator.sign ++ t) x (op.operator.sign ++ t) := by
  refine ⟨Nat.le_refl _, ?_⟩
  intro fuel hfuel
  rcases exists_read hfuel (.climbRest k x) with ⟨n, -, hstep⟩
  rw [hstep]
  simp only [Notation.apply, climbRest, binary?_sign, if_neg (Nat.not_le_of_lt h)]

/-- An operator of the level or above takes its right operand. -/
theorem lawful_high {k : Nat} {x : Tree} {op : Infix} {t : Text} {y : Tree} {u : Text} {z : Tree}
    {v : Text} (h : k ≤ levelInNotation op) (hclimb : reader.Climb (levelInNotation op + 1) t y u)
    (hrest : reader.Rest k (.binary (.arithmetic op.operator) x y) u z v) :
    reader.Rest k x (op.operator.sign ++ t) z v := by
  rcases hclimb with ⟨hbegins, hlength, hread⟩
  rcases hrest with ⟨hle, hread'⟩
  have hsign : 1 ≤ op.operator.sign.length := by cases op <;> decide
  refine ⟨by simp only [List.length_append]; omega, ?_⟩
  intro fuel hfuel
  simp only [List.length_append] at hfuel
  rcases exists_read hfuel (.climbRest k x) with ⟨n, hn, hstep⟩
  have hright := hread n (by omega)
  have hnext := hread' n (by omega)
  rw [hstep]
  simp only [Notation.apply, climbRest, binary?_sign, if_pos h, hbegins.1, hright, hnext]

/-- Dice notation is read by precedence climbing. -/
theorem reader_lawful : reader.Lawful where
  leaf := lawful_leaf
  signed := lawful_signed
  group := lawful_group
  climb := lawful_climb
  ends := lawful_ends
  low {k x op t} h := by simpa [reader, Piece.text] using lawful_low (t := t) h
  high {k x op t y u z v} h hclimb hrest := by
    simpa [reader, Piece.text] using lawful_high h hclimb hrest
  binary {op} := Spells.binary op

/-- Dice notation reads the text of an expression, and finds the pieces that it is written with. -/
theorem parse_write {e : Expression Term} (h : ∀ a ∈ e.leaves, a.Fits) :
    ∃ x, parse e.write = .ok x ∧ Spells x e.pieces := by
  rcases reader_lawful.reads h (t := []) (.inl rfl) with ⟨x, ⟨-, -, hread⟩, hspells⟩
  refine ⟨x, ?_, hspells⟩
  rw [List.append_nil] at hread
  have hinput : reader.input e.pieces = e.write := rfl
  rw [hinput] at hread
  rw [parse, hread _ (by omega)]

end Plain

end TabletopChat
