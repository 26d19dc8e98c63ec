import TabletopChat.Arithmetic.Evaluate
import TabletopChat.Proofs.Dice.Plain.Climbing
import TabletopChat.Proofs.Dice.Plain.Tokens

/-!
# Proofs/Dice/Plain/Value — the value of a plain expression over numbers

Arithmetic reads every plain expression. The value of what it reads is an integer, or a fault that does
not repeat the expression; so blanks around the operators do not matter.

- `Counts`       : expressions of integers
- `tokenReader`  : the rules of arithmetic as a climber
- `outcome_textOf` : an expression has the same value with gaps and without
-/

namespace TabletopChat

namespace Plain

open Arithmetic

variable {α : Type}

/-! ## Expressions of integers -/

/-- An expression of natural numbers with signs and operators. -/
inductive Counts : Expr → Prop
  | number (n : Nat) : Counts (.number (.int n))
  | signed (negative : Bool) {x : Expr} (h : Counts x) : Counts (.signed negative x)
  | binary (op : Infix) {x y : Expr} (hx : Counts x) (hy : Counts y) :
    Counts (.binary op.operator x y)

/-! ## Readers -/

/-- Whether a token begins an operand without a sign. -/
inductive Atomic : Token → Prop
  | int (n : Nat) : Atomic (.int n)
  | opening : Atomic (.mark (.opening .round))

inductive Starts : List Token → Prop
  | atom {tok : Token} (h : Atomic tok) (toks : List Token) : Starts (tok :: toks)
  | sign (negative : Bool) (toks : List Token) :
    Starts (.mark (if negative then .minus else .plus) :: toks)

def levelInArithmetic : Infix → Nat
  | .add => 3
  | .sub => 3
  | .mul => 4
  | .floorDiv => 4
  | .mod => 4

/-- The rules of arithmetic. Each token takes at most twelve rules. -/
def tokenReader (value : α → Nat) : Climber α Token Parsed where
  spell p := [p.token value]
  Leaf _ := True
  level := levelInArithmetic
  binary op x y := combine (some op.operator) x y
  Spells x _ := Counts x.expr
  Item t x u := Starts t ∧ u.length < t.length ∧
    ∀ fuel, 12 * t.length ≤ fuel → read fuel .factor t = some (x, u)
  Climb k t x u := Starts t ∧ u.length < t.length ∧
    ∀ fuel, 12 * t.length + 1 ≤ fuel → read fuel (.climb k) t = some (x, u)
  Rest k x t y u := u.length ≤ t.length ∧
    ∀ fuel, 12 * t.length + 1 ≤ fuel → read fuel (.climbRest k x) t = some (y, u)

variable {value : α → Nat}

/-- With enough fuel for a rule, there is fuel for the rules that it refers to. -/
theorem exists_readRule {fuel k : Nat} (h : k + 1 ≤ fuel) (rule : Rule) :
    ∃ n, k ≤ n ∧ read fuel rule = apply (read n) rule := by
  match fuel, h with
  | n + 1, h => exact ⟨n, by omega, rfl⟩

/-! ## The rules -/

theorem trailers_of_follows {t : List Token} (ht : (tokenReader value).Follows t)
    (self : Rule → Arithmetic.Reader) (left : Parsed) : trailers self left t = some (left, t) := by
  rcases ht with (rfl | ⟨u, rfl⟩) | ⟨op, u, rfl⟩
  · rfl
  · rfl
  · cases op <;> rfl

/-- A single token is read as a factor. -/
theorem factor_of_atom {self : Rule → Arithmetic.Reader} {tok : Token} {t u : List Token} {x : Parsed}
    (htok : Atomic tok) (hu : (tokenReader value).Follows u)
    (hatom : atom self (tok :: t) = some (x, u)) (hself : self (.trailers x) u = some (x, u)) :
    factor self (tok :: t) = some (x, u) := by
  have hprimary : primary self (tok :: t) = some (x, u) := by
    rw [primary, hatom]
    exact hself
  -- no power follows
  rcases hu with (rfl | ⟨v, rfl⟩) | ⟨op, v, rfl⟩
  · cases htok <;> simp only [factor, hprimary] <;> rfl
  · cases htok <;> simp only [factor, hprimary] <;> rfl
  · cases htok <;> cases op <;> simp only [factor, hprimary] <;> rfl

/-- A number is read as itself. -/
theorem number_item (n : Nat) {t : List Token} (ht : (tokenReader value).Follows t) :
    (tokenReader value).Item (.int n :: t) ⟨.number (.int n), false⟩ t := by
  refine ⟨.atom (.int _) t, Nat.lt_succ_self _, ?_⟩
  intro fuel hfuel
  have hfuel' : 1 + 1 ≤ fuel := by
    simp only [List.length_cons] at hfuel
    omega
  rcases exists_readRule hfuel' .factor with ⟨m, hm, hstep⟩
  rcases exists_readRule (k := 0) hm (.trailers ⟨.number (.int n), false⟩) with ⟨l, -, htrailers⟩
  rw [hstep]
  refine factor_of_atom (.int _) ht rfl ?_
  rw [htrailers]
  exact trailers_of_follows ht _ _

theorem lawful_number (a : α) {t : List Token} (ht : (tokenReader value).Follows t) :
    ∃ x, (tokenReader value).Item (.int (value a) :: t) x t ∧ Counts x.expr :=
  ⟨_, number_item (value a) ht, .number _⟩

/-- A sign is read with the operand behind it. -/
theorem sign_item {negative : Bool} {t u : List Token} {x : Parsed}
    (hitem : (tokenReader value).Item t x u) :
    (tokenReader value).Item (.mark (if negative then .minus else .plus) :: t)
      ⟨.signed negative x.expr, false⟩ u := by
  rcases hitem with ⟨-, hlength, hread⟩
  refine ⟨.sign negative t, Nat.lt_succ_of_lt hlength, ?_⟩
  intro fuel hfuel
  have hfuel' : 12 * t.length + 1 ≤ fuel := by
    simp only [List.length_cons] at hfuel
    omega
  rcases exists_readRule hfuel' .factor with ⟨n, hn, hstep⟩
  have hinner := hread n hn
  rw [hstep]
  cases negative <;> simp [Arithmetic.apply, factor, hinner]

theorem lawful_sign {negative : Bool} {t u : List Token} {x : Parsed}
    (hitem : (tokenReader value).Item t x u) (hx : Counts x.expr) :
    ∃ y, (tokenReader value).Item (.mark (if negative then .minus else .plus) :: t) y u ∧
      Counts y.expr :=
  ⟨_, sign_item hitem, .signed negative hx⟩

/-- Operands that a keyword joins, where no keyword follows. -/
theorem joined_of_ends {self : Rule → Arithmetic.Reader} {k : Keyword} {inner outer : Rule}
    {t u : List Token} {x : Parsed} (hu : (tokenReader value).Ends u)
    (h : self inner t = some (x, u)) : joined self k inner outer t = some (x, u) := by
  rw [joined, h]
  rcases hu with rfl | ⟨v, rfl⟩ <;> rfl

/-- Behind a whole expression, no operator and no keyword goes on with it. -/
theorem read_expression {t u : List Token} {x : Parsed} (hu : (tokenReader value).Ends u)
    (hclimb : (tokenReader value).Climb 0 t x u) (fuel : Nat)
    (hfuel : 12 * t.length + 6 ≤ fuel) : read fuel .expression t = some (x, u) := by
  rcases hclimb with ⟨hstarts, -, hread⟩
  -- each rule between an expression and its chain takes one step of depth and no token
  have hcomparison (n : Nat) (hn : 12 * t.length + 1 + 1 ≤ n) :
      read n .comparison t = some (x, u) := by
    rcases exists_readRule hn .comparison with ⟨m, hm, hstep⟩
    rw [hstep, Arithmetic.apply, comparison, hread m hm]
    rcases hu with rfl | ⟨v, rfl⟩ <;> rfl
  have hinversion (n : Nat) (hn : 12 * t.length + 2 + 1 ≤ n) :
      read n .inversion t = some (x, u) := by
    rcases exists_readRule hn .inversion with ⟨m, hm, hstep⟩
    rw [hstep, Arithmetic.apply, ← hcomparison m hm]
    cases hstarts with
    | atom htok toks => cases htok <;> rfl
    | sign negative toks => cases negative <;> rfl
  have hconjunction (n : Nat) (hn : 12 * t.length + 3 + 1 ≤ n) :
      read n .conjunction t = some (x, u) := by
    rcases exists_readRule hn .conjunction with ⟨m, hm, hstep⟩
    rw [hstep]
    exact joined_of_ends hu (hinversion m hm)
  have hdisjunction (n : Nat) (hn : 12 * t.length + 4 + 1 ≤ n) :
      read n .disjunction t = some (x, u) := by
    rcases exists_readRule hn .disjunction with ⟨m, hm, hstep⟩
    rw [hstep]
    exact joined_of_ends hu (hconjunction m hm)
  -- what a chain starts with is no `lambda`, and what ends it is no `if`
  rcases exists_readRule hfuel .expression with ⟨m, hm, hstep⟩
  have hexpression : expression (read m) t = some (x, u) := by
    have hread := hdisjunction m hm
    have hbind : ∀ f : Parsed × List Token → Option (Parsed × List Token),
        (read m .disjunction t).bind f = f (x, u) := by
      intro f
      rw [hread]
      rfl
    rcases hu with rfl | ⟨v, rfl⟩
    · cases hstarts with
      | atom htok toks => cases htok <;> exact hbind _
      | sign negative toks => cases negative <;> exact hbind _
    · cases hstarts with
      | atom htok toks => cases htok <;> exact hbind _
      | sign negative toks => cases negative <;> exact hbind _
  rw [hstep, Arithmetic.apply, hexpression]

/-- An item of a list that is a whole expression. -/
theorem item_of_starts {self : Rule → Arithmetic.Reader} {style : ItemStyle} {t : List Token}
    (h : Starts t) : item self style t = self .expression t := by
  cases h with
  | atom htok toks => cases htok <;> cases style <;> rfl
  | sign negative toks => cases negative <;> cases style <;> rfl

/-- What is in brackets is read as it is without them. -/
theorem brackets_item {t u : List Token} {x : Parsed}
    (hclimb : (tokenReader value).Climb 0 t x (.mark (.closing .round) :: u))
    (hu : (tokenReader value).Follows u) :
    (tokenReader value).Item (.mark (.opening .round) :: t) x u := by
  have hends : (tokenReader value).Ends (.mark (.closing .round) :: u) := .inr ⟨u, rfl⟩
  have hexpression := read_expression hends hclimb
  rcases hclimb with ⟨hstarts, hlength, -⟩
  have hshorter : u.length < t.length := by
    simp only [List.length_cons] at hlength
    omega
  refine ⟨.atom .opening t, by simp only [List.length_cons]; omega, ?_⟩
  intro fuel hfuel
  have hfuel' : 12 * t.length + 6 + 1 ≤ fuel := by
    simp only [List.length_cons] at hfuel
    omega
  rcases exists_readRule hfuel' .factor with ⟨n, hn, hstep⟩
  -- behind the closing bracket no trailer follows
  rcases exists_readRule (k := 0) (by omega : 0 + 1 ≤ n) (.trailers x) with ⟨m, -, htrailers⟩
  have hround : inRound (read n) t = some (x, u) := by
    have hbind : ∀ f : Parsed × List Token → Option (Parsed × List Token),
        (item (read n) .named t).bind f = f (x, .mark (.closing .round) :: u) := by
      intro f
      rw [item_of_starts hstarts, hexpression n hn]
      rfl
    cases hstarts with
    | atom htok toks => cases htok <;> exact hbind _
    | sign negative toks => cases negative <;> exact hbind _
  rw [hstep]
  refine factor_of_atom .opening hu hround ?_
  rw [htrailers]
  exact trailers_of_follows hu _ _

theorem lawful_brackets {t u : List Token} {x : Parsed}
    (hclimb : (tokenReader value).Climb 0 t x (.mark (.closing .round) :: u))
    (hu : (tokenReader value).Follows u) (hx : Counts x.expr) :
    ∃ y, (tokenReader value).Item (.mark (.opening .round) :: t) y u ∧ Counts y.expr :=
  ⟨x, brackets_item hclimb hu, hx⟩

/-- An operand and the operators behind it. -/
theorem lawful_climbing {k : Nat} {t u v : List Token} {x y : Parsed}
    (hitem : (tokenReader value).Item t x u) (hrest : (tokenReader value).Rest k x u y v) :
    (tokenReader value).Climb k t y v := by
  rcases hitem with ⟨hstarts, hlength, hread⟩
  rcases hrest with ⟨hle, hread'⟩
  refine ⟨hstarts, by omega, ?_⟩
  intro fuel hfuel
  rcases exists_readRule hfuel (.climb k) with ⟨n, hn, hstep⟩
  have hnext := hread' n (by omega)
  rw [hstep]
  simp only [Arithmetic.apply, hread n hn, Option.bind_some, hnext]

theorem lawful_end {k : Nat} {x : Parsed} {t : List Token} (ht : (tokenReader value).Ends t) :
    (tokenReader value).Rest k x t x t := by
  refine ⟨Nat.le_refl _, ?_⟩
  intro fuel hfuel
  rcases exists_readRule hfuel (.climbRest k x) with ⟨n, -, hstep⟩
  rw [hstep]
  rcases ht with rfl | ⟨u, rfl⟩ <;> rfl

theorem binaryOperator?_mark (op : Infix) :
    binaryOperator? op.mark = some (levelInArithmetic op, some op.operator) := by
  cases op <;> rfl

/-- An operator that binds less tightly is left to the caller. -/
theorem lawful_looser {k : Nat} {x : Parsed} {op : Infix} {t : List Token}
    (h : levelInArithmetic op < k) :
    (tokenReader value).Rest k x (.mark op.mark :: t) x (.mark op.mark :: t) := by
  refine ⟨Nat.le_refl _, ?_⟩
  intro fuel hfuel
  rcases exists_readRule hfuel (.climbRest k x) with ⟨n, -, hstep⟩
  rw [hstep]
  simp only [Arithmetic.apply, climbRest, binaryOperator?_mark, if_neg (Nat.not_le_of_lt h)]

/-- An operator that binds tight enough takes its operand before the rest goes on. -/
theorem lawful_tighter {k : Nat} {x y z : Parsed} {op : Infix} {t u v : List Token}
    (h : k ≤ levelInArithmetic op)
    (hclimb : (tokenReader value).Climb (levelInArithmetic op + 1) t y u)
    (hrest : (tokenReader value).Rest k (combine (some op.operator) x y) u z v) :
    (tokenReader value).Rest k x (.mark op.mark :: t) z v := by
  rcases hclimb with ⟨-, hlength, hread⟩
  rcases hrest with ⟨hle, hread'⟩
  refine ⟨by simp only [List.length_cons]; omega, ?_⟩
  intro fuel hfuel
  simp only [List.length_cons] at hfuel
  rcases exists_readRule hfuel (.climbRest k x) with ⟨n, hn, hstep⟩
  have hright := hread n (by omega)
  have hnext := hread' n (by omega)
  rw [hstep]
  simp only [Arithmetic.apply, climbRest, binaryOperator?_mark, if_pos h, hright, Option.bind_some,
    hnext]

/-- Arithmetic is read by precedence climbing. -/
theorem tokenReader_lawful (value : α → Nat) : (tokenReader value).Lawful where
  leaf {a _} _ ht := lawful_number a ht
  signed := lawful_sign
  group := lawful_brackets
  climb := lawful_climbing
  ends := lawful_end
  low := lawful_looser
  high := lawful_tighter
  binary {op} := Counts.binary op

/-! ## Reading a text -/

section Texts

variable {gap : Text} {leafText : α → Text}

/-- Each piece takes a character at least. -/
theorem length_le_textOf (gap : Text) {ps : List (Piece α)} (h : Numeric leafText value (leavesOf ps)) :
    ps.length ≤ (textOf gap leafText ps).length := by
  induction ps with
  | nil => exact Nat.le_refl _
  | cons p ps ih =>
    have hps : Numeric leafText value (leavesOf ps) := by
      intro a ha
      refine h a ?_
      cases p <;> simp [ha]
    have hp : 1 ≤ (p.text gap leafText).length := by
      cases p with
      | leaf a =>
        have ha := (h a (by simp)).1
        rw [Piece.text, ha]
        exact List.length_pos_iff.mpr (Text.ofNat_ne_nil _)
      | operator op => cases op <;> simp [Piece.text, Infix.operator, Operator.sign] <;> omega
      | _ => simp [Piece.text]
    have hrest := ih hps
    simp only [textOf_cons, List.length_append, List.length_cons]
    omega

theorem input_tokenReader (ps : List (Piece α)) :
    (tokenReader value).input ps = ps.map (Piece.token value) := by
  induction ps with
  | nil => rfl
  | cons p ps ih => rw [Climber.input_cons, ih]; rfl

/-- A text is read as the tokens of its pieces are. -/
theorem parse?_of_climb {e : Expression α} (h : Numeric leafText value e.leaves)
    (hdepth : e.depth ≤ maxDepth) (hgap : isGapText gap) {x : Parsed}
    (hclimb : (tokenReader value).Climb 0 (e.pieces.map (Piece.token value)) x []) :
    parse? (textOf gap leafText e.pieces) = some x.expr := by
  have hlength := length_le_textOf gap h
  have hread := read_expression (.inl rfl) hclimb
    (readingDepth (textOf gap leafText e.pieces)) (by
      simp only [List.length_map, readingDepth]
      omega)
  have hitem : expressions (read (readingDepth (textOf gap leafText e.pieces)))
      (e.pieces.map (Piece.token value)) = some (x, []) := by
    rw [expressions, item_of_starts hclimb.1, hread]
    rfl
  rw [parse?, tokens?_textOf hgap h hdepth, Option.bind_some, hitem]

/-- What is read does not depend on the gaps. -/
theorem parse?_textOf {e : Expression α} (h : Numeric leafText value e.leaves)
    (hdepth : e.depth ≤ maxDepth) :
    ∃ x, Counts x ∧ ∀ gap, isGapText gap → parse? (textOf gap leafText e.pieces) = some x := by
  rcases (tokenReader_lawful value).reads (e := e) (fun _ _ => trivial) (t := []) (.inl rfl) with
    ⟨x, hclimb, hx⟩
  rw [List.append_nil, input_tokenReader] at hclimb
  exact ⟨x.expr, hx, fun gap hgap => parse?_of_climb h hdepth hgap hclimb⟩

/-- Replacing a letter that does not occur changes nothing. -/
theorem replaceFrom_eq {c : Char} {new t : Text} (h : c ∉ t) : Text.replaceFrom [c] new 0 t = t := by
  induction t with
  | nil => rfl
  | cons d ds ih =>
    have hd : ¬ c = d := fun he => h (he ▸ .head _)
    have hstart : Text.startsWith [c] (d :: ds) = false := by
      simp [Text.startsWith, List.isPrefixOf, hd]
    rw [Text.replaceFrom, hstart, if_neg (by decide), ih fun hmem => h (.tail _ hmem)]

/-- Nothing has to be prepared in a plain expression. -/
theorem prepared_textOf (hgap : isGapText gap) {e : Expression α}
    (h : Numeric leafText value e.leaves) :
    prepared (textOf gap leafText e.pieces) = textOf gap leafText e.pieces := by
  have hsolid : ∀ a ∈ e.leaves, Solid (leafText a) := by
    intro a ha
    rw [(h a ha).1]
    exact solid_ofNat _
  have hpower : '^' ∉ textOf gap leafText e.pieces := fun hmem =>
    absurd (isPlain_of_mem hgap h hmem) (by decide)
  rw [prepared, strip_textOf gap hsolid, Text.replaceAll, if_neg (by decide),
    replaceFrom_eq hpower]

/-- The value of a text is that of the expression that is read. -/
theorem evaluate_textOf {e : Expression α} (h : Numeric leafText value e.leaves)
    (hgap : isGapText gap) {x : Expr} (hparse : parse? (textOf gap leafText e.pieces) = some x) :
    evaluate (textOf gap leafText e.pieces) = x.eval := by
  rcases exists_firstChar gap h with ⟨c, cs, htext, -⟩
  have hne : ¬ textOf gap leafText e.pieces = [] := by simp [htext]
  rw [evaluate, prepared_textOf hgap h, if_neg hne, hparse]

theorem contains_nul (hgap : isGapText gap) {e : Expression α}
    (h : Numeric leafText value e.leaves) :
    (textOf gap leafText e.pieces).contains '\x00' = false := by
  rw [← Bool.not_eq_true, List.contains_iff_mem]
  exact fun hmem => absurd (isPlain_of_mem hgap h hmem) (by decide)

/-! ## Values -/

/-- An integer, or a fault whose wording does not repeat the expression. -/
inductive Settled : Except Fault Number → Prop
  | int (n : Int) : Settled (.ok (.int n))
  | divisionByZero : Settled (.error .divisionByZero)
  | tooLarge : Settled (.error .tooLarge)

theorem settled_checked (n : Int) : Settled (checked (.int n)) := by
  rw [checked]
  split
  · exact .tooLarge
  · exact .int n

/-- An integer or a division by zero, which is what operators on integers lead to. -/
inductive Whole : Except Fault Number → Prop
  | int (n : Int) : Whole (.ok (.int n))
  | divisionByZero : Whole (.error .divisionByZero)

/-- The operators of plain expressions give integers between integers. -/
theorem whole_onInts (op : Infix) (a b : Int) : Whole (op.operator.onInts a b) := by
  cases op with
  | add => exact .int _
  | sub => exact .int _
  | mul => exact .int _
  | floorDiv =>
    by_cases hb : b = 0
    · simp only [Infix.operator, Operator.onInts, if_pos hb]
      exact .divisionByZero
    · simp only [Infix.operator, Operator.onInts, if_neg hb]
      exact .int _
  | mod =>
    by_cases hb : b = 0
    · simp only [Infix.operator, Operator.onInts, if_pos hb]
      exact .divisionByZero
    · simp only [Infix.operator, Operator.onInts, if_neg hb]
      exact .int _

theorem Infix.apply_ints (op : Infix) (a b : Int) :
    op.operator.apply (.int a) (.int b) = op.operator.onInts a b := by
  cases op <;> rfl

/-- Operators on integers are carried out exactly, and the result is checked. -/
theorem operate_ints (op : Infix) (a b : Int) :
    operate op.operator (.int a) (.int b) = (op.operator.onInts a b).bind checked := by
  have hpow : ¬ op.operator = .pow := by cases op <;> decide
  rw [operate, if_neg hpow, op.apply_ints]
  cases op.operator.onInts a b <;> rfl

theorem settled_operate (op : Infix) (a b : Int) : Settled (operate op.operator (.int a) (.int b)) := by
  have hwhole := whole_onInts op a b
  rw [operate_ints]
  generalize op.operator.onInts a b = r at hwhole
  cases hwhole with
  | int n => exact settled_checked n
  | divisionByZero => exact .divisionByZero

/-- An expression of integers has an integer as its value, or a fault that is its own. -/
theorem Counts.settled {x : Expr} (h : Counts x) : Settled x.eval := by
  induction h with
  | number n => exact settled_checked _
  | signed negative hx ih =>
    rw [Expr.eval]
    generalize Expr.eval _ = r at ih
    cases ih with
    | int n => exact settled_checked _
    | divisionByZero => exact .divisionByZero
    | tooLarge => exact .tooLarge
  | binary op hx hy ihx ihy =>
    rw [Expr.eval]
    generalize Expr.eval _ = r at ihx
    generalize Expr.eval _ = s at ihy
    cases ihx with
    | divisionByZero => exact .divisionByZero
    | tooLarge => exact .tooLarge
    -- the operator counts only if both operands come to a number
    | int a =>
      cases ihy with
      | divisionByZero => exact .divisionByZero
      | tooLarge => exact .tooLarge
      | int b => exact settled_operate op a b

theorem Settled.message {f : Fault} (h : Settled (.error f)) (t u : Text) :
    f.message t = f.message u := by
  cases h <;> rfl

/-- The text of an expression is not refused as a whole. -/
theorem outcome_ne_unreadable (hgap : isGapText gap) {e : Expression α}
    (h : Numeric leafText value e.leaves) :
    outcome (textOf gap leafText e.pieces) ≠ .unreadable := by
  rw [outcome, contains_nul hgap h, if_neg (by decide)]
  split <;> exact nofun

/-- Gaps around operators do not change what an expression is worth. -/
theorem outcome_textOf (hgap : isGapText gap) {e : Expression α}
    (h : Numeric leafText value e.leaves) (hdepth : e.depth ≤ maxDepth) :
    outcome (textOf gap leafText e.pieces) = outcome (textOf [] leafText e.pieces) := by
  rcases parse?_textOf h hdepth with ⟨x, hx, hparse⟩
  have hvalue (gap : Text) (hgap : isGapText gap) :
      evaluate (textOf gap leafText e.pieces) = x.eval := evaluate_textOf h hgap (hparse gap hgap)
  have hempty : isGapText [] := .inl rfl
  rw [outcome, outcome, contains_nul hgap h, contains_nul hempty h, if_neg (by decide),
    if_neg (by decide), hvalue gap hgap, hvalue [] hempty]
  have hsettled := hx.settled
  cases hresult : x.eval with
  | ok v => rfl
  | error f =>
    rw [hresult] at hsettled
    exact congrArg Outcome.fault (hsettled.message _ _)

end Texts

end Plain

end TabletopChat
