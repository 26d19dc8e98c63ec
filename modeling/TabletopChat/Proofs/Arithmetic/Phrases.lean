import TabletopChat.Arithmetic.Evaluate

/-!
# Proofs/Arithmetic/Phrases — the expressions that can have a value

Most of what can be read as an expression has no value: literals, forms, calls of what is no name. What
has one is made of numbers, names, signs, operators, brackets and calls, and for these the grammar is
small. A phrase tells how a part of such an expression is read, without fuel and without the rules for
everything else.

- `Valued`             : expressions that are made of nothing but parts that can have a value
- `Phrase`, `Reads`    : the small grammar, as a relation
- `Rule.Sound`, `sound` : what the rules read is read by phrases
-/

namespace TabletopChat

namespace Arithmetic

/-! ## Expressions that can have a value -/

/-- An expression of numbers, names, signs, operators and calls of names with arguments by position. -/
inductive Valued : Expr → Prop
  | number (v : Number) : Valued (.number v)
  | symbol (name : Text) : Valued (.symbol name)
  | signed (negative : Bool) {e : Expr} (h : Valued e) : Valued (.signed negative e)
  | binary (op : Operator) {left right : Expr} (hl : Valued left) (hr : Valued right) :
    Valued (.binary op left right)
  | call (name : Text) {args : List Expr} (h : ∀ e ∈ args, Valued e) :
    Valued (.call (some name) false args)

/-- A function that is called has a name, and no argument of it has one. -/
theorem callee_ok {function : Option Text} {named : Bool} {f : Function}
    (h : callee function named = .ok f) : ∃ name, function = some name ∧ named = false := by
  unfold callee at h
  split at h
  · cases h
  · rename_i name
    split at h
    · cases h
    · cases named
      · exact ⟨name, rfl, rfl⟩
      · cases h

mutual

/-- What has a value is made of parts that can have one. -/
theorem Expr.valued_of_eval : (e : Expr) → ∀ {v : Number}, e.eval = .ok v → Valued e
  | .number w, _, _ => .number w
  | .literal w, _, h => by
      rw [Expr.eval] at h
      cases h
  | .symbol name, _, _ => .symbol name
  | .signed negative e, _, h => by
      rw [Expr.eval] at h
      split at h
      · cases h
      · rename_i he
        exact .signed negative (e.valued_of_eval he)
  | .binary op left right, _, h => by
      rw [Expr.eval] at h
      split at h
      · cases h
      · rename_i hleft
        split at h
        · cases h
        · rename_i hright
          exact .binary op (left.valued_of_eval hleft) (right.valued_of_eval hright)
  | .call function named args, _, h => by
      rw [Expr.eval] at h
      split at h
      · cases h
      · rename_i hcallee
        split at h
        · cases h
        · rename_i hargs
          obtain ⟨name, rfl, rfl⟩ := callee_ok hcallee
          exact .call name (valued_of_evalAll args hargs)
  | .form f, _, h => by
      rw [Expr.eval] at h
      cases h

/-- Expressions from left to right have values if each of them has one. -/
theorem valued_of_evalAll : (es : List Expr) → ∀ {vs : List Number}, evalAll es = .ok vs → ∀ e ∈ es, Valued e
  | [], _, _ => List.forall_mem_nil _
  | e :: es, _, h => by
      rw [evalAll] at h
      split at h
      · cases h
      · rename_i he
        split at h
        · cases h
        · rename_i hes
          exact List.forall_mem_cons.mpr ⟨e.valued_of_eval he, valued_of_evalAll es hes⟩

end

theorem not_valued_form (f : Form) : ¬ Valued (.form f) := nofun

theorem not_valued_literal (v : Literal) : ¬ Valued (.literal v) := nofun

theorem not_valued_combine_none (left right : Parsed) : ¬ Valued (combine none left right).expr := nofun

/-! ## Phrases -/

inductive Phrase
  | expression
  | climb (level : Nat)
  | climbRest (level : Nat) (left : Parsed)
  | factor
  | power (base : Parsed)
  | trailers (left : Parsed)
  | arguments (function : Option Text) (arguments : List Expr)

def Token.operand? : Token → Option Parsed
  | .word name => some ⟨.symbol (Text.compatible name), true⟩
  | .int n => some ⟨.number (.int n), false⟩
  | .real x => some ⟨.number (.real x), false⟩
  | _ => none

def leadingOperator? : List Token → Option (Nat × Option Operator)
  | .mark m :: _ => binaryOperator? m
  | _ => none

/-- Whether tokens begin with a bracket or a dot, which belongs to what stands in front of it. -/
def startsTrailer : List Token → Bool
  | .mark .dot :: _ => true
  | .mark (.opening .round) :: _ => true
  | .mark (.opening .square) :: _ => true
  | _ => false

def startsWordAnd (m : Mark) : List Token → Bool
  | .word _ :: .mark n :: _ => decide (m = n)
  | _ => false

/-- What does not go on with an expression that stands in front of it. -/
structure Rests (toks : List Token) : Prop where
  comparison : comparison? toks = none
  conjunction : expectWord .wAnd toks = none
  disjunction : expectWord .wOr toks = none
  conditional : expectWord .wIf toks = none

/-- The call that is read with these arguments so far, the last one first. -/
abbrev callOf (function : Option Text) (args : List Expr) : Call := ⟨function, .positional, false, args⟩

/-- How a phrase is read: what it begins with, what has been read, what is left. -/
inductive Reads : Phrase → List Token → Parsed → List Token → Prop
  | expression {toks rest : List Token} {p : Parsed} :
      Reads (.climb 0) toks p rest → Rests rest → Reads .expression toks p rest
  | climb {level : Nat} {toks mid rest : List Token} {p q : Parsed} :
      Reads .factor toks p mid → Reads (.climbRest level p) mid q rest → Reads (.climb level) toks q rest
  | climbRest_end {level : Nat} {left : Parsed} {toks : List Token} :
      (∀ x ∈ leadingOperator? toks, x.1 < level) → Reads (.climbRest level left) toks left toks
  | climbRest_more {level k : Nat} {m : Mark} {op : Operator} {left right p : Parsed}
      {toks mid rest : List Token} :
      binaryOperator? m = some (k, some op) → level ≤ k → Reads (.climb (k + 1)) toks right mid →
      Reads (.climbRest level (combine (some op) left right)) mid p rest →
      Reads (.climbRest level left) (.mark m :: toks) p rest
  | sign (negative : Bool) {toks rest : List Token} {p : Parsed} :
      Reads .factor toks p rest →
      Reads .factor (.mark (if negative then .minus else .plus) :: toks) ⟨.signed negative p.expr, false⟩ rest
  | operand {tok : Token} {a p q : Parsed} {toks mid rest : List Token} :
      tok.operand? = some a → Reads (.trailers a) toks p mid → Reads (.power p) mid q rest →
      Reads .factor (tok :: toks) q rest
  | round {p q r : Parsed} {toks mid mid' rest : List Token} :
      startsWordAnd .walrus toks = false →
      Reads .expression toks p (.mark (.closing .round) :: mid) → Reads (.trailers p) mid q mid' →
      Reads (.power q) mid' r rest → Reads .factor (.mark (.opening .round) :: toks) r rest
  | power_end {base : Parsed} {toks : List Token} :
      expect .doubleStar toks = none → Reads (.power base) toks base toks
  | power_more {base p : Parsed} {toks rest : List Token} :
      Reads .factor toks p rest →
      Reads (.power base) (.mark .doubleStar :: toks) (combine (some .pow) base p) rest
  | trailers_end {left : Parsed} {toks : List Token} :
      startsTrailer toks = false → Reads (.trailers left) toks left toks
  | call {left p q : Parsed} {toks mid rest : List Token} :
      Reads (.arguments left.expr.name? []) toks p mid → Reads (.trailers p) mid q rest →
      Reads (.trailers left) (.mark (.opening .round) :: toks) q rest
  | arguments_end {function : Option Text} {args : List Expr} {rest : List Token} :
      Reads (.arguments function args) (.mark (.closing .round) :: rest)
        ⟨(callOf function args).expr, false⟩ rest
  | arguments_last {function : Option Text} {args : List Expr} {p : Parsed} {toks rest : List Token} :
      startsWordAnd .walrus toks = false → startsWordAnd .equals toks = false →
      Reads .expression toks p (.mark (.closing .round) :: rest) →
      Reads (.arguments function args) toks ⟨(callOf function (p.expr :: args)).expr, false⟩ rest
  | arguments_more {function : Option Text} {args : List Expr} {p q : Parsed}
      {toks mid rest : List Token} :
      startsWordAnd .walrus toks = false → startsWordAnd .equals toks = false →
      Reads .expression toks p (.mark .comma :: mid) →
      Reads (.arguments function (p.expr :: args)) mid q rest → Reads (.arguments function args) toks q rest

/-! ## What the rules read -/

/-- What is known of an expression that can have a value, if a rule has read it. -/
def Rule.Sound : Rule → List Token → Parsed → List Token → Prop
  | .expression, toks, p, rest => Reads .expression toks p rest
  | .disjunction, toks, p, rest =>
    Reads (.climb 0) toks p rest ∧ comparison? rest = none ∧ expectWord .wAnd rest = none ∧
      expectWord .wOr rest = none
  | .conjunction, toks, p, rest =>
    Reads (.climb 0) toks p rest ∧ comparison? rest = none ∧ expectWord .wAnd rest = none
  | .inversion, toks, p, rest => Reads (.climb 0) toks p rest ∧ comparison? rest = none
  | .comparison, toks, p, rest => Reads (.climb 0) toks p rest ∧ comparison? rest = none
  | .climb level, toks, p, rest => Reads (.climb level) toks p rest
  | .climbRest level left, toks, p, rest => Valued left.expr ∧ Reads (.climbRest level left) toks p rest
  | .factor, toks, p, rest => Reads .factor toks p rest
  | .trailers left, toks, p, rest => Valued left.expr ∧ Reads (.trailers left) toks p rest
  | .arguments c, toks, p, rest =>
    c.function.isSome = true ∧ c.named = false ∧ (∀ e ∈ c.arguments, Valued e) ∧
      (c.stage = .positional → Reads (.arguments c.function c.arguments) toks p rest)
  -- these rules read nothing but forms
  | .items _ _, _, _, _ => False
  | .pairs, _, _, _ => False
  | .parameters _, _, _, _ => False
  -- what these rules read is not kept
  | .slices, _, _, _ => True
  | .targets, _, _, _ => True
  | .clauses, _, _, _ => True
  | .conditions, _, _, _ => True

/-- A sign that is expected and found is the first token. -/
theorem expect_eq_some {m : Mark} {toks rest : List Token} (h : expect m toks = some rest) :
    toks = .mark m :: rest := by
  unfold expect at h
  split at h
  · split at h
    · rename_i hm
      cases h
      rw [hm]
    · cases h
  · cases h

theorem expect_eq_none {m : Mark} {toks : List Token} (h : ∀ rest, toks = .mark m :: rest → False) :
    expect m toks = none := by
  unfold expect
  split
  · split
    · rename_i rest hm
      exact (h rest (by rw [hm])).elim
    · rfl
  · rfl

theorem expectWord_eq_none {k : Keyword} {toks : List Token}
    (h : ∀ rest, toks = .keyword k :: rest → False) : expectWord k toks = none := by
  unfold expectWord
  split
  · split
    · rename_i rest hk
      exact (h rest (by rw [hk])).elim
    · rfl
  · rfl

theorem startsWordAnd_eq_false {m : Mark} {toks : List Token}
    (h : ∀ name rest, toks = .word name :: .mark m :: rest → False) : startsWordAnd m toks = false := by
  unfold startsWordAnd
  split
  · rename_i name n rest
    exact decide_eq_false fun hm => h name rest (by rw [hm])
  · rfl

theorem valued_of_call {c : Call} (h : Valued c.expr) :
    c.function.isSome = true ∧ c.named = false ∧ ∀ e ∈ c.arguments, Valued e := by
  obtain ⟨function, stage, named, args⟩ := c
  cases h with
  | call name hargs => exact ⟨rfl, rfl, fun e he => hargs e (List.mem_reverse.2 he)⟩

section Rules

variable {self : Rule → Reader}
  (hself : ∀ rule toks p rest, self rule toks = some (p, rest) → Valued p.expr → rule.Sound toks p rest)
  {toks rest : List Token} {p : Parsed}

include hself

/-- An expression with a value has no condition behind it. -/
theorem expression_sound (h : expression self toks = some (p, rest)) (hp : Valued p.expr) :
    Reads .expression toks p rest := by
  unfold expression at h
  split at h
  · exact (hself _ _ _ _ h hp).elim
  · obtain ⟨⟨q, mid⟩, hread, h⟩ := Option.bind_eq_some_iff.1 h
    dsimp only at h
    split at h
    · obtain ⟨⟨_, _⟩, -, h⟩ := Option.bind_eq_some_iff.1 h
      obtain ⟨_, -, h⟩ := Option.bind_eq_some_iff.1 h
      obtain ⟨⟨_, _⟩, -, h⟩ := Option.map_eq_some_iff.1 h
      cases h
      exact (not_valued_form _ hp).elim
    · rename_i hif
      cases h
      obtain ⟨hclimb, hcomparison, hand, hor⟩ := hself _ _ _ _ hread hp
      exact .expression hclimb ⟨hcomparison, hand, hor, expectWord_eq_none hif⟩

/-- An expression with a value is no chain joined by a word: its first operand is all of it. -/
theorem joined_sound {k : Keyword} {inner outer : Rule} (h : joined self k inner outer toks = some (p, rest))
    (hp : Valued p.expr) : inner.Sound toks p rest ∧ expectWord k rest = none := by
  obtain ⟨⟨q, mid⟩, hread, h⟩ := Option.bind_eq_some_iff.1 h
  dsimp only at h
  split at h
  · obtain ⟨⟨_, _⟩, -, h⟩ := Option.map_eq_some_iff.1 h
    cases h
    exact (not_valued_form _ hp).elim
  · cases h
    exact ⟨hself _ _ _ _ hread hp, ‹_›⟩

/-- A negation has no value, so that nothing was negated. -/
theorem inversion_sound (h : inversion self toks = some (p, rest)) (hp : Valued p.expr) :
    Rule.Sound .comparison toks p rest := by
  unfold inversion at h
  split at h
  · obtain ⟨⟨_, _⟩, -, h⟩ := Option.map_eq_some_iff.1 h
    cases h
    exact (not_valued_form _ hp).elim
  · exact hself _ _ _ _ h hp

/-- A comparison has no value, so that nothing was compared. -/
theorem comparison_sound (h : comparison self toks = some (p, rest)) (hp : Valued p.expr) :
    Rule.Sound .comparison toks p rest := by
  obtain ⟨⟨q, mid⟩, hread, h⟩ := Option.bind_eq_some_iff.1 h
  dsimp only at h
  split at h
  · obtain ⟨⟨_, _⟩, -, h⟩ := Option.map_eq_some_iff.1 h
    cases h
    exact (not_valued_form _ hp).elim
  · cases h
    exact ⟨hself _ _ _ _ hread hp, ‹_›⟩

/-- Behind a left operand, either nothing more of the level is read, or an operator with its right operand
is. -/
theorem climbRest_sound {level : Nat} {left : Parsed} (h : climbRest self level left toks = some (p, rest))
    (hp : Valued p.expr) : Rule.Sound (.climbRest level left) toks p rest := by
  unfold climbRest at h
  split at h
  · rename_i m more
    split at h
    · rename_i k op hop
      split at h
      · rename_i hlevel
        -- the operator binds tight enough: its operand is read, and the rest with both in hand
        obtain ⟨⟨right, mid⟩, hright, h⟩ := Option.bind_eq_some_iff.1 h
        obtain ⟨hcombined, hrest⟩ := hself _ _ _ _ h hp
        cases op with
        | none => exact (not_valued_combine_none _ _ hcombined).elim
        | some op =>
            cases hcombined with
            | binary _ hl hr => exact ⟨hl, .climbRest_more hop hlevel (hself _ _ _ _ hright hr) hrest⟩
      · rename_i hlevel
        -- it does not, and the chain ends in front of it
        cases h
        refine ⟨hp, .climbRest_end fun x hx => ?_⟩
        rw [leadingOperator?, hop] at hx
        cases hx
        exact Nat.lt_of_not_le hlevel
    · rename_i hop
      cases h
      refine ⟨hp, .climbRest_end fun x hx => ?_⟩
      rw [leadingOperator?, hop] at hx
      cases hx
  · rename_i hmark
    cases h
    refine ⟨hp, .climbRest_end fun x hx => ?_⟩
    unfold leadingOperator? at hx
    split at hx
    · rename_i m more
      exact (hmark m more rfl).elim
    · cases hx

omit hself in
theorem not_valued_loopUntil {f : Form} {b : Bracket} (h : loopUntil self f b toks = some (p, rest)) :
    ¬ Valued p.expr := by
  obtain ⟨⟨_, _⟩, -, h⟩ := Option.bind_eq_some_iff.1 h
  obtain ⟨_, -, h⟩ := Option.map_eq_some_iff.1 h
  cases h
  exact not_valued_form _

/-- What more than one item is read as has no value. -/
theorem not_valued_moreItems {style : ItemStyle} {target : Bool}
    (h : moreItems self style target toks = some (p, rest)) : ¬ Valued p.expr := by
  unfold moreItems at h
  split at h
  · split at h
    · cases h
      exact not_valued_form _
    · exact hself _ _ _ _ h
  · cases h
    exact not_valued_form _

theorem not_valued_morePairs (h : morePairs self toks = some (p, rest)) : ¬ Valued p.expr := by
  unfold morePairs at h
  split at h
  · cases h
    exact not_valued_form _
  · exact hself _ _ _ _ h
  · obtain ⟨_, -, h⟩ := Option.map_eq_some_iff.1 h
    cases h
    exact not_valued_form _

theorem not_valued_pairValue {loops : Bool} (h : pairValue self loops toks = some (p, rest)) :
    ¬ Valued p.expr := by
  obtain ⟨⟨_, mid⟩, -, h⟩ := Option.bind_eq_some_iff.1 h
  dsimp only at h
  split at h
  · exact not_valued_loopUntil h
  · exact not_valued_morePairs hself h

/-- A set or a mapping has no value. -/
theorem not_valued_pairs (h : pairs self toks = some (p, rest)) : ¬ Valued p.expr := by
  unfold pairs at h
  split at h
  · obtain ⟨⟨_, _⟩, -, h⟩ := Option.bind_eq_some_iff.1 h
    exact not_valued_morePairs hself h
  · obtain ⟨⟨_, _⟩, -, h⟩ := Option.bind_eq_some_iff.1 h
    obtain ⟨_, -, h⟩ := Option.bind_eq_some_iff.1 h
    exact not_valued_pairValue hself h

theorem not_valued_moreParameters {s : Signature} (h : moreParameters self s toks = some (p, rest)) :
    ¬ Valued p.expr := by
  unfold moreParameters at h
  split at h
  · exact hself _ _ _ _ h
  · exact hself _ _ _ _ h
  · cases h

theorem not_valued_parameters {s : Signature} (h : parameters self s toks = some (p, rest)) :
    ¬ Valued p.expr := by
  unfold parameters at h
  split at h
  case h_1 =>
    split at h
    · cases h
    · obtain ⟨⟨_, _⟩, -, h⟩ := Option.map_eq_some_iff.1 h
      cases h
      exact not_valued_form _
  case h_4 =>
    split at h
    · cases h
    · exact hself _ _ _ _ h
  case h_6 =>
    split at h
    · cases h
    · obtain ⟨⟨_, _⟩, -, h⟩ := Option.bind_eq_some_iff.1 h
      exact not_valued_moreParameters hself h
  case h_8 => cases h
  all_goals
    split at h
    · first | cases h | exact not_valued_moreParameters hself h
    · first | cases h | exact not_valued_moreParameters hself h

omit hself in
theorem not_valued_inSquare (h : inSquare self toks = some (p, rest)) : ¬ Valued p.expr := by
  unfold inSquare at h
  split at h
  · cases h
    exact not_valued_form _
  · obtain ⟨⟨_, _⟩, -, h⟩ := Option.bind_eq_some_iff.1 h
    dsimp only at h
    split at h
    · split at h
      · cases h
      · exact not_valued_loopUntil h
    · obtain ⟨⟨_, _⟩, -, h⟩ := Option.bind_eq_some_iff.1 h
      obtain ⟨_, -, h⟩ := Option.map_eq_some_iff.1 h
      cases h
      exact not_valued_form _

omit hself in
theorem not_valued_moreMembers (h : moreMembers self toks = some (p, rest)) : ¬ Valued p.expr := by
  obtain ⟨⟨_, _⟩, -, h⟩ := Option.bind_eq_some_iff.1 h
  obtain ⟨_, -, h⟩ := Option.map_eq_some_iff.1 h
  cases h
  exact not_valued_form _

theorem not_valued_inCurly (h : inCurly self toks = some (p, rest)) : ¬ Valued p.expr := by
  unfold inCurly at h
  split at h
  · cases h
    exact not_valued_form _
  · exact not_valued_pairs hself h
  · obtain ⟨⟨_, _⟩, -, h⟩ := Option.bind_eq_some_iff.1 h
    exact not_valued_moreMembers h
  · obtain ⟨⟨_, _⟩, -, h⟩ := Option.bind_eq_some_iff.1 h
    dsimp only at h
    split at h
    · exact not_valued_pairValue hself h
    · split at h
      · exact not_valued_loopUntil h
      · exact not_valued_moreMembers h

omit hself in
theorem not_valued_quotedValue {q : QuotedRun} (h : quotedValue self q = some p) : ¬ Valued p.expr := by
  unfold quotedValue at h
  split at h
  · cases h
    exact not_valued_literal _
  · split at h
    · cases h
      exact not_valued_form _
    · cases h

/-- A value has no name in front of it. -/
theorem named_sound (h : named self toks = some (p, rest)) (hp : Valued p.expr) :
    startsWordAnd .walrus toks = false ∧ Reads .expression toks p rest := by
  unfold named at h
  split at h
  · obtain ⟨⟨_, _⟩, -, h⟩ := Option.map_eq_some_iff.1 h
    cases h
    exact (not_valued_form _ hp).elim
  · rename_i hwalrus
    exact ⟨startsWordAnd_eq_false hwalrus, hself _ _ _ _ h hp⟩

/-- Brackets with a value hold a single expression. -/
theorem inRound_sound (h : inRound self toks = some (p, rest)) (hp : Valued p.expr) :
    startsWordAnd .walrus toks = false ∧ Reads .expression toks p (.mark (.closing .round) :: rest) := by
  unfold inRound at h
  split at h
  -- brackets with nothing or with a yield in them have no value
  · cases h
    exact (not_valued_form _ hp).elim
  · obtain ⟨⟨_, _⟩, -, h⟩ := Option.bind_eq_some_iff.1 h
    obtain ⟨_, -, h⟩ := Option.map_eq_some_iff.1 h
    cases h
    exact (not_valued_form _ hp).elim
  · cases h
    exact (not_valued_form _ hp).elim
  · obtain ⟨⟨_, _⟩, -, h⟩ := Option.bind_eq_some_iff.1 h
    obtain ⟨⟨_, _⟩, -, h⟩ := Option.bind_eq_some_iff.1 h
    obtain ⟨_, -, h⟩ := Option.map_eq_some_iff.1 h
    cases h
    exact (not_valued_form _ hp).elim
  -- one item is the value, unless a comma, a star or a loop follows
  · obtain ⟨⟨q, mid⟩, hitem, h⟩ := Option.bind_eq_some_iff.1 h
    dsimp only at h
    split at h
    · obtain ⟨⟨r, _⟩, hmore, h⟩ := Option.bind_eq_some_iff.1 h
      obtain ⟨_, -, h⟩ := Option.map_eq_some_iff.1 h
      cases h
      exact (not_valued_moreItems hself hmore hp).elim
    · split at h
      · cases h
      · rename_i hstar
        split at h
        · exact (not_valued_loopUntil h hp).elim
        · obtain ⟨mid', hclose, h⟩ := Option.map_eq_some_iff.1 h
          cases h
          rw [expect_eq_some hclose] at hitem
          unfold item at hitem
          split at hitem
          · exact (hstar rfl).elim
          · exact named_sound hself hitem hp

/-- An operand in front of its trailers is a single token or stands in round brackets. -/
theorem atom_sound (h : atom self toks = some (p, rest)) (hp : Valued p.expr) :
    (∃ tok, toks = tok :: rest ∧ tok.operand? = some p) ∨
      ∃ more, toks = .mark (.opening .round) :: more ∧ startsWordAnd .walrus more = false ∧
        Reads .expression more p (.mark (.closing .round) :: rest) := by
  unfold atom at h
  split at h
  case h_1 =>
    cases h
    exact .inl ⟨_, rfl, rfl⟩
  case h_2 =>
    cases h
    exact .inl ⟨_, rfl, rfl⟩
  case h_3 =>
    cases h
    exact .inl ⟨_, rfl, rfl⟩
  case h_9 =>
    obtain ⟨hwalrus, hread⟩ := inRound_sound hself h hp
    exact .inr ⟨_, rfl, hwalrus, hread⟩
  case h_10 => exact (not_valued_inSquare h hp).elim
  case h_11 => exact (not_valued_inCurly hself h hp).elim
  case h_12 =>
    split at h
    · obtain ⟨_, hq, h⟩ := Option.map_eq_some_iff.1 h
      cases h
      exact (not_valued_quotedValue hq hp).elim
    · cases h
  case h_13 => cases h
  -- all others are literals
  all_goals
    cases h
    exact (not_valued_literal _ hp).elim

/-- A part without operators that has a value is the base of a power, if one follows. -/
theorem primary_sound (h : primary self toks = some (p, rest)) (hp : Valued p.expr) {q : Parsed}
    {rest' : List Token} (hpower : Reads (.power p) rest q rest') : Reads .factor toks q rest' := by
  obtain ⟨⟨a, mid⟩, hatom, h⟩ := Option.bind_eq_some_iff.1 h
  obtain ⟨ha, htrailers⟩ := hself _ _ _ _ h hp
  obtain ⟨tok, rfl, htok⟩ | ⟨more, rfl, hwalrus, hround⟩ := atom_sound hself hatom ha
  · exact .operand htok htrailers hpower
  · exact .round hwalrus hround htrailers hpower

/-- A factor with a value is an operand with its signs and powers. -/
theorem factor_sound (h : factor self toks = some (p, rest)) (hp : Valued p.expr) :
    Reads .factor toks p rest := by
  unfold factor at h
  split at h
  · obtain ⟨⟨q, _⟩, hq, h⟩ := Option.map_eq_some_iff.1 h
    cases h
    cases hp with
    | signed _ hp => exact .sign false (hself _ _ _ _ hq hp)
  · obtain ⟨⟨q, _⟩, hq, h⟩ := Option.map_eq_some_iff.1 h
    cases h
    cases hp with
    | signed _ hp => exact .sign true (hself _ _ _ _ hq hp)
  · obtain ⟨⟨_, _⟩, -, h⟩ := Option.map_eq_some_iff.1 h
    cases h
    exact (not_valued_form _ hp).elim
  -- no sign in front: a part, perhaps with a power behind it
  · obtain ⟨⟨a, mid⟩, hbase, h⟩ := Option.bind_eq_some_iff.1 h
    have hprimary : Valued a.expr → primary self toks = some (a, mid) := fun ha => by
      split at hbase
      · obtain ⟨⟨_, _⟩, -, hbase⟩ := Option.map_eq_some_iff.1 hbase
        cases hbase
        exact (not_valued_form _ ha).elim
      · exact hbase
    dsimp only at h
    split at h
    · obtain ⟨⟨b, _⟩, hb, h⟩ := Option.map_eq_some_iff.1 h
      cases h
      cases hp with
      | binary _ ha hb' =>
          exact primary_sound hself (hprimary ha) ha (.power_more (hself _ _ _ _ hb hb'))
    · rename_i hpow
      cases h
      exact primary_sound hself (hprimary hp) hp (.power_end (expect_eq_none hpow))

/-- Of what may hang on an operand, only the arguments of a call leave it a value. -/
theorem trailers_sound {left : Parsed} (h : trailers self left toks = some (p, rest)) (hp : Valued p.expr) :
    Rule.Sound (.trailers left) toks p rest := by
  unfold trailers at h
  split at h
  · exact (not_valued_form _ (hself _ _ _ _ h hp).1).elim
  · cases h
  · obtain ⟨⟨q, mid⟩, hargs, h⟩ := Option.bind_eq_some_iff.1 h
    obtain ⟨hq, htrailers⟩ := hself _ _ _ _ h hp
    obtain ⟨hname, -, -, hread⟩ := hself _ _ _ _ hargs hq
    refine ⟨?_, .call (hread rfl) htrailers⟩
    obtain ⟨name, hname⟩ := Option.isSome_iff_exists.1 hname
    unfold Expr.name? at hname
    split at hname
    · rename_i name' hexpr
      rw [hexpr]
      exact .symbol name'
    · cases hname
  · obtain ⟨⟨_, _⟩, -, h⟩ := Option.bind_eq_some_iff.1 h
    exact (not_valued_form _ (hself _ _ _ _ h hp).1).elim
  · rename_i hword hdot hround hsquare
    cases h
    refine ⟨hp, .trailers_end ?_⟩
    unfold startsTrailer
    split
    · exact (hdot _ rfl).elim
    · exact (hround _ rfl).elim
    · exact (hsquare _ rfl).elim
    · rfl

/-- Arguments of a call with a value are expressions without names. -/
theorem moreArguments_sound {c : Call} (h : moreArguments self c toks = some (p, rest)) (hp : Valued p.expr) :
    c.function.isSome = true ∧ c.named = false ∧ (∀ e ∈ c.arguments, Valued e) ∧
      (toks = .mark (.closing .round) :: rest ∧ p = ⟨c.expr, false⟩ ∨
        ∃ mid, toks = .mark .comma :: mid ∧
          (c.stage = .positional → Reads (.arguments c.function c.arguments) mid p rest)) := by
  unfold moreArguments at h
  split at h
  · obtain ⟨hfunction, hnamed, hargs, hread⟩ := hself _ _ _ _ h hp
    exact ⟨hfunction, hnamed, hargs, .inr ⟨_, rfl, hread⟩⟩
  · obtain ⟨_, hclose, h⟩ := Option.map_eq_some_iff.1 h
    cases h
    obtain ⟨hfunction, hnamed, hargs⟩ := valued_of_call hp
    exact ⟨hfunction, hnamed, hargs, .inl ⟨expect_eq_some hclose, rfl⟩⟩

/-- The arguments of a call with a value are those of the grammar. -/
theorem arguments_sound {c : Call} (h : arguments self c toks = some (p, rest)) (hp : Valued p.expr) :
    Rule.Sound (.arguments c) toks p rest := by
  unfold arguments at h
  split at h
  -- no argument follows
  · cases h
    obtain ⟨hfunction, hnamed, hargs⟩ := valued_of_call hp
    refine ⟨hfunction, hnamed, hargs, fun hstage => ?_⟩
    obtain ⟨function, stage, named, args⟩ := c
    cases hstage
    cases hnamed
    exact .arguments_end
  -- a call with unpacked or named arguments has no value
  · obtain ⟨⟨_, _⟩, -, h⟩ := Option.bind_eq_some_iff.1 h
    exact absurd (moreArguments_sound hself h hp).2.1 Bool.noConfusion
  · split at h
    · cases h
    · obtain ⟨⟨_, _⟩, -, h⟩ := Option.bind_eq_some_iff.1 h
      exact ((moreArguments_sound hself h hp).2.2.1 _ List.mem_cons_self |> not_valued_form _).elim
  · obtain ⟨⟨_, _⟩, -, h⟩ := Option.bind_eq_some_iff.1 h
    exact absurd (moreArguments_sound hself h hp).2.1 Bool.noConfusion
  · rename_i hstar hequals
    split at h
    · cases h
    · rename_i hstage
      obtain ⟨function, stage, named, args⟩ := c
      obtain rfl : stage = .positional := Decidable.not_not.1 hstage
      obtain ⟨⟨q, mid⟩, hitem, h⟩ := Option.bind_eq_some_iff.1 h
      dsimp only at h
      split at h
      · split at h
        · obtain ⟨⟨g, mid'⟩, hloop, h⟩ := Option.map_eq_some_iff.1 h
          cases h
          -- a generator is no argument that has a value
          have hg := (valued_of_call (c := ⟨function, .positional, named, [g.expr]⟩) hp).2.2
          exact (not_valued_loopUntil hloop (hg _ List.mem_cons_self)).elim
        · cases h
      -- what is left is an argument by its position, read before the others
      · obtain ⟨hfunction, hnamed, hargs, hmore⟩ := moreArguments_sound hself h hp
        have hq : Valued q.expr := hargs _ List.mem_cons_self
        obtain ⟨hwalrus, hread⟩ := named_sound hself hitem hq
        cases hnamed
        refine ⟨hfunction, rfl, fun e he => hargs e (List.mem_cons_of_mem _ he), fun _ => ?_⟩
        have hequals := startsWordAnd_eq_false hequals
        obtain ⟨rfl, rfl⟩ | ⟨mid', rfl, hmore⟩ := hmore
        · exact .arguments_last hwalrus hequals hread
        · exact .arguments_more hwalrus hequals hread (hmore rfl)

theorem items_sound {style : ItemStyle} {before : Bool}
    (h : apply self (.items style before) toks = some (p, rest)) : ¬ Valued p.expr := by
  obtain ⟨⟨_, _⟩, -, h⟩ := Option.bind_eq_some_iff.1 h
  exact not_valued_moreItems hself h

/-- One rule reads by phrases what it reads, if the rules that it is made of do. -/
theorem apply_sound {rule : Rule} (h : apply self rule toks = some (p, rest)) (hp : Valued p.expr) :
    rule.Sound toks p rest := by
  cases rule with
  | expression => exact expression_sound hself h hp
  | disjunction =>
      obtain ⟨⟨hread, hcomparison, hand⟩, hor⟩ := joined_sound hself h hp
      exact ⟨hread, hcomparison, hand, hor⟩
  | conjunction =>
      obtain ⟨⟨hread, hcomparison⟩, hand⟩ := joined_sound hself h hp
      exact ⟨hread, hcomparison, hand⟩
  | inversion => exact inversion_sound hself h hp
  | comparison => exact comparison_sound hself h hp
  | climb level =>
      obtain ⟨⟨left, mid⟩, hfactor, h⟩ := Option.bind_eq_some_iff.1 h
      obtain ⟨hleft, hrest⟩ := hself _ _ _ _ h hp
      exact .climb (hself _ _ _ _ hfactor hleft) hrest
  | climbRest level left => exact climbRest_sound hself h hp
  | factor => exact factor_sound hself h hp
  | trailers left => exact trailers_sound hself h hp
  | arguments c => exact arguments_sound hself h hp
  | items style before => exact items_sound hself h hp
  | pairs => exact not_valued_pairs hself h hp
  | parameters s => exact not_valued_parameters hself h hp
  | slices | targets | clauses | conditions => trivial

end Rules

/-- What is read and can have a value is read by phrases. By induction on the nesting of rules. -/
theorem sound : ∀ (fuel : Nat) (rule : Rule) (toks : List Token) (p : Parsed) (rest : List Token),
    read fuel rule toks = some (p, rest) → Valued p.expr → rule.Sound toks p rest
  | fuel + 1, _, _, _, _, h, hp => apply_sound (sound fuel) h hp

end Arithmetic

end TabletopChat
