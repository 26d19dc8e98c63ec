import TabletopChat.Proofs.Arithmetic.Phrases

/-!
# Proofs/Arithmetic/Completeness — the rules read every phrase

A phrase is read by the rules if they may be nested deep enough, and how deep depends only on the number of
tokens. So a text has a value exactly if its tokens are read by phrases, and the expression has that value.

- `Takes`           : the tokens that a phrase is read from
- `Reads.complete`  : the rules read every phrase
- `reads_of_parse?`, `parse?_of_reads` : the expression of a text
-/

namespace TabletopChat

namespace Arithmetic

/-! ## The tokens of a phrase -/

def Token.isPart : Token → Bool
  | .word _ => true
  | .int _ => true
  | .real _ => true
  | .mark _ => true
  | _ => false

def Token.opensOperand : Token → Bool
  | .word _ => true
  | .int _ => true
  | .real _ => true
  | .mark .plus => true
  | .mark .minus => true
  | .mark (.opening .round) => true
  | _ => false

def startsOperand : List Token → Bool
  | tok :: _ => tok.opensOperand
  | [] => false

theorem Token.opensOperand_of_operand? {tok : Token} {p : Parsed} (h : tok.operand? = some p) :
    tok.opensOperand = true := by
  unfold Token.operand? at h
  split at h <;> first | rfl | cases h

theorem Token.isPart_of_opensOperand {tok : Token} (h : tok.opensOperand = true) : tok.isPart = true := by
  unfold Token.opensOperand at h
  split at h <;> first | rfl | cases h

def Phrase.operand : Phrase → Bool
  | .expression => true
  | .climb _ => true
  | .factor => true
  | .arguments _ _ => true
  | _ => false

/-- Whatever is read as an operand begins with one. -/
theorem Reads.startsOperand {φ : Phrase} {toks rest : List Token} {p : Parsed} (h : Reads φ toks p rest) :
    φ = .factor ∨ φ = .expression ∨ (∃ level, φ = .climb level) → startsOperand toks = true := by
  induction h with
  | expression _ _ ih => exact fun _ => ih (.inr (.inr ⟨0, rfl⟩))
  | climb _ _ ih _ => exact fun _ => ih (.inl rfl)
  | sign negative _ _ => exact fun _ => by cases negative <;> rfl
  | operand htok _ _ _ _ => exact fun _ => Token.opensOperand_of_operand? htok
  | round => exact fun _ => rfl
  | _ => rintro (h | h | ⟨_, h⟩) <;> cases h

/-- The tokens between two places: all of them can be parts of a phrase, and with `some` there is one. -/
def Takes (some : Bool) (toks rest : List Token) : Prop :=
  ∃ used, toks = used ++ rest ∧ (∀ tok ∈ used, tok.isPart = true) ∧ (some = true → used ≠ [])

theorem Takes.refl (toks : List Token) : Takes false toks toks :=
  ⟨[], rfl, List.forall_mem_nil _, Bool.noConfusion⟩

theorem Takes.trans {some some' : Bool} {toks mid rest : List Token} (h : Takes some toks mid)
    (h' : Takes some' mid rest) : Takes some toks rest := by
  obtain ⟨used, rfl, hused, hsome⟩ := h
  obtain ⟨used', rfl, hused', -⟩ := h'
  refine ⟨used ++ used', (List.append_assoc _ _ _).symm, List.forall_mem_append.2 ⟨hused, hused'⟩, ?_⟩
  exact fun h => List.append_ne_nil_of_left_ne_nil (hsome h) _

theorem Takes.cons {some : Bool} {tok : Token} (htok : tok.isPart = true) {toks rest : List Token}
    (h : Takes some toks rest) : Takes true (tok :: toks) rest := by
  obtain ⟨used, rfl, hused, -⟩ := h
  exact ⟨tok :: used, rfl, List.forall_mem_cons.2 ⟨htok, hused⟩, fun _ => List.cons_ne_nil _ _⟩

theorem Takes.weaken {some : Bool} {toks rest : List Token} (h : Takes some toks rest) :
    Takes false toks rest := by
  obtain ⟨used, hused, hparts, -⟩ := h
  exact ⟨used, hused, hparts, Bool.noConfusion⟩

theorem Takes.length_lt {toks rest : List Token} (h : Takes true toks rest) : rest.length < toks.length := by
  obtain ⟨used, rfl, -, hsome⟩ := h
  have hused : 0 < used.length := List.length_pos_iff.2 (hsome rfl)
  rw [List.length_append]
  omega

theorem Takes.length_le {some : Bool} {toks rest : List Token} (h : Takes some toks rest) :
    rest.length ≤ toks.length := by
  obtain ⟨used, rfl, -, -⟩ := h
  rw [List.length_append]
  omega

/-- What a phrase takes are parts, and if it begins with an operand it takes at least one. -/
theorem Reads.takes {φ : Phrase} {toks rest : List Token} {p : Parsed} (h : Reads φ toks p rest) :
    Takes φ.operand toks rest := by
  induction h with
  | expression _ _ ih => exact ih
  | climb _ _ ih ih' => exact ih.trans ih'
  | climbRest_end _ => exact .refl _
  | climbRest_more _ _ _ _ ih ih' => exact (Takes.cons rfl (ih.trans ih')).weaken
  | sign negative _ ih => exact ih.cons (by cases negative <;> rfl)
  | operand htok _ _ ih ih' =>
      exact (ih.trans ih').cons (Token.isPart_of_opensOperand (Token.opensOperand_of_operand? htok))
  | round _ _ _ _ ih ih' ih'' => exact Takes.cons rfl (ih.trans (Takes.cons rfl (ih'.trans ih'')))
  | power_end _ => exact .refl _
  | power_more _ ih => exact (Takes.cons rfl ih).weaken
  | trailers_end _ => exact .refl _
  | call _ _ ih ih' => exact (Takes.cons rfl (ih.trans ih')).weaken
  | arguments_end => exact Takes.cons rfl (.refl _)
  | arguments_last _ _ _ ih => exact ih.trans (Takes.cons rfl (.refl _))
  | arguments_more _ _ _ _ ih ih' => exact ih.trans (Takes.cons rfl ih')

/-! ## The rules read every phrase -/

/-- An expression that is read to its end is made of such tokens. -/
theorem Reads.parts {φ : Phrase} {toks : List Token} {p : Parsed} (h : Reads φ toks p []) :
    ∀ tok ∈ toks, tok.isPart = true := by
  obtain ⟨used, rfl, hused, -⟩ := h.takes
  rwa [List.append_nil]

section Rules

variable {self : Rule → Reader} {toks rest : List Token} {p : Parsed}

/-- Without a condition behind it, a disjunction is the whole expression. -/
theorem expression_eq (hstart : startsOperand toks = true) (h : self .disjunction toks = some (p, rest))
    (hrest : expectWord .wIf rest = none) : expression self toks = some (p, rest) := by
  unfold expression
  split
  · cases hstart
  · rw [h, Option.bind_some]
    dsimp only
    split
    · cases hrest
    · rfl

theorem joined_eq {k : Keyword} {inner outer : Rule} (h : self inner toks = some (p, rest))
    (hrest : expectWord k rest = none) : joined self k inner outer toks = some (p, rest) := by
  simp only [joined, h, Option.bind_some, hrest]

theorem inversion_eq (hstart : startsOperand toks = true) : inversion self toks = self .comparison toks := by
  unfold inversion
  split
  · cases hstart
  · rfl

theorem comparison_eq (h : self (.climb 0) toks = some (p, rest)) (hrest : comparison? rest = none) :
    comparison self toks = some (p, rest) := by
  simp only [comparison, h, Option.bind_some, hrest]

/-- Operators of lower levels are left to others. -/
theorem climbRest_end_eq {level : Nat} {left : Parsed} (h : ∀ x ∈ leadingOperator? toks, x.1 < level) :
    climbRest self level left toks = some (left, toks) := by
  unfold climbRest
  split
  · split
    · rename_i hop
      rw [if_neg (Nat.not_le.2 (h _ hop))]
    · rfl
  · rfl

theorem climbRest_more_eq {level k : Nat} {m : Mark} {op : Operator} {left : Parsed}
    (hop : binaryOperator? m = some (k, some op)) (hlevel : level ≤ k) :
    climbRest self level left (.mark m :: toks) =
      (self (.climb (k + 1)) toks).bind fun (right, rest) =>
        self (.climbRest level (combine (some op) left right)) rest := by
  simp only [climbRest, hop, if_pos hlevel]

def powerRest (self : Rule → Reader) (base : Parsed) : Reader
  | .mark .doubleStar :: rest =>
    (self .factor rest).map fun (q, rest) => (combine (some .pow) base q, rest)
  | rest => some (base, rest)

theorem powerRest_end_eq {base : Parsed} (h : expect .doubleStar toks = none) :
    powerRest self base toks = some (base, toks) := by
  unfold powerRest
  split
  · cases h
  · rfl

/-- An operand in front is read first, and then what hangs on it. -/
theorem factor_operand_eq {tok : Token} {a : Parsed} (h : tok.operand? = some a) :
    factor self (tok :: toks) =
      (self (.trailers a) toks).bind fun (p, rest) => powerRest self p rest := by
  cases tok with
  | word name => cases h; rfl
  | int n => cases h; rfl
  | real x => cases h; rfl
  | _ => cases h

theorem factor_round_eq {mid : List Token} (h : inRound self toks = some (p, mid)) :
    factor self (.mark (.opening .round) :: toks) =
      (self (.trailers p) mid).bind fun (p, rest) => powerRest self p rest := by
  have hprimary : primary self (.mark (.opening .round) :: toks) = self (.trailers p) mid := by
    rw [primary, atom, h, Option.bind_some]
  rw [← hprimary]
  rfl

theorem named_eq (h : startsWordAnd .walrus toks = false) : named self toks = self .expression toks := by
  unfold named
  split
  · cases h
  · rfl

/-- An expression in brackets is read as what is inside of them. -/
theorem inRound_eq {mid : List Token} (hstart : startsOperand toks = true)
    (hwalrus : startsWordAnd .walrus toks = false)
    (h : self .expression toks = some (p, .mark (.closing .round) :: mid)) :
    inRound self toks = some (p, mid) := by
  -- no walrus follows, so the item is the expression itself
  have hitem : item self .named toks = some (p, .mark (.closing .round) :: mid) := by
    unfold item
    split
    · cases hstart
    · rw [if_pos rfl, named_eq hwalrus, h]
  have hstar : startsStar toks = false := by
    unfold startsStar
    split
    · cases hstart
    · rfl
  unfold inRound
  split
  · cases hstart
  · cases hstart
  · cases hstart
  · cases hstart
  · rw [hitem, Option.bind_some]
    simp [hstar, startsLoop, expect]

theorem trailers_end_eq {left : Parsed} (h : startsTrailer toks = false) :
    trailers self left toks = some (left, toks) := by
  unfold trailers
  split
  · cases h
  · cases h
  · cases h
  · cases h
  · rfl

/-- A single argument that is an expression is read as such. -/
theorem arguments_eq {function : Option Text} {args : List Expr} (hstart : startsOperand toks = true)
    (hwalrus : startsWordAnd .walrus toks = false) (hequals : startsWordAnd .equals toks = false)
    (h : self .expression toks = some (p, rest)) (hrest : startsLoop rest = false) :
    arguments self (callOf function args) toks =
      moreArguments self (callOf function (p.expr :: args)) rest := by
  unfold arguments
  split
  · cases hstart
  · cases hstart
  · cases hstart
  · cases hequals
  · simp [named_eq hwalrus, h, hrest]

end Rules

/-- That the rules read a phrase if they may be nested as deep as `fuel`. -/
def Complete (fuel : Nat) : Phrase → List Token → Parsed → List Token → Prop
  | .expression, toks, p, rest =>
    8 * toks.length ≤ fuel + 8 * rest.length → read fuel .expression toks = some (p, rest)
  | .climb level, toks, p, rest =>
    8 * toks.length ≤ fuel + 8 * rest.length + 5 → read fuel (.climb level) toks = some (p, rest)
  | .climbRest level left, toks, p, rest =>
    8 * toks.length + 1 ≤ fuel + 8 * rest.length → read fuel (.climbRest level left) toks = some (p, rest)
  | .factor, toks, p, rest =>
    8 * toks.length ≤ fuel + 8 * rest.length + 6 → read fuel .factor toks = some (p, rest)
  | .power base, toks, p, rest =>
    8 * toks.length ≤ fuel + 8 * rest.length + 14 → powerRest (read fuel) base toks = some (p, rest)
  | .trailers left, toks, p, rest =>
    8 * toks.length + 1 ≤ fuel + 8 * rest.length → read fuel (.trailers left) toks = some (p, rest)
  | .arguments function args, toks, p, rest =>
    8 * toks.length + 1 ≤ fuel + 8 * rest.length →
      read fuel (.arguments (callOf function args)) toks = some (p, rest)

/-- The rules read every phrase, eight of them for a token. By induction on the phrase; in every case
enough of the depth is left for its parts, because each takes a token less. -/
theorem Reads.complete {φ : Phrase} {toks rest : List Token} {p : Parsed} (h : Reads φ toks p rest) :
    ∀ fuel, Complete fuel φ toks p rest := by
  induction h with
  | @expression toks rest p hclimb hrest ih =>
      intro fuel hfuel
      -- the four rules in between take no token, because what follows the phrase is none of their words
      have hstart := hclimb.startsOperand (.inr (.inr ⟨0, rfl⟩))
      have hlength := hclimb.takes.length_lt
      obtain ⟨n, rfl⟩ : ∃ n, fuel = n + 5 := ⟨fuel - 5, by omega⟩
      have hread : read n (.climb 0) toks = some (p, rest) := ih n (by omega)
      have hcomparison : read (n + 1) .comparison toks = some (p, rest) :=
        comparison_eq hread hrest.comparison
      have hinversion : read (n + 2) .inversion toks = some (p, rest) :=
        (inversion_eq hstart).trans hcomparison
      have hconjunction : read (n + 3) .conjunction toks = some (p, rest) :=
        joined_eq hinversion hrest.conjunction
      have hdisjunction : read (n + 4) .disjunction toks = some (p, rest) :=
        joined_eq hconjunction hrest.disjunction
      exact expression_eq hstart hdisjunction hrest.conditional
  | @climb level toks mid rest p q hfactor hmore ih ih' =>
      intro fuel hfuel
      -- the factor takes a token, so that the depth is enough for what follows it as well
      have hlength := hfactor.takes.length_lt
      have hlength' := hmore.takes.length_le
      obtain ⟨n, rfl⟩ : ∃ n, fuel = n + 1 := ⟨fuel - 1, by omega⟩
      have hread : read n .factor toks = some (p, mid) := ih n (by omega)
      have hread' : read n (.climbRest level p) mid = some (q, rest) := ih' n (by omega)
      show (read n .factor toks).bind _ = _
      rw [hread, Option.bind_some]
      exact hread'
  | climbRest_end hlevel =>
      intro fuel hfuel
      obtain ⟨n, rfl⟩ : ∃ n, fuel = n + 1 := ⟨fuel - 1, by omega⟩
      exact climbRest_end_eq hlevel
  | @climbRest_more level k m op left right p toks mid rest hop hlevel hright hmore ih ih' =>
      intro fuel hfuel
      have hlength := hright.takes.length_lt
      have hlength' := hmore.takes.length_le
      rw [List.length_cons] at hfuel
      obtain ⟨n, rfl⟩ : ∃ n, fuel = n + 1 := ⟨fuel - 1, by omega⟩
      have hread : read n (.climb (k + 1)) toks = some (right, mid) := ih n (by omega)
      have hread' : read n (.climbRest level (combine (some op) left right)) mid = some (p, rest) :=
        ih' n (by omega)
      refine (climbRest_more_eq hop hlevel).trans ?_
      rw [hread, Option.bind_some]
      exact hread'
  | @sign negative toks rest p hfactor ih =>
      intro fuel hfuel
      have hlength := hfactor.takes.length_lt
      rw [List.length_cons] at hfuel
      obtain ⟨n, rfl⟩ : ∃ n, fuel = n + 1 := ⟨fuel - 1, by omega⟩
      have hread : read n .factor toks = some (p, rest) := ih n (by omega)
      cases negative
      · show (read n .factor toks).map _ = _
        rw [hread, Option.map_some]
      · show (read n .factor toks).map _ = _
        rw [hread, Option.map_some]
  | @operand tok a p q toks mid rest htok htrailers hpower ih ih' =>
      intro fuel hfuel
      have hlength := htrailers.takes.length_le
      have hlength' := hpower.takes.length_le
      rw [List.length_cons] at hfuel
      obtain ⟨n, rfl⟩ : ∃ n, fuel = n + 1 := ⟨fuel - 1, by omega⟩
      have hread : read n (.trailers a) toks = some (p, mid) := ih n (by omega)
      have hread' : powerRest (read n) p mid = some (q, rest) := ih' n (by omega)
      refine (factor_operand_eq htok).trans ?_
      rw [hread, Option.bind_some]
      exact hread'
  | @round p q r toks mid mid' rest hwalrus hinner htrailers hpower ih ih' ih'' =>
      intro fuel hfuel
      -- the brackets themselves pay for the rules down to the expression in them
      have hstart := hinner.startsOperand (.inr (.inl rfl))
      have hlength := hinner.takes.length_lt
      have hlength' := htrailers.takes.length_le
      have hlength'' := hpower.takes.length_le
      rw [List.length_cons] at hfuel hlength
      obtain ⟨n, rfl⟩ : ∃ n, fuel = n + 1 := ⟨fuel - 1, by omega⟩
      have hread : read n .expression toks = some (p, .mark (.closing .round) :: mid) :=
        ih n (by rw [List.length_cons]; omega)
      have hread' : read n (.trailers p) mid = some (q, mid') := ih' n (by omega)
      have hread'' : powerRest (read n) q mid' = some (r, rest) := ih'' n (by omega)
      refine (factor_round_eq (inRound_eq hstart hwalrus hread)).trans ?_
      rw [hread', Option.bind_some]
      exact hread''
  | power_end hdouble => exact fun fuel _ => powerRest_end_eq hdouble
  | @power_more base p toks rest hfactor ih =>
      intro fuel hfuel
      -- a power is read in place, without a rule of its own
      rw [List.length_cons] at hfuel
      have hread : read fuel .factor toks = some (p, rest) := ih fuel (by omega)
      show (read fuel .factor toks).map _ = _
      rw [hread, Option.map_some]
  | trailers_end htrailer =>
      intro fuel hfuel
      obtain ⟨n, rfl⟩ : ∃ n, fuel = n + 1 := ⟨fuel - 1, by omega⟩
      exact trailers_end_eq htrailer
  | @call left p q toks mid rest harguments htrailers ih ih' =>
      intro fuel hfuel
      have hlength := harguments.takes.length_lt
      have hlength' := htrailers.takes.length_le
      rw [List.length_cons] at hfuel
      obtain ⟨n, rfl⟩ : ∃ n, fuel = n + 1 := ⟨fuel - 1, by omega⟩
      have hread : read n (.arguments (callOf left.expr.name? [])) toks = some (p, mid) := ih n (by omega)
      have hread' : read n (.trailers p) mid = some (q, rest) := ih' n (by omega)
      show (read n (.arguments (callOf left.expr.name? [])) toks).bind _ = _
      rw [hread, Option.bind_some]
      exact hread'
  | arguments_end =>
      intro fuel hfuel
      rw [List.length_cons] at hfuel
      obtain ⟨n, rfl⟩ : ∃ n, fuel = n + 1 := ⟨fuel - 1, by omega⟩
      rfl
  | @arguments_last function args p toks rest hwalrus hequals hinner ih =>
      intro fuel hfuel
      have hstart := hinner.startsOperand (.inr (.inl rfl))
      have hlength := hinner.takes.length_lt
      rw [List.length_cons] at hlength
      obtain ⟨n, rfl⟩ : ∃ n, fuel = n + 1 := ⟨fuel - 1, by omega⟩
      have hread : read n .expression toks = some (p, .mark (.closing .round) :: rest) :=
        ih n (by rw [List.length_cons]; omega)
      exact arguments_eq hstart hwalrus hequals hread rfl
  | @arguments_more function args p q toks mid rest hwalrus hequals hinner hmore ih ih' =>
      intro fuel hfuel
      have hstart := hinner.startsOperand (.inr (.inl rfl))
      have hlength := hinner.takes.length_lt
      have hlength' := hmore.takes.length_lt
      rw [List.length_cons] at hlength
      obtain ⟨n, rfl⟩ : ∃ n, fuel = n + 1 := ⟨fuel - 1, by omega⟩
      have hread : read n .expression toks = some (p, .mark .comma :: mid) :=
        ih n (by rw [List.length_cons]; omega)
      have hread' : read n (.arguments (callOf function (p.expr :: args))) mid = some (q, rest) :=
        ih' n (by omega)
      exact (arguments_eq hstart hwalrus hequals hread rfl).trans hread'

/-! ## Texts -/

/-- If a text has a value, its tokens are read by phrases. -/
theorem reads_of_parse? {t : Text} {e : Expr} (h : parse? t = some e) (he : Valued e) :
    ∃ toks p, tokens? t = some toks ∧ Reads .expression toks p [] ∧ p.expr = e := by
  obtain ⟨toks, htoks, h⟩ := Option.bind_eq_some_iff.1 h
  split at h
  · rename_i p hread
    cases h
    obtain ⟨⟨q, mid⟩, hitem, hread⟩ := Option.bind_eq_some_iff.1 hread
    dsimp only at hread
    split at hread
    · exact (not_valued_moreItems (sound _) hread he).elim
    · cases hread
      refine ⟨toks, p, htoks, ?_, rfl⟩
      unfold item at hitem
      split at hitem
      · cases hitem
      · exact sound _ _ _ _ _ hitem he
  · cases h

/-- If the tokens of a text are read by phrases, then so is the text, as long as it has no fewer characters
than tokens. -/
theorem parse?_of_reads {t : Text} {toks : List Token} {p : Parsed} (htoks : tokens? t = some toks)
    (hlength : toks.length ≤ t.length) (h : Reads .expression toks p []) : parse? t = some p.expr := by
  have hread : read (readingDepth t) .expression toks = some (p, []) :=
    h.complete _ (by rw [readingDepth, List.length_nil]; omega)
  have hstart := h.startsOperand (.inr (.inl rfl))
  have hitem : item (read (readingDepth t)) .plain toks = some (p, []) := by
    unfold item
    split
    · cases hstart
    · rw [if_neg ItemStyle.noConfusion, hread]
  have hexpressions : expressions (read (readingDepth t)) toks = some (p, []) := by
    rw [expressions, hitem]
    rfl
  simp only [parse?, htoks, Option.bind_some, hexpressions]

end Arithmetic

end TabletopChat
