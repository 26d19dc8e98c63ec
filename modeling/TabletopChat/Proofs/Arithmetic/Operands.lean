import TabletopChat.Proofs.Arithmetic.Completeness

/-!
# Proofs/Arithmetic/Operands — one operand in place of another

Tokens that are read as the same operand may stand for each other wherever an operand is expected. That is so
at the beginning and behind everything that no operand ends with, and for an integer wherever it has been read.

- `Exchange`      : tokens that are read as the same operand
- `Swap`          : one run of tokens in place of another, where an operand is expected
- `Reads.swap`    : a phrase is read in the same way after a swap
- `Reads.expects` : where an integer has been read, an operand is expected
- `exchange_bracketed`, `exchange_bare`, `exchange_negative` : integers with and without brackets
-/

namespace TabletopChat

namespace Arithmetic

/-! ## One operand in place of another -/

def Token.endsOperand : Token → Bool
  | .word _ => true
  | .int _ => true
  | .real _ => true
  | .mark (.closing _) => true
  | _ => false

theorem Token.endsOperand_of_operand? {tok : Token} {p : Parsed} (h : tok.operand? = some p) :
    tok.endsOperand = true := by
  unfold Token.operand? at h
  split at h <;> first | rfl | cases h

theorem endsOperand_of_binaryOperator? {m : Mark} {x : Nat × Option Operator}
    (h : binaryOperator? m = some x) : (Token.mark m).endsOperand = false := by
  unfold binaryOperator? at h
  split at h <;> first | rfl | cases h

/-- Tokens `M` in front of `B` that may be written as `M'`, because they are read as the same operand. -/
structure Exchange (M M' B : List Token) : Prop where
  opens : startsOperand M = true
  opens' : startsOperand M' = true
  notWord : ∀ name more, M' = .word name :: more → False
  reads : ∀ {p rest}, Reads .factor (M ++ B) p rest → Reads .factor (M' ++ B) p rest

/-- Tokens in which `M'` may stand in place of `M`, but only where an operand is expected. The flag tells
whether one is expected at the beginning. -/
inductive Swap (M M' B : List Token) : Bool → List Token → List Token → Prop
  | same (expected : Bool) (toks : List Token) : Swap M M' B expected toks toks
  | here : Swap M M' B true (M ++ B) (M' ++ B)
  | skip {expected : Bool} (tok : Token) {toks toks' : List Token} :
      Swap M M' B (!tok.endsOperand) toks toks' → Swap M M' B expected (tok :: toks) (tok :: toks')

section Swapping

variable {M M' B toks toks' : List Token} {expected : Bool}

/-- Where no operand is expected, the first token stays. -/
theorem Swap.cases_false (h : Swap M M' B false toks toks') :
    toks' = toks ∨
      ∃ tok more more', toks = tok :: more ∧ toks' = tok :: more' ∧
        Swap M M' B (!tok.endsOperand) more more' := by
  cases h with
  | same _ _ => exact .inl rfl
  | skip tok h => exact .inr ⟨tok, _, _, rfl, rfl, h⟩

theorem Swap.after_cons {tok : Token} {more : List Token} (h : Swap M M' B false (tok :: more) toks') :
    ∃ more', toks' = tok :: more' ∧ Swap M M' B (!tok.endsOperand) more more' := by
  cases h with
  | same _ _ => exact ⟨more, rfl, .same _ _⟩
  | skip tok h => exact ⟨_, rfl, h⟩

/-- Where an operand is expected, the first token stays too, unless it begins what is exchanged. -/
theorem Swap.cons_cases {tok : Token} {more : List Token} (h : Swap M M' B true (tok :: more) toks') :
    tok :: more = M ++ B ∧ toks' = M' ++ B ∨
      ∃ more', toks' = tok :: more' ∧ Swap M M' B (!tok.endsOperand) more more' := by
  generalize hall : tok :: more = all at h
  cases h with
  | same _ _ => exact .inr ⟨more, hall.symm, .same _ _⟩
  | here => exact .inl ⟨rfl, rfl⟩
  | skip tok h =>
      cases hall
      exact .inr ⟨_, rfl, h⟩

theorem Swap.leadingOperator? (h : Swap M M' B false toks toks') :
    leadingOperator? toks' = leadingOperator? toks := by
  obtain rfl | ⟨tok, more, more', rfl, rfl, -⟩ := h.cases_false
  · rfl
  · cases tok <;> rfl

/-- Exchanging operands does not change what may hang on them. -/
theorem Swap.startsTrailer (h : Swap M M' B false toks toks') : startsTrailer toks' = startsTrailer toks := by
  obtain rfl | ⟨tok, more, more', rfl, rfl, -⟩ := h.cases_false
  · rfl
  · cases tok with
    | mark m => cases m with
      | opening b => cases b <;> rfl
      | _ => rfl
    | _ => rfl

theorem Swap.expect_eq_none {m : Mark} (h : Swap M M' B false toks toks') (hm : expect m toks = none) :
    expect m toks' = none := by
  obtain rfl | ⟨tok, more, more', rfl, rfl, -⟩ := h.cases_false
  · exact hm
  · cases tok with
    | mark n => simpa [expect] using hm
    | _ => rfl

/-- Nor does it make a keyword appear. -/
theorem Swap.expectWord_eq_none {k : Keyword} (h : Swap M M' B false toks toks')
    (hk : expectWord k toks = none) : expectWord k toks' = none := by
  obtain rfl | ⟨tok, more, more', rfl, rfl, -⟩ := h.cases_false
  · exact hk
  · cases tok with
    | keyword l => simpa [expectWord] using hk
    | _ => rfl

section Exchanging

variable (hx : Exchange M M' B)

include hx

/-- The first token of the operand that is put in begins an operand and is no name. -/
theorem Exchange.head_eq {tok : Token} {more : List Token} (h : M' ++ B = tok :: more) :
    tok.opensOperand = true ∧ ∀ name, tok ≠ .word name := by
  have hopens := hx.opens'
  have hword := hx.notWord
  cases M' with
  | nil => cases hopens
  | cons tok' M' =>
      cases h
      exact ⟨hopens, fun name htok => hword name M' (by rw [htok])⟩

/-- What is exchanged begins with a token that opens an operand. -/
theorem Exchange.opens_eq {tok : Token} {more : List Token} (h : M ++ B = tok :: more) :
    tok.opensOperand = true := by
  have hopens := hx.opens
  cases M with
  | nil => cases hopens
  | cons tok' M =>
      cases h
      exact hopens

/-- No comparison appears by an exchange. -/
theorem Swap.comparison?_eq_none (h : Swap M M' B false toks toks') (hnone : comparison? toks = none) :
    comparison? toks' = none := by
  obtain rfl | ⟨tok, more, more', rfl, rfl, hmore⟩ := h.cases_false
  · exact hnone
  · unfold comparison?
    split
    case h_8 heq =>
      -- behind `not` there is no `in`, neither in front of what is exchanged nor in it
      cases heq
      generalize hmore' : Token.keyword .wIn :: _ = more' at hmore
      cases hmore with
      | same _ _ =>
          subst hmore'
          cases hnone
      | here => exact absurd (hx.head_eq hmore'.symm).1 Bool.noConfusion
      | skip tok h =>
          cases hmore'
          cases hnone
    case h_9 heq =>
      cases heq
      unfold comparison? at hnone
      split at hnone <;> simp_all
    case h_10 _ heq =>
      cases heq
      unfold comparison? at hnone
      split at hnone <;> simp_all
    all_goals
      first | rfl | (rename_i heq; cases heq; cases hnone)

theorem Swap.startsWordAnd_eq_false {m : Mark} (h : Swap M M' B expected toks toks')
    (hword : startsWordAnd m toks = false) : startsWordAnd m toks' = false := by
  cases h with
  | same _ _ => exact hword
  | here =>
      refine Arithmetic.startsWordAnd_eq_false fun name more heq => ?_
      exact (hx.head_eq heq).2 name rfl
  | skip tok h =>
      cases tok with
      | word name =>
          obtain rfl | ⟨tok, more, more', rfl, rfl, -⟩ := h.cases_false
          · exact hword
          · cases tok with
            | mark n => exact hword
            | _ => rfl
      | _ => rfl

theorem Swap.rests (h : Swap M M' B false toks toks') (hrests : Rests toks) : Rests toks' where
  comparison := h.comparison?_eq_none hx hrests.comparison
  conjunction := h.expectWord_eq_none hrests.conjunction
  disjunction := h.expectWord_eq_none hrests.disjunction
  conditional := h.expectWord_eq_none hrests.conditional

/-- A phrase is read in the same way after a swap, up to the same place. By induction on the phrase; what is
exchanged is met at the beginning of an operand, and nothing else that is read looks into it. -/
theorem Reads.swap {φ : Phrase} {rest : List Token} {p : Parsed} (h : Reads φ toks p rest) :
    ∀ {toks'}, Swap M M' B φ.operand toks toks' →
      ∃ rest', Swap M M' B false rest rest' ∧ Reads φ toks' p rest' := by
  induction h with
  -- what a phrase leaves is never looked into before it is known that an operand has ended there
  | expression _ hrests ih =>
      intro toks' hswap
      obtain ⟨rest', hrest, hread⟩ := ih hswap
      exact ⟨rest', hrest, .expression hread (hrest.rests hx hrests)⟩
  | climb _ _ ih ih' =>
      intro toks' hswap
      obtain ⟨mid', hmid, hread⟩ := ih hswap
      obtain ⟨rest', hrest, hread'⟩ := ih' hmid
      exact ⟨rest', hrest, .climb hread hread'⟩
  | climbRest_end hlevel =>
      intro toks' hswap
      exact ⟨toks', hswap, .climbRest_end (by rwa [hswap.leadingOperator?])⟩
  | climbRest_more hop hlevel _ _ ih ih' =>
      intro toks' hswap
      obtain ⟨more, rfl, hmore⟩ := hswap.after_cons
      rw [endsOperand_of_binaryOperator? hop] at hmore
      obtain ⟨mid', hmid, hread⟩ := ih hmore
      obtain ⟨rest', hrest, hread'⟩ := ih' hmid
      exact ⟨rest', hrest, .climbRest_more hop hlevel hread hread'⟩
  | @sign negative toks rest p hfactor ih =>
      intro toks' hswap
      -- either the factor is what is exchanged, or its first token stays
      obtain ⟨heq, rfl⟩ | ⟨more', rfl, hmore⟩ := hswap.cons_cases
      · exact ⟨rest, .same _ _, hx.reads (heq ▸ .sign negative hfactor)⟩
      · have hflag : (Token.mark (if negative then .minus else .plus)).endsOperand = false := by
          cases negative <;> rfl
        rw [hflag] at hmore
        obtain ⟨rest', hrest, hread⟩ := ih hmore
        exact ⟨rest', hrest, .sign negative hread⟩
  | @operand tok a p q toks mid rest htok htrailers hpower ih ih' =>
      intro toks' hswap
      obtain ⟨heq, rfl⟩ | ⟨more', rfl, hmore⟩ := hswap.cons_cases
      · exact ⟨rest, .same _ _, hx.reads (heq ▸ .operand htok htrailers hpower)⟩
      · rw [Token.endsOperand_of_operand? htok] at hmore
        obtain ⟨mid', hmid, hread⟩ := ih hmore
        obtain ⟨rest', hrest, hread'⟩ := ih' hmid
        exact ⟨rest', hrest, .operand htok hread hread'⟩
  | @round p q r toks mid mid' rest hwalrus hinner htrailers hpower ih ih' ih'' =>
      intro toks' hswap
      obtain ⟨heq, rfl⟩ | ⟨more', rfl, hmore⟩ := hswap.cons_cases
      · exact ⟨rest, .same _ _, hx.reads (heq ▸ .round hwalrus hinner htrailers hpower)⟩
      · obtain ⟨close', hclose, hread⟩ := ih hmore
        obtain ⟨mid₁, rfl, hmid⟩ := hclose.after_cons
        obtain ⟨mid₂, hmid', hread'⟩ := ih' hmid
        obtain ⟨rest', hrest, hread''⟩ := ih'' hmid'
        exact ⟨rest', hrest, .round (hmore.startsWordAnd_eq_false hx hwalrus) hread hread' hread''⟩
  | power_end hdouble =>
      intro toks' hswap
      exact ⟨toks', hswap, .power_end (hswap.expect_eq_none hdouble)⟩
  | power_more _ ih =>
      intro toks' hswap
      obtain ⟨more, rfl, hmore⟩ := hswap.after_cons
      obtain ⟨rest', hrest, hread⟩ := ih hmore
      exact ⟨rest', hrest, .power_more hread⟩
  | trailers_end htrailer =>
      intro toks' hswap
      exact ⟨toks', hswap, .trailers_end (by rwa [hswap.startsTrailer])⟩
  | call _ _ ih ih' =>
      intro toks' hswap
      obtain ⟨more, rfl, hmore⟩ := hswap.after_cons
      obtain ⟨mid', hmid, hread⟩ := ih hmore
      obtain ⟨rest', hrest, hread'⟩ := ih' hmid
      exact ⟨rest', hrest, .call hread hread'⟩
  | arguments_end =>
      intro toks' hswap
      obtain ⟨heq, -⟩ | ⟨more', rfl, hmore⟩ := hswap.cons_cases
      -- a closing bracket begins no operand, and so nothing that is exchanged
      · exact absurd (hx.opens_eq heq.symm) Bool.noConfusion
      · exact ⟨more', hmore, .arguments_end⟩
  | arguments_last hwalrus hequals _ ih =>
      intro toks' hswap
      obtain ⟨close', hclose, hread⟩ := ih hswap
      obtain ⟨rest', rfl, hrest⟩ := hclose.after_cons
      exact ⟨rest', hrest, .arguments_last (hswap.startsWordAnd_eq_false hx hwalrus)
        (hswap.startsWordAnd_eq_false hx hequals) hread⟩
  | arguments_more hwalrus hequals _ _ ih ih' =>
      intro toks' hswap
      obtain ⟨comma', hcomma, hread⟩ := ih hswap
      obtain ⟨mid', rfl, hmid⟩ := hcomma.after_cons
      obtain ⟨rest', hrest, hread'⟩ := ih' hmid
      exact ⟨rest', hrest, .arguments_more (hswap.startsWordAnd_eq_false hx hwalrus)
        (hswap.startsWordAnd_eq_false hx hequals) hread hread'⟩

end Exchanging

/-! ## Where an operand is expected -/

/-- Tokens in which `M'` may stand in place of `M`, wherever that is. -/
inductive Replace (M M' B : List Token) : List Token → List Token → Prop
  | same (toks : List Token) : Replace M M' B toks toks
  | here : Replace M M' B (M ++ B) (M' ++ B)
  | skip (tok : Token) {toks toks' : List Token} :
      Replace M M' B toks toks' → Replace M M' B (tok :: toks) (tok :: toks')

theorem replace_append (M M' B A : List Token) : Replace M M' B (A ++ (M ++ B)) (A ++ (M' ++ B)) := by
  induction A with
  | nil => exact .here
  | cons tok A ih => exact .skip tok ih

def Expecting (A : List Token) : Prop := ∀ tok ∈ A.getLast?, tok.endsOperand = false

/-- Where an operand is expected, another one can be put in its place. -/
theorem Expecting.swap {A : List Token} (h : Expecting A) (M M' B : List Token) (expected : Bool)
    (hfirst : A = [] → expected = true) :
    Swap M M' B expected (A ++ (M ++ B)) (A ++ (M' ++ B)) := by
  induction A generalizing expected with
  | nil =>
      rw [hfirst rfl]
      exact .here
  | cons tok A ih =>
      refine .skip tok (ih (fun last hlast => h last ?_) _ fun hA => ?_)
      · rw [List.getLast?_cons, Option.mem_def.1 hlast]
        rfl
      · subst hA
        rw [h tok rfl]
        rfl

theorem Replace.after_mark {t : Nat} {m : Mark} {more : List Token}
    (h : Replace [.int t] M' B (.mark m :: more) toks') :
    ∃ more', toks' = .mark m :: more' ∧ Replace [.int t] M' B more more' := by
  cases h with
  | same _ => exact ⟨more, rfl, .same _⟩
  | skip _ h => exact ⟨_, rfl, h⟩

/-- Whatever has been read, an integer in it has been read as an operand. By induction on the phrase: where
nothing is read in front of what stands behind the phrase, it is known to be so. -/
theorem Reads.expects {φ : Phrase} {rest : List Token} {p : Parsed} {t : Nat} (h : Reads φ toks p rest) :
    (∀ {rest'}, Replace [.int t] M' B rest rest' → Swap [.int t] M' B false rest rest') →
      ∀ {toks'}, Replace [.int t] M' B toks toks' → Swap [.int t] M' B φ.operand toks toks' := by
  induction h with
  -- what is left of a phrase becomes what its last part leaves, so the hypothesis is handed down from the end
  | expression _ _ ih => exact ih
  | climb _ _ ih ih' => exact fun hrest => ih (ih' hrest)
  | climbRest_end _ => exact id
  | climbRest_more hop _ _ _ ih ih' =>
      intro hrest toks' hreplace
      obtain ⟨more', rfl, hmore⟩ := hreplace.after_mark
      refine .skip _ ?_
      rw [endsOperand_of_binaryOperator? hop]
      exact ih (ih' hrest) hmore
  | @sign negative _ _ _ _ ih =>
      intro hrest toks' hreplace
      obtain ⟨more', rfl, hmore⟩ := hreplace.after_mark
      have hswap := ih hrest hmore
      exact .skip _ (by cases negative <;> exact hswap)
  | operand htok _ _ ih ih' =>
      intro hrest toks' hreplace
      cases hreplace with
      -- the operand is the integer itself, or it stands in front of it
      | same _ => exact .same _ _
      | here => exact .here
      | skip _ hmore =>
          refine .skip _ ?_
          rw [Token.endsOperand_of_operand? htok]
          exact ih (ih' hrest) hmore
  | round _ _ _ _ ih ih' ih'' =>
      intro hrest toks' hreplace
      obtain ⟨more', rfl, hmore⟩ := hreplace.after_mark
      refine .skip _ (ih (fun hclose => ?_) hmore)
      obtain ⟨mid', rfl, hmid⟩ := hclose.after_mark
      exact .skip _ (ih' (ih'' hrest) hmid)
  | power_end _ => exact id
  | power_more _ ih =>
      intro hrest toks' hreplace
      obtain ⟨more', rfl, hmore⟩ := hreplace.after_mark
      exact .skip _ (ih hrest hmore)
  | trailers_end _ => exact id
  | call _ _ ih ih' =>
      intro hrest toks' hreplace
      obtain ⟨more', rfl, hmore⟩ := hreplace.after_mark
      exact .skip _ (ih (ih' hrest) hmore)
  | arguments_end =>
      intro hrest toks' hreplace
      obtain ⟨more', rfl, hmore⟩ := hreplace.after_mark
      exact .skip _ (hrest hmore)
  | arguments_last _ _ _ ih =>
      intro hrest toks' hreplace
      refine ih (fun hclose => ?_) hreplace
      obtain ⟨more', rfl, hmore⟩ := hclose.after_mark
      exact .skip _ (hrest hmore)
  | arguments_more _ _ _ _ ih ih' =>
      intro hrest toks' hreplace
      refine ih (fun hcomma => ?_) hreplace
      obtain ⟨more', rfl, hmore⟩ := hcomma.after_mark
      exact .skip _ (ih' hrest hmore)

end Swapping

/-! ## Integers with and without brackets -/

section Integers

variable {B rest : List Token} {left p : Parsed} {n : Nat}

abbrev intOperand (n : Nat) : Parsed := ⟨.number (.int n), false⟩

abbrev openRound : Token := .mark (.opening .round)

abbrev closeRound : Token := .mark (.closing .round)

/-- A bracket that is read as a factor holds an expression, and perhaps something hangs on it. -/
theorem Reads.of_round {toks : List Token} (h : Reads .factor (openRound :: toks) p rest) :
    ∃ q r mid mid', Reads .expression toks q (closeRound :: mid) ∧ Reads (.trailers q) mid r mid' ∧
      Reads (.power r) mid' p rest := by
  generalize hall : openRound :: toks = all at h
  cases h with
  | sign negative _ => cases negative <;> cases hall
  | operand htok _ _ =>
      cases hall
      cases htok
  | round _ hinner htrailers hpower =>
      cases hall
      exact ⟨_, _, _, _, hinner, htrailers, hpower⟩

/-- A minus in front makes a sign of what is behind it. -/
theorem Reads.of_minus {toks : List Token} (h : Reads .factor (.mark .minus :: toks) p rest) :
    ∃ q, Reads .factor toks q rest ∧ p = ⟨.signed true q.expr, false⟩ := by
  generalize hall : Token.mark .minus :: toks = all at h
  cases h with
  | sign negative hread =>
      cases negative
      · cases hall
      · cases hall
        exact ⟨_, hread, rfl⟩
  | operand htok _ _ =>
      cases hall
      cases htok
  | round _ _ _ _ => cases hall

theorem closed_trailers (h : Reads (.trailers left) (closeRound :: B) p rest) :
    p = left ∧ rest = closeRound :: B := by
  cases h
  exact ⟨rfl, rfl⟩

theorem closed_power (h : Reads (.power left) (closeRound :: B) p rest) :
    p = left ∧ rest = closeRound :: B := by
  cases h
  exact ⟨rfl, rfl⟩

theorem closed_climbRest {level : Nat} (h : Reads (.climbRest level left) (closeRound :: B) p rest) :
    p = left ∧ rest = closeRound :: B := by
  cases h with
  | climbRest_end _ => exact ⟨rfl, rfl⟩
  | climbRest_more hop _ _ _ => cases hop

/-- An integer in front of a closing bracket is read alone. -/
theorem closed_int (h : Reads .factor (.int n :: closeRound :: B) p rest) :
    p = intOperand n ∧ rest = closeRound :: B := by
  cases h with
  | operand htok htrailers hpower =>
      cases htok
      obtain ⟨rfl, rfl⟩ := closed_trailers htrailers
      exact closed_power hpower

/-- What is read in front of a closing bracket, if nothing but an operand stands there. -/
theorem closed_expression {toks : List Token}
    (hfactor : ∀ {q mid}, Reads .factor toks q mid → q = left ∧ mid = closeRound :: B)
    (h : Reads .expression toks p rest) : p = left ∧ rest = closeRound :: B := by
  cases h with
  | expression hclimb _ =>
      cases hclimb with
      | climb hread hmore =>
          obtain ⟨rfl, rfl⟩ := hfactor hread
          exact closed_climbRest hmore

theorem expression_of_closed {toks : List Token} (h : Reads .factor toks p (closeRound :: B)) :
    Reads .expression toks p (closeRound :: B) :=
  .expression (.climb h (.climbRest_end (fun _ hx => by cases hx))) ⟨rfl, rfl, rfl, rfl⟩

theorem factor_int_of_closed : Reads .factor (.int n :: closeRound :: B) (intOperand n) (closeRound :: B) :=
  .operand rfl (.trailers_end rfl) (.power_end rfl)

/-- An integer may be put into brackets. -/
theorem exchange_bracketed (n : Nat) (B : List Token) :
    Exchange [.int n] [openRound, .int n, closeRound] B where
  opens := rfl
  opens' := rfl
  notWord := nofun
  reads h := by
    cases h with
    | operand htok htrailers hpower =>
        cases htok
        exact .round rfl (expression_of_closed factor_int_of_closed) htrailers hpower

/-- An integer may be put into brackets wherever it stands in an expression. -/
theorem Reads.bracketed {A : List Token} (h : Reads .expression (A ++ .int n :: B) p []) :
    Reads .expression (A ++ openRound :: .int n :: closeRound :: B) p [] := by
  have hreplace := replace_append [.int n] [openRound, .int n, closeRound] B A
  have hswap := h.expects (fun hrest => by cases hrest; exact .same _ _) hreplace
  obtain ⟨rest, hrest, hread⟩ := h.swap (exchange_bracketed n B) hswap
  cases hrest
  exact hread

/-- The brackets around an integer may be left out. -/
theorem exchange_bare (n : Nat) (B : List Token) :
    Exchange [openRound, .int n, closeRound] [.int n] B where
  opens := rfl
  opens' := rfl
  notWord := nofun
  reads h := by
    obtain ⟨q, r, mid, mid', hinner, htrailers, hpower⟩ := h.of_round
    obtain ⟨rfl, hclose⟩ := closed_expression closed_int hinner
    cases hclose
    exact .operand rfl htrailers hpower

/-- The brackets around a negative integer may be left out, if nothing that binds more tightly than a sign
stands behind it. -/
theorem exchange_negative (n : Nat) {B : List Token} (htrailer : startsTrailer B = false)
    (hdouble : expect .doubleStar B = none) :
    Exchange [openRound, .mark .minus, .int n, closeRound] [.mark .minus, .int n] B where
  opens := rfl
  opens' := rfl
  notWord := nofun
  reads h := by
    -- the bracket is read first, and nothing but the sign and the number is in it
    obtain ⟨q, r, mid, mid', hinner, htrailers, hpower⟩ := h.of_round
    have hsign {a after} (hread : Reads .factor (.mark .minus :: .int n :: closeRound :: B) a after) :
        a = ⟨.signed true (.number (.int n)), false⟩ ∧ after = closeRound :: B := by
      obtain ⟨a, hint, rfl⟩ := hread.of_minus
      obtain ⟨rfl, rfl⟩ := closed_int hint
      exact ⟨rfl, rfl⟩
    obtain ⟨rfl, hclose⟩ := closed_expression hsign hinner
    cases hclose
    cases htrailers with
    | call _ _ => cases htrailer
    | trailers_end _ =>
        cases hpower with
        | power_more _ => simp [expect] at hdouble
        | power_end _ =>
            -- no power follows, so the sign may come last
            have hint : Reads .factor (.int n :: B) (intOperand n) B :=
              .operand rfl (.trailers_end htrailer) (.power_end hdouble)
            exact .sign true hint

/-- Where an operand is expected, the brackets around an integer may be left out. -/
theorem Reads.bare {A : List Token} (hA : Expecting A)
    (h : Reads .expression (A ++ openRound :: .int n :: closeRound :: B) p []) :
    Reads .expression (A ++ .int n :: B) p [] := by
  have hswap := hA.swap [openRound, .int n, closeRound] [.int n] B true fun _ => rfl
  obtain ⟨rest, hrest, hread⟩ := h.swap (exchange_bare n B) hswap
  cases hrest
  exact hread

/-- The same for a negative integer, in front of what binds less tightly than a sign. -/
theorem Reads.bareNegative {A : List Token} (hA : Expecting A) (htrailer : startsTrailer B = false)
    (hdouble : expect .doubleStar B = none)
    (h : Reads .expression (A ++ openRound :: .mark .minus :: .int n :: closeRound :: B) p []) :
    Reads .expression (A ++ .mark .minus :: .int n :: B) p [] := by
  have hswap := hA.swap [openRound, .mark .minus, .int n, closeRound] [.mark .minus, .int n] B true fun _ => rfl
  obtain ⟨rest, hrest, hread⟩ := h.swap (exchange_negative n htrailer hdouble) hswap
  cases hrest
  exact hread

end Integers

end Arithmetic

end TabletopChat
