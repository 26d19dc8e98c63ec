import TabletopChat.Proofs.Text.NulFree
import TabletopChat.Proofs.Dice.Plain.Expression

/-!
# Proofs/Dice/Plain/Tokens — the tokens of a plain expression over numbers

An expression is cut into the same tokens whether or not there are blanks around its operators, as long
as its brackets are not nested too deep.

- `Piece.token`  : the token of a piece
- `Lines`        : what a line is cut into, however much fuel there is
- `tokens?_textOf` : the tokens of an expression
-/

namespace TabletopChat

namespace Plain

open Arithmetic

variable {α : Type}

/-! ## Tokens of pieces -/

def Infix.mark : Infix → Mark
  | .add => .plus
  | .sub => .minus
  | .mul => .star
  | .floorDiv => .doubleSlash
  | .mod => .percent

def Piece.token (value : α → Nat) : Piece α → Token
  | .leaf a => .int (value a)
  | .sign n => .mark (if n then .minus else .plus)
  | .opening => .mark (.opening .round)
  | .closing => .mark (.closing .round)
  | .operator op => .mark op.mark

/-- Leaves that are written as numbers with no more digits than are read. -/
def Numeric (leafText : α → Text) (value : α → Nat) (as : List α) : Prop :=
  ∀ a ∈ as, leafText a = Text.ofNat (value a) ∧ value a < 10 ^ maxDigits

/-! ## Numerals -/

def enders : List Char := [' ', '(', ')', '+', '-', '*', '/', '%']

def After (t : Text) : Prop := ∀ c ∈ t.head?, c ∈ enders

theorem After.notBefore {t : Text} (h : After t) {p : Char → Bool} (hp : enders.any p = false) :
    Text.NotBefore p t := by
  intro c hc
  simpa using List.any_eq_false.mp hp c (h c hc)

/-- A run of digits is read as a whole if neither a digit nor an underscore follows. -/
theorem digitRun_digits {ds t : Text} (hds : ∀ c ∈ ds, c.isDigit = true)
    (ht : Text.NotBefore (fun c => c.isDigit || c == '_') t) :
    digitRun Char.isDigit (ds ++ t) = some (ds, t) := by
  induction ds with
  | nil =>
    match t with
    | [] => rfl
    | c :: cs =>
      have hc := ht c rfl
      simp only [Bool.or_eq_false_iff, beq_eq_false_iff_ne] at hc
      simp [digitRun, hc.1, hc.2]
  | cons c cs ih =>
    have hrest := ih fun d hd => hds d (.tail _ hd)
    simp [digitRun, hds c (.head _), hrest]

/-- A number ends where the grammar lets it end. -/
theorem endsNumber_of_after {t : Text} (h : After t) : endsNumber t = true := by
  have hword := h.notBefore (p := inWord) (by decide)
  unfold endsNumber
  match t with
  | [] => simp
  | c :: cs => simp [hword c rfl]

/-- A written integer is cut off as one token. -/
theorem plainNumber_ofNat {n : Nat} (hn : n < 10 ^ maxDigits) {t : Text} (h : After t) :
    plainNumber (Text.ofNat n) [] false t = some (.int n, t) := by
  have hj : ¬ t.head? = some 'j' := fun he => absurd (h 'j' he) (by decide)
  have hJ : ¬ t.head? = some 'J' := fun he => absurd (h 'J' he) (by decide)
  have hzero : ((Text.ofNat n).head? = some '0' && (Text.ofNat n).any (· ≠ '0')) = false := by
    rcases hdigits : Text.ofNat n with - | ⟨c, cs⟩
    · rfl
    · by_cases hc : c = '0'
      · subst hc
        rw [Text.eq_zero_of_head_ofNat hdigits] at hdigits
        cases hdigits
        decide
      · simp [hc]
  have hlength : ¬ (Text.ofNat n).length > maxDigits := by
    have hle : (Text.ofNat n).length ≤ maxDigits := Text.length_ofNat_le (by decide) hn
    omega
  simp only [plainNumber, hj, hJ, hzero, if_neg hlength, endNumber, endsNumber_of_after h,
    digitsIn_ofNat]
  simp

/-- In front of a break there is no exponent. -/
theorem exponentNumber_of_after (whole : Text) {t : Text} (h : After t) :
    exponentNumber whole [] false t = plainNumber whole [] false t := by
  match t with
  | [] => rfl
  | c :: cs =>
    have hletter : (decide (c = 'e') || decide (c = 'E')) = false :=
      h.notBefore (p := fun c => decide (c = 'e') || decide (c = 'E')) (by decide) c rfl
    rw [exponentNumber, hletter, if_neg (by decide)]

/-- Digits in front of something else are read as a whole number. -/
theorem decimalNumber?_digits {ds t : Text} (hds : ∀ c ∈ ds, c.isDigit = true) (h : After t) :
    decimalNumber? (ds ++ t) = plainNumber ds [] false t := by
  rw [decimalNumber?, digitRun_digits hds (h.notBefore (by decide)), Option.bind_some]
  dsimp only
  split
  · exact absurd (h '.' rfl) (by decide)
  · rw [exponentNumber_of_after _ h]

/-- Digits in front of a break are a number. -/
theorem number?_digits {ds t : Text} (hds : ∀ c ∈ ds, c.isDigit = true) (hne : ds ≠ []) (h : After t) :
    number? (ds ++ t) = plainNumber ds [] false t := by
  rw [← decimalNumber?_digits hds h]
  unfold number?
  split
  · rename_i c cs heq
    -- behind a leading zero there is a digit or what follows the digits
    have hc : c.isDigit = true ∨ c ∈ enders := by
      match ds, hne with
      | [d], _ =>
        have ht : t = c :: cs := (List.cons.inj heq).2
        exact .inr (h c (by rw [ht]; rfl))
      | d :: e :: ds, _ =>
        have he : e = c := (List.cons.inj (List.cons.inj heq).2).1
        exact .inl (he ▸ hds e (by simp))
    have hbase (d : Char) (hd : d.isDigit = false ∧ enders.contains d = false) : ¬ c = d := by
      rintro rfl
      rcases hc with hc | hc
      · rw [hd.1] at hc
        cases hc
      · simp [hc] at hd
    simp [hbase 'x' (by decide), hbase 'X' (by decide), hbase 'o' (by decide), hbase 'O' (by decide),
      hbase 'b' (by decide), hbase 'B' (by decide)]
  · rfl

theorem token?_digits {ds t : Text} (hds : ∀ c ∈ ds, c.isDigit = true) (hne : ds ≠ []) (h : After t) :
    token? (ds ++ t) = plainNumber ds [] false t := by
  rw [← number?_digits hds hne h]
  match ds, hne with
  | c :: cs, _ => simp [token?, hds c (.head _)]

theorem token?_ofNat {n : Nat} (hn : n < 10 ^ maxDigits) {t : Text} (h : After t) :
    token? (Text.ofNat n ++ t) = some (.int n, t) := by
  rw [token?_digits (fun c => Text.isDigit_of_mem_ofNat) (Text.ofNat_ne_nil n) h, plainNumber_ofNat hn h]

/-! ## Marks -/

theorem token?_sign (n : Bool) (t : Text) :
    token? ((if n then '-' else '+') :: t) = some (.mark (if n then .minus else .plus), t) := by
  cases n <;> rfl

theorem token?_opening (t : Text) : token? ('(' :: t) = some (.mark (.opening .round), t) := rfl

theorem token?_closing (t : Text) : token? (')' :: t) = some (.mark (.closing .round), t) := rfl

/-- The sign of an operator is cut off as one token. -/
theorem token?_operator (op : Infix) {t : Text} (ht : ∀ c ∈ t.head?, c ≠ '*') :
    token? (op.operator.sign ++ t) = some (.mark op.mark, t) := by
  cases op with
  | mul =>
    match t with
    | [] => rfl
    | c :: cs =>
      have hc : ¬ '*' = c := fun he => ht c rfl he.symm
      have hmark : mark? ('*' :: c :: cs) = some (.star, c :: cs) := by
        have hlength : "*".length = 1 := rfl
        simp [mark?, Mark.table, hc, hlength]
      have hword : inWord '*' = false := by decide
      simp [token?, Infix.operator, Operator.sign, hword, hmark, Infix.mark]
  | add => rfl
  | sub => rfl
  | floorDiv => rfl
  | mod => rfl

/-! ## Lines -/

/-- What a line is cut into at a bracket depth, however much fuel there is. -/
def Lines (depth : Nat) (t : Text) (toks : List Token) : Prop :=
  ∀ fuel, t.length < fuel → lineTokens fuel depth t = some toks

theorem lines_nil : Lines 0 [] [] := by
  intro fuel hfuel
  match fuel, hfuel with
  | n + 1, _ => rfl

/-- A gap between tokens does not count. -/
theorem Lines.gap {c : Char} (hgap : isGap c = true) {depth : Nat} {t : Text} {toks : List Token}
    (h : Lines depth t toks) : Lines depth (c :: t) toks := by
  intro fuel hfuel
  match fuel, hfuel with
  | n + 1, hfuel =>
    rw [lineTokens, if_pos hgap]
    exact h n (by simpa using hfuel)

def startsToken (c : Char) : Bool := !isGap c && c != '#' && c != '\\' && c != '\n'

/-- A token at the beginning of a line is the first of its tokens. -/
theorem Lines.token {depth depth' : Nat} {u t : Text} {tok : Token} {toks : List Token}
    (hu : ∃ c ∈ u.head?, startsToken c = true) (htoken : token? (u ++ t) = some (tok, t))
    (hdepth : depthAfter depth tok = some depth') (h : Lines depth' t toks) :
    Lines depth (u ++ t) (tok :: toks) := by
  intro fuel hfuel
  match u, hu with
  | c :: cs, ⟨d, hd, hstart⟩ =>
    cases hd
    simp only [startsToken, Bool.and_eq_true, Bool.not_eq_true', bne_iff_ne] at hstart
    rcases hstart with ⟨⟨⟨hgap, hhash⟩, hjoin⟩, hline⟩
    match fuel, hfuel with
    | n + 1, hfuel =>
      have hrest := h n (by simp at hfuel; omega)
      rw [List.cons_append] at htoken ⊢
      rw [lineTokens, if_neg (by simp [hgap]), if_neg hhash, if_neg hjoin, if_neg hline, htoken]
      simp [hdepth, hrest]

def isGapText (gap : Text) : Prop := gap = [] ∨ gap = [' ']

theorem Lines.skip {gap : Text} (hgap : isGapText gap) {depth : Nat} {t : Text} {toks : List Token}
    (h : Lines depth t toks) : Lines depth (gap ++ t) toks := by
  rcases hgap with rfl | rfl
  · exact h
  · exact h.gap rfl

/-- A number may stand in front of an operator. -/
theorem after_operator {gap : Text} (hgap : isGapText gap) (op : Infix) (t : Text) :
    After (gap ++ op.operator.sign ++ gap ++ t) := by
  intro c hc
  rcases hgap with rfl | rfl
  · cases op <;> cases hc <;> decide
  · cases hc
    decide

/-! ## The characters of an expression -/

def outerMarks : List Char := ['+', '-', '(', ')']

def isFirst (c : Char) : Bool := c.isDigit || outerMarks.contains c

theorem ne_of_isFirst {c d : Char} (hc : isFirst c = true) (hd : isFirst d = false) : c ≠ d := by
  rintro rfl
  rw [hd] at hc
  cases hc

theorem startsToken_of_isFirst {c : Char} (h : isFirst c = true) : startsToken c = true := by
  have hgap : isGap c = false := by
    simp only [isGap, Bool.or_eq_false_iff, decide_eq_false_iff_not]
    exact ⟨⟨ne_of_isFirst h (by decide), ne_of_isFirst h (by decide)⟩, ne_of_isFirst h (by decide)⟩
  have hhash : c ≠ '#' := ne_of_isFirst h (by decide)
  have hjoin : c ≠ '\\' := ne_of_isFirst h (by decide)
  have hline : c ≠ '\n' := ne_of_isFirst h (by decide)
  simp [startsToken, hgap, hhash, hjoin, hline]

theorem startsToken_ofNat (n : Nat) : ∃ c ∈ (Text.ofNat n).head?, startsToken c = true := by
  rcases Text.exists_ofNat n with ⟨c, cs, hdigits, hc⟩
  rw [hdigits]
  exact ⟨c, rfl, startsToken_of_isFirst (by simp [isFirst, hc])⟩

section Cutting

variable {gap : Text} {leafText : α → Text} {value : α → Nat}

/-- An expression begins with a character that a token can begin with. -/
theorem exists_firstChar (gap : Text) {e : Expression α} (h : Numeric leafText value e.leaves) :
    ∃ c cs, textOf gap leafText e.pieces = c :: cs ∧ isFirst c = true := by
  rcases e.exists_first with ⟨p, ps, hps, hp⟩
  rw [hps, textOf_cons]
  match p, hp, hps with
  | .leaf a, _, hps =>
    have ha : a ∈ e.leaves := mem_leavesOf (p := .leaf a) (by simp [hps]) rfl
    rcases Text.exists_ofNat (value a) with ⟨c, cs, hdigits, hc⟩
    refine ⟨c, cs ++ textOf gap leafText ps, ?_, by simp [isFirst, hc]⟩
    rw [Piece.text, (h a ha).1, hdigits, List.cons_append]
  | .sign n, _, _ => cases n <;> exact ⟨_, _, rfl, by decide⟩
  | .opening, _, _ => exact ⟨_, _, rfl, by decide⟩
  | .closing, _, _ => exact ⟨_, _, rfl, by decide⟩

/-- No star follows an operator, so that no operator is read as a longer one. -/
theorem head_ne_star (hgap : isGapText gap) {e : Expression α} (h : Numeric leafText value e.leaves) (t : Text) :
    ∀ c ∈ (gap ++ (textOf gap leafText e.pieces ++ t)).head?, c ≠ '*' := by
  intro c hc
  rcases hgap with rfl | rfl
  · rcases exists_firstChar [] h with ⟨d, ds, htext, hd⟩
    rw [htext] at hc
    cases hc
    exact ne_of_isFirst hd (by decide)
  · cases hc
    decide

mutual

/-- The tokens of an operand are those of its pieces. -/
theorem lines_operand (hgap : isGapText gap) :
    (x : Operand α) → Numeric leafText value x.leaves →
    ∀ depth t toks, depth + x.depth ≤ maxDepth → After t → Lines depth t toks →
      Lines depth (textOf gap leafText x.pieces ++ t) (x.pieces.map (Piece.token value) ++ toks)
  | .leaf a, h => by
    intro depth t toks _ hafter hlines
    rcases h a (by simp [Operand.leaves, Operand.pieces]) with ⟨htext, hsmall⟩
    simpa [Operand.pieces, Piece.text, Piece.token, htext] using
      hlines.token (startsToken_ofNat _) (token?_ofNat hsmall hafter) rfl
  | .signed n x, h => by
    intro depth t toks hdepth hafter hlines
    have hinner := lines_operand hgap x h depth t toks hdepth hafter hlines
    have hstart : ∃ c ∈ [if n then '-' else '+'].head?, startsToken c = true := by
      cases n <;> exact ⟨_, rfl, by decide⟩
    simpa [Operand.pieces, Piece.text, Piece.token] using
      hinner.token hstart (token?_sign n _) (by cases n <;> rfl)
  | .group e, h => by
    intro depth t toks hdepth hafter hlines
    have he : Numeric leafText value e.leaves := by
      intro a ha
      exact h a (by simpa [Operand.leaves, Expression.leaves, Operand.pieces] using ha)
    have hdepth' : depth + 1 + e.depth ≤ maxDepth := by
      simp only [Operand.depth] at hdepth
      omega
    have hopen : depthAfter depth (.mark (.opening .round)) = some (depth + 1) := by
      rw [depthAfter, if_pos (by omega)]
    -- from behind: the closing bracket, then what it closes at one level deeper, then the opening one
    have hclosed : Lines (depth + 1) ([')'] ++ t) (.mark (.closing .round) :: toks) :=
      hlines.token ⟨')', rfl, by decide⟩ (token?_closing t) rfl
    have hafter' : After ([')'] ++ t) := by
      intro c hc
      cases hc
      decide
    have hinner := lines_expression hgap e he (depth + 1) _ _ hdepth' hafter' hclosed
    have hall := hinner.token (u := ['(']) ⟨'(', rfl, by decide⟩ (token?_opening _) hopen
    simpa [Operand.pieces, Piece.text, Piece.token] using hall

/-- An expression is cut into the tokens of its pieces. -/
theorem lines_expression (hgap : isGapText gap) :
    (e : Expression α) → Numeric leafText value e.leaves →
    ∀ depth t toks, depth + e.depth ≤ maxDepth → After t → Lines depth t toks →
      Lines depth (textOf gap leafText e.pieces ++ t) (e.pieces.map (Piece.token value) ++ toks)
  | .last x, h => lines_operand hgap x h
  | .more x op e, h => by
    intro depth t toks hdepth hafter hlines
    have hboth : ∀ a, a ∈ x.leaves ∨ a ∈ e.leaves →
        leafText a = Text.ofNat (value a) ∧ value a < 10 ^ maxDigits := by
      intro a ha
      exact h a (by simpa [Operand.leaves, Expression.leaves, Expression.pieces] using ha)
    have he : Numeric leafText value e.leaves := fun a ha => hboth a (.inr ha)
    have hdepths : max x.depth e.depth ≤ maxDepth - depth ∧ depth ≤ maxDepth := by
      simp only [Expression.depth] at hdepth
      omega
    -- from the right: the tail, then the operator, then the operand in front
    have hright := lines_expression hgap e he depth t toks (by omega) hafter hlines
    have hop : Lines depth (op.operator.sign ++ (gap ++ (textOf gap leafText e.pieces ++ t)))
        (.mark op.mark :: (e.pieces.map (Piece.token value) ++ toks)) := by
      refine (hright.skip hgap).token ?_ (token?_operator op (head_ne_star hgap he t)) ?_
      · cases op <;> exact ⟨_, rfl, by decide⟩
      · cases op <;> rfl
    have hleft := lines_operand hgap x (fun a ha => hboth a (.inl ha)) depth _ _ (by omega) ?_
      (hop.skip hgap)
    · simpa [Expression.pieces, Piece.text, Piece.token] using hleft
    · have hbehind := after_operator hgap op (textOf gap leafText e.pieces ++ t)
      simpa using hbehind

end

/-! ## The tokens of an expression -/

def isPlain (c : Char) : Bool :=
  c.isDigit || [' ', '+', '-', '*', '/', '%', '(', ')'].contains c

/-- An expression is written with plain characters only. -/
theorem isPlain_of_mem (hgap : isGapText gap) {ps : List (Piece α)}
    (h : Numeric leafText value (leavesOf ps)) {c : Char} (hc : c ∈ textOf gap leafText ps) :
    isPlain c = true := by
  rcases List.mem_flatMap.mp hc with ⟨p, hp, hc⟩
  match p, hp, hc with
  | .leaf a, hp, hc =>
    have ha := (h a (mem_leavesOf hp rfl)).1
    rw [Piece.text, ha] at hc
    simp [isPlain, Text.isDigit_of_mem_ofNat hc]
  | .sign n, _, hc =>
    cases n <;> simp [Piece.text] at hc <;> subst hc <;> decide
  | .opening, _, hc =>
    simp [Piece.text] at hc
    subst hc
    decide
  | .closing, _, hc =>
    simp [Piece.text] at hc
    subst hc
    decide
  | .operator op, _, hc =>
    have hsign : op.operator.sign.all isPlain = true := by cases op <;> decide
    have hblank : gap.all isPlain = true := by rcases hgap with rfl | rfl <;> decide
    simp only [Piece.text, List.mem_append] at hc
    rcases hc with (hc | hc) | hc
    · exact List.all_eq_true.mp hblank c hc
    · exact List.all_eq_true.mp hsign c hc
    · exact List.all_eq_true.mp hblank c hc

theorem skipLines_first (fuel : Nat) {c : Char} (hc : isFirst c = true) (cs : Text) :
    skipLines (fuel + 1) false false (c :: cs) = some (false, c :: cs) := by
  have hne (d : Char) (hd : isFirst d = false) : ¬ c = d := ne_of_isFirst hc hd
  simp [skipLines, hne ' ' (by decide), hne '\t' (by decide), hne '\x0c' (by decide),
    hne '\n' (by decide), hne '#' (by decide), hne '\\' (by decide)]

/-- The tokens of an expression over numbers are those of its pieces, with gaps or without. -/
theorem tokens?_textOf (hgap : isGapText gap) {e : Expression α}
    (h : Numeric leafText value e.leaves) (hdepth : e.depth ≤ maxDepth) :
    tokens? (textOf gap leafText e.pieces) = some (e.pieces.map (Piece.token value)) := by
  have hline : '\r' ∉ textOf gap leafText e.pieces := fun hmem =>
    absurd (isPlain_of_mem hgap h hmem) (by decide)
  have hlines := lines_expression hgap e h 0 [] [] (by omega) (by simp [After]) lines_nil
  rw [List.append_nil, List.append_nil] at hlines
  rcases exists_firstChar gap h with ⟨c, cs, htext, hc⟩
  rw [tokens?, Text.unifyLineEnds_eq hline]
  have hskip := skipLines_first (textOf gap leafText e.pieces).length hc cs
  rw [← htext] at hskip
  simp only [hskip]
  exact hlines _ (Nat.lt_succ_self _)

end Cutting

end Plain

end TabletopChat
