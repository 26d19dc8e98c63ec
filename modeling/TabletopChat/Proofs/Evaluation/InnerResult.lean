import TabletopChat.Proofs.Dice.Plain.Agreement
import TabletopChat.Proofs.Arithmetic.Prepared
import TabletopChat.Proofs.Evaluation.NestedRoll

/-!
# Proofs/Evaluation/InnerResult — the result of an inner roll as one operand of the roll around it

The result of an inner roll takes its place as it is written, without brackets. Between operators that makes no
difference to the value, unless the result is negative and a power stands behind it: then the power is
taken of the number without its sign.

- `Leads`, `Trails` : texts in front of an operand and behind it
- `CutsTo.expecting` : in front of it an operand is expected
- `outcome_bare`    : an operand without brackets
- `inner_is_operand` : a roll with another one inside of it
-/

namespace TabletopChat

open Text

namespace Arithmetic

/-! ## Texts around an operand -/

def operators : List Char := ['+', '-', '*', '/', '%', '^']

def isSimple (c : Char) : Bool := c.isDigit || [' ', '(', ')'].contains c || operators.contains c

/-- A text in front of an operand: nothing, or one that ends with an operator or with an opening bracket. -/
structure Leads (p : Text) : Prop where
  simple : ∀ c ∈ p, isSimple c = true
  last : ∀ c ∈ p.getLast?, c = '(' ∨ c ∈ operators

/-- A text behind an operand: nothing, or one that begins with an operator or with a closing bracket. -/
structure Trails (s : Text) : Prop where
  simple : ∀ c ∈ s, isSimple c = true
  first : ∀ c ∈ s.head?, c = ')' ∨ c ∈ operators

theorem leads_iff {p : Text} :
    Leads p ↔ p.all isSimple = true ∧ p.getLast?.all (fun c => c = '(' ∨ c ∈ operators) = true := by
  rw [List.all_eq_true, Option.all_eq_true]
  simp only [decide_eq_true_eq]
  exact ⟨fun h => ⟨h.simple, h.last⟩, fun h => ⟨h.1, h.2⟩⟩

theorem trails_iff {s : Text} :
    Trails s ↔ s.all isSimple = true ∧ s.head?.all (fun c => c = ')' ∨ c ∈ operators) = true := by
  rw [List.all_eq_true, Option.all_eq_true]
  simp only [decide_eq_true_eq]
  exact ⟨fun h => ⟨h.simple, h.first⟩, fun h => ⟨h.1, h.2⟩⟩

instance (p : Text) : Decidable (Leads p) := decidable_of_iff' _ leads_iff

instance (s : Text) : Decidable (Trails s) := decidable_of_iff' _ trails_iff

/-- The characters that a sign can have when powers are written with two stars. -/
def isSign (c : Char) : Bool := ['+', '-', '*', '/', '%'].contains c

theorem isPlain_of_isSimple {c : Char} (h : isSimple c = true) (hc : c ≠ '^') : Plain.isPlain c = true := by
  simp only [isSimple, operators, Plain.isPlain, List.contains_eq_mem, List.mem_cons, List.not_mem_nil, or_false,
    Bool.or_eq_true, decide_eq_true_eq] at h ⊢
  grind

/-- Powers are written with characters that are plain. -/
theorem isPlain_of_mem_powers {t : Text} (h : ∀ c ∈ t, isSimple c = true) {c : Char} (hc : c ∈ powers t) :
    Plain.isPlain c = true := by
  rw [powers_eq, List.mem_flatMap] at hc
  obtain ⟨d, hd, hc⟩ := hc
  split at hc
  · obtain rfl : c = '*' := by simpa using hc
    decide
  · rename_i hne
    obtain rfl := List.mem_singleton.1 hc
    exact isPlain_of_isSimple (h c hd) hne

/-- The first and the last character of a character that is written as a power. -/
def star (c : Char) : Char := if c = '^' then '*' else c

theorem head?_powers (t : Text) : (powers t).head? = t.head?.map star := by
  rw [powers_eq]
  cases t with
  | nil => rfl
  | cons c cs => by_cases hc : c = '^' <;> simp [star, hc]

theorem getLast?_powers (t : Text) : (powers t).getLast? = t.getLast?.map star := by
  rcases List.eq_nil_or_concat t with rfl | ⟨cs, c, rfl⟩
  · rfl
  · rw [List.concat_eq_append, powers_append, powers_eq [c]]
    by_cases hc : c = '^' <;> simp [star, hc]

theorem star_of_mem_operators {c : Char} (hc : c ∈ operators) : isSign (star c) = true := by
  simp only [operators, List.mem_cons, List.not_mem_nil, or_false] at hc
  obtain rfl | rfl | rfl | rfl | rfl | rfl := hc <;> rfl

/-- What is true of the characters that can stand in front of an operand. -/
theorem of_leader {P : Char → Prop} [DecidablePred P] {c : Char} (hc : c = '(' ∨ isSign c = true)
    (h : ['(', '+', '-', '*', '/', '%'].all P = true) : P c := by
  refine of_decide_eq_true (List.all_eq_true.1 h c ?_)
  simpa [isSign] using hc

theorem isBlank_star {c : Char} (hc : isBlank c = false) : isBlank (star c) = false := by
  unfold star
  split
  · rfl
  · exact hc

/-- A text in front of an operand that is ready to be cut. -/
structure Ahead (u : Text) : Prop where
  plain : ∀ c ∈ u, Plain.isPlain c = true
  first : NotBefore isBlank u
  last : ∀ c ∈ u.getLast?, c = '(' ∨ isSign c = true

structure Behind (y : Text) : Prop where
  plain : ∀ c ∈ y, Plain.isPlain c = true
  first : ∀ c ∈ y.head?, c = ')' ∨ isSign c = true

theorem not_return_mem {t : Text} (h : ∀ c ∈ t, Plain.isPlain c = true) : '\r' ∉ t := fun hmem =>
  absurd (h _ hmem) (by decide)

/-- What leads to an operand is ready to be cut. -/
theorem Leads.ahead {p : Text} (hp : Leads p) : Ahead (lead p) := by
  have hdrop := List.dropWhile_suffix (l := p) isBlank
  have hplain : ∀ c ∈ powers (p.dropWhile isBlank), Plain.isPlain c = true := fun c =>
    isPlain_of_mem_powers fun c hc => hp.simple c (hdrop.mem hc)
  rw [lead, unifyLineEnds_eq (not_return_mem hplain)]
  refine ⟨hplain, fun c hc => ?_, fun c hc => ?_⟩
  · rw [head?_powers] at hc
    obtain ⟨d, hd, rfl⟩ := Option.map_eq_some_iff.1 hc
    exact isBlank_star (notBefore_dropWhile isBlank p d hd)
  · rw [getLast?_powers] at hc
    obtain ⟨d, hd, rfl⟩ := Option.map_eq_some_iff.1 hc
    obtain ⟨a, ha⟩ := hdrop
    have hlast : d ∈ p.getLast? := by
      rw [← ha, List.getLast?_append, hd]
      rfl
    exact (hp.last d hlast).imp (fun h => by rw [h]; rfl) star_of_mem_operators

/-- What is left of a text at its end. -/
theorem trimmed_isPrefix (s : Text) : (s.reverse.dropWhile isBlank).reverse <+: s := by
  have hdrop := List.dropWhile_suffix (l := s.reverse) isBlank
  rwa [← List.reverse_prefix, List.reverse_reverse] at hdrop

theorem Trails.trail_eq {s : Text} (hs : Trails s) : trail s = powers (s.reverse.dropWhile isBlank).reverse :=
  unifyLineEnds_eq (not_return_mem fun _ => isPlain_of_mem_powers fun c hc => hs.simple c ((trimmed_isPrefix s).mem hc))

/-- What trails behind an operand begins with a break. -/
theorem Trails.behind {s : Text} (hs : Trails s) : Behind (trail s) := by
  rw [hs.trail_eq]
  refine ⟨fun _ => isPlain_of_mem_powers fun c hc => hs.simple c ((trimmed_isPrefix s).mem hc), fun c hc => ?_⟩
  rw [head?_powers] at hc
  obtain ⟨d, hd, rfl⟩ := Option.map_eq_some_iff.1 hc
  obtain ⟨b, hb⟩ := trimmed_isPrefix s
  have hfirst : d ∈ s.head? := by
    rw [← hb, List.head?_append, hd]
    rfl
  exact (hs.first d hfirst).imp (fun h => by rw [h]; rfl) star_of_mem_operators

/-! ## The tokens in front of an operand -/

section Tokens

variable {u v rest : Text} {tok : Token}

theorem isDigit_or_of_isPlain {c : Char} (h : Plain.isPlain c = true) :
    c.isDigit = true ∨ c ∈ [' ', '+', '-', '*', '/', '%', '(', ')'] := by
  simpa [Plain.isPlain] using h

/-- In a plain text nothing but digits begins a number or a word. -/
theorem begins_of_isPlain {c : Char} (h : Plain.isPlain c = true) (hc : c.isDigit = false) (cs : Text) :
    beginsNumber (c :: cs) = false ∧ beginsWord (c :: cs) = false := by
  obtain hdigit | hmem := isDigit_or_of_isPlain h
  · rw [hdigit] at hc
    cases hc
  · simp only [List.mem_cons, List.not_mem_nil, or_false] at hmem
    obtain rfl | rfl | rfl | rfl | rfl | rfl | rfl | rfl := hmem <;> exact ⟨rfl, rfl⟩

/-- Signs are read by their table. -/
theorem exists_mark {c : Char} {cs : Text} (h : Plain.isPlain c = true) (hc : c.isDigit = false)
    (htok : token? (c :: cs) = some (tok, rest)) :
    ∃ e ∈ Mark.table, tok = .mark e.2 ∧ c :: cs = e.1.toList ++ rest := by
  obtain ⟨hnumber, hword⟩ := begins_of_isPlain h hc cs
  rw [token?_eq (List.cons_ne_nil c cs), hnumber, hword] at htok
  obtain ⟨⟨m, rest'⟩, hmark, heq⟩ := Option.map_eq_some_iff.1 htok
  cases heq
  obtain ⟨e, he, heq⟩ := Option.map_eq_some_iff.1 hmark
  cases heq
  have hprefix : e.1.toList.isPrefixOf (c :: cs) = true :=
    List.find?_some (p := fun e : String × Mark => e.1.toList.isPrefixOf (c :: cs)) he
  obtain ⟨more, hmore⟩ := List.isPrefixOf_iff_prefix.1 hprefix
  refine ⟨e, List.mem_of_find?_eq_some he, rfl, ?_⟩
  rw [← hmore, ← String.length_toList, List.drop_left]

/-- A plain number is its digits only, where a token may follow. -/
theorem plainNumber_rest {ds t : Text} (ht : Plain.After t) (h : plainNumber ds [] false t = some (tok, rest)) :
    rest = t := by
  have hj : ¬t.head? = some 'j' := fun he => absurd (ht 'j' he) (by decide)
  have hJ : ¬t.head? = some 'J' := fun he => absurd (ht 'J' he) (by decide)
  simp only [plainNumber, hj, hJ, decide_false, Bool.or_self, Bool.false_eq_true, if_false] at h
  split at h
  · cases h
  split at h
  · cases h
  · unfold endNumber at h
    split at h
    · cases h
      rfl
    · cases h

/-- The signs that end with an operator or with an opening bracket are those in front of operands. -/
theorem endsOperand_of_last : ∀ e ∈ Mark.table, (e.1.toList.getLast?.any fun c => c = '(' ∨ isSign c = true) = true →
    (Token.mark e.2).endsOperand = false := by decide

/-- A token that ends in front of an operand is a sign that no operand ends with. -/
theorem token_ahead (hplain : ∀ c ∈ u, Plain.isPlain c = true) (hlast : ∀ c ∈ u.getLast?, c = '(' ∨ isSign c = true)
    (hu : u ≠ []) (htok : token? (u ++ v) = some (tok, v)) :
    beginsNumber u = false ∧ beginsWord u = false ∧ tok.endsOperand = false := by
  obtain ⟨c, cs, rfl⟩ := List.exists_cons_of_ne_nil hu
  have hc : c.isDigit = false := by
    -- digits would end in front of what is no digit
    by_contra hc
    rw [Bool.not_eq_false] at hc
    have hsplit := List.takeWhile_append_dropWhile (p := Char.isDigit) (l := c :: cs)
    have hds : ∀ d ∈ (c :: cs).takeWhile Char.isDigit, d.isDigit = true := fun d hd => List.mem_takeWhile_imp hd
    have hne : (c :: cs).takeWhile Char.isDigit ≠ [] := by simp [hc]
    rcases hrest : (c :: cs).dropWhile Char.isDigit with - | ⟨x, xs⟩
    · obtain ⟨l, hl⟩ := Option.ne_none_iff_exists'.1 (mt List.getLast?_eq_none_iff.1 hu)
      have hdigit : l.isDigit = true := List.dropWhile_eq_nil_iff.1 hrest l (List.mem_of_getLast? hl)
      rw [of_leader (P := (·.isDigit = false)) (hlast l hl) (by decide)] at hdigit
      cases hdigit
    · have hx : x.isDigit = false := notBefore_dropWhile Char.isDigit (c :: cs) x (by rw [hrest]; rfl)
      have hafter : Plain.After (x :: xs ++ v) := by
        rintro y ⟨⟩
        have hmem : x ∈ c :: cs := (List.dropWhile_suffix Char.isDigit).mem (hrest ▸ List.mem_cons_self)
        obtain hdigit | hmark := isDigit_or_of_isPlain (hplain x hmem)
        · rw [hdigit] at hx
          cases hx
        · simp only [List.mem_cons, List.not_mem_nil, or_false, Plain.enders] at hmark ⊢
          grind
      rw [hrest] at hsplit
      rw [← hsplit, List.append_assoc, Plain.token?_digits hds hne hafter] at htok
      have hlength := congrArg List.length (plainNumber_rest hafter htok)
      simp at hlength
      omega
  obtain ⟨hnumber, hword⟩ := begins_of_isPlain (hplain c List.mem_cons_self) hc cs
  obtain ⟨e, he, rfl, heq⟩ := exists_mark (hplain c List.mem_cons_self) hc htok
  have hsource : c :: cs = e.1.toList := List.append_cancel_right heq
  obtain ⟨l, hl⟩ := Option.ne_none_iff_exists'.1 (mt List.getLast?_eq_none_iff.1 hu)
  exact ⟨hnumber, hword, endsOperand_of_last e he (by rw [← hsource, hl]; exact decide_eq_true (hlast l hl))⟩

/-- An end of a text has the last character of the text. -/
theorem getLast?_suffix {w : Text} (h : w <:+ u) {P : Char → Prop} (hu : ∀ c ∈ u.getLast?, P c) :
    ∀ c ∈ w.getLast?, P c := by
  obtain ⟨a, rfl⟩ := h
  intro c hc
  refine hu c ?_
  rw [List.getLast?_append, hc]
  rfl

/-- Nothing but gaps is cut into no token. -/
theorem CutsTo.all_gaps {depth depth' : Nat} (h : CutsTo v depth u [] depth')
    (hplain : ∀ c ∈ u, Plain.isPlain c = true) :
    ∀ c ∈ u, isGap c = true := by
  generalize hA : ([] : List Token) = A at h
  induction h with
  | nil => exact fun c hc => absurd hc List.not_mem_nil
  | gap hgap _ ih => exact List.forall_mem_cons.2 ⟨hgap, ih (List.forall_mem_cons.1 hplain).2 hA⟩
  | comment _ _ _ => exact absurd (hplain '#' List.mem_cons_self) (by decide)
  | joined _ _ => exact absurd (hplain '\\' List.mem_cons_self) (by decide)
  | newline _ _ _ => exact absurd (hplain '\n' List.mem_cons_self) (by decide)
  | token _ _ _ _ _ _ => cases hA

/-- In front of an operand an operand is expected. By induction on how the text in front of it is cut. -/
theorem CutsTo.expecting {depth depth' : Nat} {A : List Token} (h : CutsTo v depth u A depth')
    (hplain : ∀ c ∈ u, Plain.isPlain c = true) (hlast : ∀ c ∈ u.getLast?, c = '(' ∨ isSign c = true) : Expecting A := by
  induction h with
  | nil => exact fun tok htok => by cases htok
  | @gap _ _ c u _ _ _ ih =>
      exact ih (List.forall_mem_cons.1 hplain).2 (getLast?_suffix (List.suffix_cons c u) hlast)
  | comment _ _ _ => exact absurd (hplain '#' List.mem_cons_self) (by decide)
  | joined _ _ => exact absurd (hplain '\\' List.mem_cons_self) (by decide)
  | newline _ _ _ => exact absurd (hplain '\n' List.mem_cons_self) (by decide)
  | @token _ _ _ c body left tok A _ hpart htok _ hmore ih =>
      have hsuffix : left <:+ c :: (body ++ left) := (List.suffix_append body left).trans (List.suffix_cons c _)
      have hleft : ∀ d ∈ left, Plain.isPlain d = true := fun d hd => hplain d (hsuffix.mem hd)
      have hend := getLast?_suffix hsuffix hlast
      cases A with
      | nil =>
          -- nothing is left but the token itself
          rcases List.eq_nil_or_concat left with rfl | ⟨ds, d, rfl⟩
          · intro tok' htok'
            cases htok'
            rw [List.append_nil] at hplain hlast htok
            exact (token_ahead hplain hlast (List.cons_ne_nil c body) htok).2.2
          · have hgap := hmore.all_gaps hleft d (by simp)
            rw [of_leader (P := (isGap · = false)) (hend d (by simp)) (by decide)] at hgap
            cases hgap
      | cons tok' A =>
          intro last hlast'
          exact ih hleft hend last (by simpa using hlast')

theorem startsToken_of_isPlain {c : Char} (h : Plain.isPlain c = true) (hc : isBlank c = false) :
    Plain.startsToken c = true := by
  obtain hdigit | hmem := isDigit_or_of_isPlain h
  · exact Plain.startsToken_of_isFirst (by simp [Plain.isFirst, hdigit])
  · simp only [List.mem_cons, List.not_mem_nil, or_false] at hmem
    obtain rfl | rfl | rfl | rfl | rfl | rfl | rfl | rfl := hmem <;> first | rfl | cases hc

theorem Ahead.starts (hu : Ahead u) {t : Text} (ht : ∃ c ∈ t.head?, Plain.startsToken c = true) :
    ∃ c ∈ (u ++ t).head?, Plain.startsToken c = true := by
  rcases u with - | ⟨c, cs⟩
  · exact ht
  · exact ⟨c, rfl, startsToken_of_isPlain (hu.plain c List.mem_cons_self) (hu.first c rfl)⟩

/-- Instead of brackets, a number may stand behind the text in front of an operand, with its sign or without. -/
theorem Ahead.continues (hu : Ahead u) {w : Text} (hw : ∃ c ∈ w.head?, c = '-' ∨ c.isDigit = true) :
    Continues v u w where
  joint := by
    obtain ⟨c, hc, rfl | hdigit⟩ := hw
    · exact ⟨_, hc, rfl⟩
    · exact ⟨c, hc, by simp [isJoint, hdigit]⟩
  point hmem := absurd (hu.plain '.' hmem) (by decide)
  breaks := .inr fun u' tok hsuffix htok _ => by
    rcases u' with - | ⟨c, cs⟩
    · exact ⟨rfl, rfl⟩
    · have htoken := token_ahead (fun d hd => hu.plain d (hsuffix.mem hd)) (getLast?_suffix hsuffix hu.last)
        (List.cons_ne_nil c cs) htok
      exact ⟨htoken.1, htoken.2.1⟩

theorem Behind.after {y : Text} (hy : Behind y) : Plain.After y := by
  intro c hc
  obtain rfl | hsign := hy.first c hc
  · decide
  · exact of_leader (.inr hsign) (by decide)

/-- An expression with a bracket where an operand is expected is cut there. Another operand may stand in the place of
the bracket. -/
theorem cut_at_operand {p s x : Text} {toks : List Token} (hp : Leads p)
    (hx : Kept ('(' :: (x ++ [')']))) (htoks : tokens? (prepared (p ++ ('(' :: (x ++ ')' :: s)))) = some toks)
    (hparts : ∀ tok ∈ toks, tok.isPart = true) :
    ∃ A inner depth fuel, toks = A ++ openRound :: inner ∧ Expecting A ∧
      lineTokens fuel (depth + 1) (x ++ ')' :: trail s) = some inner ∧
      ∀ z C, Kept z → (∃ c ∈ z.head?, c = '-' ∨ c.isDigit = true) → Plain.Lines depth (z ++ trail s) C →
        tokens? (prepared (p ++ (z ++ s))) = some (A ++ C) := by
  have hu := hp.ahead
  have hready := ready_of_tokens? htoks hparts
  have haround := readied_around hx p s
  rw [List.cons_append, List.append_assoc, List.singleton_append, List.cons_append, List.append_assoc,
    List.singleton_append] at haround
  rw [haround] at hready
  obtain ⟨rest, hskip, hlines⟩ := hready
  have hopening (t : Text) : ∃ c ∈ ('(' :: t).head?, Plain.startsToken c = true := ⟨'(', rfl, by decide⟩
  rw [skip_startsToken (hu.starts (hopening _))] at hskip
  cases hskip
  have hline : '\n' ∉ '(' :: (x ++ [')']) := fun hmem => absurd (hx.solid _ hmem) (by decide)
  have hread := hlines _ (Nat.lt_succ_self _)
  have hform : '(' :: (x ++ ')' :: trail s) = '(' :: (x ++ [')']) ++ trail s := by simp
  rw [hform] at hread
  -- nothing in front of the bracket begins a comment, so that the line is cut there
  obtain ⟨hhash, -⟩ | ⟨A, B, depth, fuel, rfl, hcuts, hrest⟩ :=
    lineTokens_cut ⟨'(', rfl, rfl⟩ hline (skip_ne_nil (hopening _)) hread hparts
  · exact absurd (hu.plain '#' hhash) (by decide)
  rw [← hform] at hrest
  obtain ⟨fuel', tok, rest, depth', inner, htok, hdepth, hinner, rfl⟩ := exists_of_lineTokens (hopening _) hrest
  rw [Plain.token?_opening] at htok
  cases htok
  have hdepth : depth' = depth + 1 := by
    simp only [depthAfter] at hdepth
    split at hdepth <;> cases hdepth
    rfl
  subst hdepth
  refine ⟨A, inner, depth, fuel', rfl, hcuts.expecting hu.plain hu.last, hinner, ?_⟩
  -- another operand is cut off at the same place, because it begins a token of its own
  intro z C hz hhead hC
  have hjoint := exists_head_append hhead (trail s)
  have hstarts : ∃ c ∈ (z ++ trail s).head?, Plain.startsToken c = true := by
    obtain ⟨c, hc, rfl | hdigit⟩ := hjoint
    · exact ⟨_, hc, by decide⟩
    · exact ⟨c, hc, Plain.startsToken_of_isFirst (by simp [Plain.isFirst, hdigit])⟩
  have hcut := hcuts.lines ⟨'(', rfl, rfl⟩ (hu.continues hjoint) hC
  exact Ready.tokens? (readied_around hz p s ▸ ⟨_, skip_startsToken (hu.starts hstarts) false false, hcut⟩)

end Tokens

/-! ## Operands without brackets -/

section Values

variable {n depth fuel : Nat} {y p s : Text} {inner B : List Token} {w : Number}

/-- A number that is read has no more digits than are read. -/
theorem lt_of_token? {tok : Token} {rest t : Text} (ht : Plain.After t) (h : token? (ofNat n ++ t) = some (tok, rest)) :
    n < 10 ^ maxDigits := by
  rw [Plain.token?_digits (fun c => isDigit_of_mem_ofNat) (ofNat_ne_nil n) ht] at h
  have hj : ¬t.head? = some 'j' := fun he => absurd (ht 'j' he) (by decide)
  have hJ : ¬t.head? = some 'J' := fun he => absurd (ht 'J' he) (by decide)
  simp only [plainNumber, hj, hJ, decide_false, Bool.or_self, Bool.false_eq_true, if_false] at h
  split at h
  · cases h
  split at h
  · cases h
  · rename_i hlength
    exact (Nat.length_toDigits_le_iff (by decide) (by decide)).1 (Nat.not_lt.1 hlength)

theorem after_closing (y : Text) : Plain.After (')' :: y) := by
  rintro c ⟨⟩
  decide

/-- A number in front of a closing bracket. -/
theorem exists_closed (h : lineTokens fuel (depth + 1) (ofNat n ++ ')' :: y) = some inner)
    (hparts : ∀ tok ∈ inner, tok.isPart = true) :
    n < 10 ^ maxDigits ∧ ∃ B, inner = .int n :: closeRound :: B ∧ Plain.Lines depth y B := by
  obtain ⟨fuel', tok, rest, depth', more, htok, hdepth, hmore, rfl⟩ :=
    exists_of_lineTokens (exists_head_append (Plain.startsToken_ofNat n) _) h
  have hn := lt_of_token? (after_closing y) htok
  rw [Plain.token?_ofNat hn (after_closing y)] at htok
  cases htok
  cases hdepth
  obtain ⟨fuel'', tok, rest, depth', B, htok, hdepth, hB, rfl⟩ :=
    exists_of_lineTokens ⟨')', rfl, by decide⟩ hmore
  cases htok
  cases hdepth
  have hparts' := (List.forall_mem_cons.1 (List.forall_mem_cons.1 hparts).2).2
  exact ⟨hn, B, rfl, lines_of_lineTokens hB hparts'⟩

theorem kept_minus {x : Text} (hx : Kept x) : Kept ('-' :: x) where
  ne_nil := List.cons_ne_nil _ _
  solid := List.forall_mem_cons.2 ⟨by decide, hx.solid⟩
  power hmem := by simpa using hx.power (by simpa using hmem)

theorem exists_head_ofNat (n : Nat) : ∃ c ∈ (ofNat n).head?, c = '-' ∨ c.isDigit = true := by
  obtain ⟨c, cs, hdigits, hc⟩ := exists_ofNat n
  exact ⟨c, by rw [hdigits]; rfl, .inr hc⟩

/-- Where an operand is expected, a number may stand without brackets. -/
theorem outcome_bare (hp : Leads p) (hs : Trails s)
    (h : outcome (p ++ ('(' :: (ofNat n ++ ')' :: s))) = .number w) : outcome (p ++ (ofNat n ++ s)) = .number w := by
  obtain ⟨hnul, toks, q, htoks, hread, heval⟩ := reads_of_outcome h
  have hparts := hread.parts
  obtain ⟨A, inner, depth, fuel, rfl, hA, hinner, hplace⟩ :=
    cut_at_operand hp (kept_round (kept_ofNat n)) htoks hparts
  obtain ⟨hn, B, rfl, hB⟩ := exists_closed hinner (List.forall_mem_cons.1 (List.forall_mem_append.1 hparts).2).2
  have hlines := hB.token (Plain.startsToken_ofNat n) (Plain.token?_ofNat hn hs.behind.after) rfl
  have hbare := hplace (ofNat n) (.int n :: B) (kept_ofNat n) (exists_head_ofNat n) hlines
  exact outcome_of_reads (by simpa [NulFree] using hnul) hbare (hread.bare hA) heval

theorem startsTrailer_mark (m : Mark) (toks : List Token) :
    startsTrailer (.mark m :: toks) = startsTrailer [.mark m] := by
  cases m with
  | opening b => cases b <;> rfl
  | _ => rfl

/-- No sign that begins with an operator or with a closing bracket makes an operand longer. -/
theorem startsTrailer_of_first : ∀ e ∈ Mark.table, e.1.toList ≠ [] ∧
    ((e.1.toList.head?.any fun c => c = ')' ∨ isSign c = true) = true → startsTrailer [.mark e.2] = false) := by decide

theorem source_doubleStar : ∀ e ∈ Mark.table, e.2 = .doubleStar → e.1.toList = ['*', '*'] := by decide

/-- What stands behind an operand does not make it longer, and it is no power unless it begins with one. -/
theorem Behind.rests (hy : Behind y) (h : Plain.Lines depth y B) :
    startsTrailer B = false ∧ (¬['*', '*'] <+: y → expect .doubleStar B = none) := by
  rcases y with - | ⟨c, cs⟩
  · cases lineTokens_step (h 1 Nat.one_pos) with
    | nil => exact ⟨rfl, fun _ => rfl⟩
  · have hfirst := hy.first c rfl
    have hplain := hy.plain c List.mem_cons_self
    have hsolid : isBlank c = false ∧ c.isDigit = false := by
      obtain rfl | hsign := hfirst
      · decide
      · exact of_leader (P := fun c => isBlank c = false ∧ c.isDigit = false) (.inr hsign) (by decide)
    -- what stands behind begins with a closing bracket or a sign, so its first token is a mark
    obtain ⟨fuel, tok, rest, depth', more, htok, -, -, rfl⟩ :=
      exists_of_lineTokens ⟨c, rfl, startsToken_of_isPlain hplain hsolid.1⟩ (h _ (Nat.lt_succ_self _))
    obtain ⟨e, he, rfl, hsource⟩ := exists_mark hplain hsolid.2 htok
    obtain ⟨hne, htrailer⟩ := startsTrailer_of_first e he
    obtain ⟨d, ds, hchars⟩ := List.exists_cons_of_ne_nil hne
    refine ⟨?_, fun hpower => ?_⟩
    · rw [startsTrailer_mark]
      rw [hchars] at hsource
      refine htrailer ?_
      rw [hchars, ← (List.cons.inj hsource).1]
      exact decide_eq_true hfirst
    · refine if_neg fun hdouble => hpower ?_
      rw [hsource, source_doubleStar e he hdouble.symm]
      exact List.prefix_append _ _

def Raised (s : Text) : Prop := ['*', '*'] <+: powers s

instance (s : Text) : Decidable (Raised s) := inferInstanceAs (Decidable (_ <+: _))

/-- What begins with a power makes a power of the operand. -/
theorem Trails.raised (hs : Trails s) (h : ['*', '*'] <+: trail s) : Raised s := by
  obtain ⟨b, hb⟩ := trimmed_isPrefix s
  rw [hs.trail_eq] at h
  refine h.trans ?_
  rw [← hb, powers_append, hb]
  exact List.prefix_append _ _

/-- Where an operand is expected, a negative number may stand without brackets, unless a power stands behind it. -/
theorem outcome_bareNegative (hp : Leads p) (hs : Trails s) (hpower : ¬Raised s)
    (h : outcome (p ++ ('(' :: ('-' :: ofNat n ++ ')' :: s))) = .number w) :
    outcome (p ++ ('-' :: ofNat n ++ s)) = .number w := by
  obtain ⟨hnul, toks, q, htoks, hread, heval⟩ := reads_of_outcome h
  have hparts := hread.parts
  obtain ⟨A, inner, depth, fuel, rfl, hA, hinner, hplace⟩ :=
    cut_at_operand hp (kept_round (kept_minus (kept_ofNat n))) htoks hparts
  obtain ⟨fuel', tok, rest, depth', more, htok, hdepth, hmore, rfl⟩ :=
    exists_of_lineTokens ⟨'-', rfl, by decide⟩ hinner
  cases htok
  cases hdepth
  have hparts' := (List.forall_mem_cons.1 (List.forall_mem_cons.1 (List.forall_mem_append.1 hparts).2).2).2
  obtain ⟨hn, B, rfl, hB⟩ := exists_closed hmore hparts'
  have hrests := hs.behind.rests hB
  have hint := hB.token (Plain.startsToken_ofNat n) (Plain.token?_ofNat hn hs.behind.after) rfl
  have hlines : Plain.Lines depth (['-'] ++ (ofNat n ++ trail s)) (.mark .minus :: .int n :: B) :=
    hint.token ⟨'-', rfl, by decide⟩ (Plain.token?_sign true _) rfl
  have hbare := hplace ('-' :: ofNat n) _ (kept_minus (kept_ofNat n)) ⟨'-', rfl, .inl rfl⟩ hlines
  exact outcome_of_reads (by simpa [NulFree] using hnul) hbare
    (hread.bareNegative hA hrests.1 (hrests.2 fun hdouble => hpower (hs.raised hdouble))) heval

/-- An integer as one operand in front of a text: in brackets, but if it is negative and a power stands behind it, then
with its sign in front of them. -/
def operand (v : Int) (s : Text) : Text :=
  if v < 0 ∧ Raised s then '-' :: '(' :: (ofNat v.natAbs ++ [')']) else '(' :: (ofInt v ++ [')'])

theorem Leads.minus (hp : Leads p) : Leads (p ++ ['-']) where
  simple := List.forall_mem_append.2 ⟨hp.simple, List.forall_mem_singleton.2 (by decide)⟩
  last c hc := by
    rw [List.getLast?_append] at hc
    cases hc
    exact .inr (by decide)

/-- The digits of an integer without brackets are worth as much as it is as one operand. -/
theorem outcome_spliced {v : Int} (hp : Leads p) (hs : Trails s)
    (h : outcome (p ++ (operand v s ++ s)) = .number w) : outcome (p ++ (ofInt v ++ s)) = .number w := by
  unfold operand at h
  cases v with
  | ofNat n =>
      rw [if_neg (by simp)] at h
      exact outcome_bare hp hs (by simpa [ofInt] using h)
  | negSucc n =>
      split at h
      · -- the sign belongs to the text in front
        have hbare := outcome_bare (n := n + 1) hp.minus hs (by simpa using h)
        simpa [ofInt] using hbare
      · rename_i hraised
        rw [not_and] at hraised
        exact outcome_bareNegative hp hs (hraised (Int.negSucc_lt_zero n)) (by simpa [ofInt] using h)

end Values

end Arithmetic

namespace Evaluation

open Arithmetic Markup Act

/-! ## Rolls without dice -/

/-- A blank text has no value. -/
theorem allBlank_of_outcome {t : Text} {w : Number} (h : outcome t = .number w) : allBlank t = false := by
  by_contra hblank
  rw [Bool.not_eq_false] at hblank
  obtain ⟨-, toks, q, htoks, hread, -⟩ := reads_of_outcome h
  have hdrop : t.dropWhile isBlank = [] := List.dropWhile_eq_nil_iff.2 (List.all_eq_true.1 hblank)
  have hempty : prepared t = [] := by
    rw [prepared, strip, stripBy, hdrop]
    rfl
  have hlength := length_le_of_tokens? htoks
  rw [hempty, List.length_nil, Nat.le_zero, List.length_eq_zero_iff] at hlength
  have hstart := hread.startsOperand (.inr (.inl rfl))
  rw [hlength] at hstart
  cases hstart

theorem outcome_strip {t : Text} {w : Number} (h : outcome t = .number w) : outcome (strip t) = .number w := by
  obtain ⟨hnul, toks, q, htoks, hread, heval⟩ := reads_of_outcome h
  have hprepared : prepared (strip t) = prepared t := by rw [prepared, prepared, strip_strip]
  exact outcome_of_reads hnul.strip (hprepared ▸ htoks) hread heval

/-- Without dice, rolling an expression is evaluating it. -/
theorem roll_value {t : Text} {w : Number} (hletters : Shorthand.letters t = 0) (h : outcome t = .number w) (d : Dice) :
    (Shorthand.roll t).run d = (.ok ⟨w.display, [], none⟩, d) := by
  have hstrip : Shorthand.letters (strip t) = 0 :=
    Nat.le_zero.1 (hletters ▸ Shorthand.letters_strip_le t)
  have hmalformed : Shorthand.isMalformed (strip t) = false := by
    rw [Shorthand.isMalformed, hstrip]
    exact Plain.hasStray_eq_false hstrip false
  unfold Shorthand.roll
  dsimp only
  rw [hmalformed, hstrip]
  show (Shorthand.finish t (strip t) []).run d = _
  rw [Shorthand.finish_unlimited]
  rw [outcome_strip h]
  rfl

/-- An expression with a value and without dice comes to its value. -/
theorem interpret_value {t : Text} {w : Number} (hname : t.head? ≠ some '@') (hletters : Shorthand.letters t = 0)
    (h : outcome t = .number w) (s : State) :
    ∃ s', (interpret .shorthand (.node .roll) t).run s = (.ok w.display, s') := by
  -- no name is given, so the record takes the next one
  have hexplicit : explicitName t = (none, t) := by
    unfold explicitName
    split
    · exact absurd rfl hname
    · rfl
  have hrun : (interpret .shorthand (.node .roll) t).run s =
      (do
        let rec ← produce .shorthand t .roll
        record .roll s.records.nextName.1 t rec
        pure rec.result : Step Text).run { s with records := s.records.nextName.2 } := by
    rw [interpret, hexplicit]
    simp only [allBlank_of_outcome h]
    rfl
  let s' : State := { s with records := s.records.nextName.2 }
  obtain ⟨journal, hroll⟩ := Plain.rollShorthand_run (s := s') (roll_value hletters h s'.dice)
  have hproduce : (produce .shorthand t .roll).run s' =
      (.ok ⟨w.display, []⟩, { s' with dice := s'.dice, journal := journal }) := hroll
  exact ⟨_, hrun.trans (run_bind_of_ok hproduce)⟩

/-! ## Rolls with a roll inside -/

theorem letters_of_isSimple {t : Text} (h : ∀ c ∈ t, isSimple c = true) : Shorthand.letters t = 0 := by
  refine Shorthand.letters_eq_zero fun c hc => ⟨?_, ?_⟩
  · rintro rfl
    exact absurd (h _ hc) (by decide)
  · rintro rfl
    exact absurd (h _ hc) (by decide)

theorem unmarked_of_isSimple {t : Text} (h : ∀ c ∈ t, isSimple c = true) : Unmarked t := by
  intro c hc hmem
  simp only [List.mem_cons, List.not_mem_nil, or_false] at hmem
  obtain rfl | rfl | rfl | rfl := hmem <;> exact absurd (h _ hc) (by decide)

theorem isSimple_ofNat {n : Nat} {c : Char} (hc : c ∈ ofNat n) : isSimple c = true := by
  simp [isSimple, isDigit_of_mem_ofNat hc]

/-- A whole number is written in digits, with a sign at most. -/
theorem isSimple_ofInt {v : Int} {c : Char} (hc : c ∈ ofInt v) : isSimple c = true := by
  cases v with
  | ofNat n => exact isSimple_ofNat hc
  | negSucc n =>
      obtain rfl | hc := List.mem_cons.1 hc
      · decide
      · exact isSimple_ofNat hc

/-- The operand that is put in is as simple as the text around it. -/
theorem isSimple_operand {v : Int} {s : Text} {c : Char} (hc : c ∈ operand v s) : isSimple c = true := by
  unfold operand at hc
  split at hc
  · simp only [List.mem_cons, List.mem_append, List.not_mem_nil, or_false] at hc
    obtain rfl | rfl | hc | rfl := hc
    · decide
    · decide
    · exact isSimple_ofNat hc
    · decide
  · simp only [List.mem_cons, List.mem_append, List.not_mem_nil, or_false] at hc
    obtain rfl | hc | rfl := hc
    · decide
    · exact isSimple_ofInt hc
    · decide

/-- A simple expression with a value comes to its value. -/
theorem interpret_simple {t : Text} {w : Number} (hsimple : ∀ c ∈ t, isSimple c = true) (h : outcome t = .number w)
    (s : State) : ∃ s', (interpret .shorthand (.node .roll) t).run s = (.ok w.display, s') := by
  refine interpret_value (fun hname => ?_) (letters_of_isSimple hsimple) h s
  exact absurd (hsimple '@' (List.mem_of_head? hname)) (by decide)

/-- A simple expression with a value as a roll. -/
theorem exists_roll (inlineMath : Bool) {e : Text} {w : Number} (hsimple : ∀ c ∈ e, isSimple c = true)
    (h : outcome e = .number w) :
    ∃ inner span, (parse inlineMath (asRoll e)).children = [.roll .roll true inner span] ∧
      ∀ s, ∃ s', (evaluateNode .shorthand (.roll .roll true inner span)).run s = (.ok w.display, s') := by
  obtain ⟨inner, span, hchildren, htext⟩ := evaluateNodes_unmarked .shorthand inlineMath
    (unmarked_of_isSimple hsimple)
  refine ⟨inner, span, hchildren, fun s => ?_⟩
  rw [evaluateNode, htext, pure_bind]
  exact interpret_simple hsimple h s

/-- A message that is a roll is shown as its value, in a tooltip if there are tooltips. -/
theorem evaluateRolls_of_children {settings : Settings} {t u : Text} {n : Node} {s s' : State}
    (hroller : settings.roller = .shorthand) (hchildren : (parse settings.inlineMath (asRoll t)).children = [n])
    (h : (evaluateNode .shorthand n).run s = (.ok u, s')) :
    (evaluateRolls settings (asRoll t)).run s = (.ok (decorate settings.tooltips n u), s') := by
  have hcommand : isCommand (asRoll t) = false := rfl
  rw [evaluateRolls, hcommand, hroller, hchildren, Bool.not_false, Bool.and_true, evaluateTop, run_bind_of_ok h]
  simp [evaluateTop]

/-- The result of an inner roll is one operand of the roll around it. Between two texts of digits, blanks, brackets and
operators that leave room for an operand, a roll whose result is an integer gives the same number as the integer
in brackets, if that gives a number. If the integer is negative and a power stands behind it, then the power is
taken of the number without its sign, so that the sign belongs in front of the brackets. -/
theorem inner_is_operand {settings : Settings} {p e s : Text} {v : Int} {w : Number} {S S' : State} {inner : List Node}
    {span : Span} (hroller : settings.roller = .shorthand) (hp : Leads p) (hs : Trails s)
    (hroll : (parse settings.inlineMath (asRoll e)).children = [.roll .roll true inner span])
    (hinner : (evaluateNode .shorthand (.roll .roll true inner span)).run S = (.ok (ofInt v), S'))
    (hvalue : outcome (p ++ (operand v s ++ s)) = .number w) :
    (∃ n, (parse settings.inlineMath (asRoll (p ++ (operand v s ++ s)))).children = [n] ∧
      ∀ T, ∃ T', (evaluateRolls settings (asRoll (p ++ (operand v s ++ s)))).run T =
        (.ok (decorate settings.tooltips n w.display), T')) ∧
      ∃ n S'', (parse settings.inlineMath (asRoll (p ++ (asRoll e ++ s)))).children = [n] ∧
        (evaluateRolls settings (asRoll (p ++ (asRoll e ++ s)))).run S =
          (.ok (decorate settings.tooltips n w.display), S'') := by
  -- the number in brackets and the number itself have the same value in this place
  have hspliced := outcome_spliced hp hs hvalue
  have hbracketSimple : ∀ c ∈ p ++ (operand v s ++ s), isSimple c = true :=
    List.forall_mem_append.2 ⟨hp.simple, List.forall_mem_append.2 ⟨fun _ => isSimple_operand, hs.simple⟩⟩
  have hsplicedSimple : ∀ c ∈ p ++ (ofInt v ++ s), isSimple c = true :=
    List.forall_mem_append.2 ⟨hp.simple, List.forall_mem_append.2 ⟨fun _ => isSimple_ofInt, hs.simple⟩⟩
  refine ⟨?_, ?_⟩
  · obtain ⟨ns, span', hchildren, hruns⟩ := exists_roll settings.inlineMath hbracketSimple hvalue
    refine ⟨_, hchildren, fun T => ?_⟩
    obtain ⟨T', hrun⟩ := hruns T
    exact ⟨T', evaluateRolls_of_children hroller hchildren hrun⟩
  · obtain ⟨ns, span', hchildren, htext⟩ := evaluateNodes_around .shorthand
      (unmarked_of_isSimple hp.simple) (unmarked_of_isSimple hs.simple) hroll
    obtain ⟨S'', hrun⟩ := interpret_simple hsplicedSimple hspliced S'
    refine ⟨_, S'', hchildren, evaluateRolls_of_children hroller hchildren ?_⟩
    have hjoined : (evaluateNodes .shorthand ns).run S = (.ok (p ++ (ofInt v ++ s)), S') := by
      rw [htext, joined_assoc, joined, pure_bind, joined, bind_assoc, run_bind_of_ok hinner]
      rfl
    rw [evaluateNode, run_bind_of_ok hjoined]
    exact hrun

/-- A negative result behind a minus and in front of a product. -/
theorem inner_is_operand_negative :
    let settings : Settings := ⟨.shorthand, true, true⟩
    let S := Plain.freshState (.fixed 1)
    let p := "10-".toList
    let e := "1-3".toList
    let s := "*3".toList
    settings.roller = .shorthand ∧ Leads p ∧ Trails s ∧
      ∃ inner span S' w, (parse settings.inlineMath (asRoll e)).children = [.roll .roll true inner span] ∧
        (evaluateNode .shorthand (.roll .roll true inner span)).run S = (.ok (ofInt (-2)), S') ∧
        outcome (p ++ (operand (-2) s ++ s)) = .number w ∧ w.display = "16".toList ∧
        ∃ n S'', (parse settings.inlineMath (asRoll (p ++ (asRoll e ++ s)))).children = [n] ∧
          (evaluateRolls settings (asRoll (p ++ (asRoll e ++ s)))).run S =
            (.ok (decorate settings.tooltips n w.display), S'') := by
  intro settings S p e s
  have hp : Leads p := by decide
  have hs : Trails s := by decide
  obtain ⟨u, hu, hdisplay'⟩ := exists_of_shown? (o := outcome e) (t := ofInt (-2)) (by decide +kernel)
  obtain ⟨inner, span, hroll, hruns⟩ := exists_roll settings.inlineMath (e := e) (List.all_eq_true.1 (by decide)) hu
  obtain ⟨S', hinner⟩ := hruns S
  rw [hdisplay'] at hinner
  obtain ⟨w, hvalue, hdisplay⟩ := exists_of_shown? (o := outcome (p ++ (operand (-2) s ++ s))) (t := "16".toList)
    (by decide +kernel)
  have hnested := (inner_is_operand rfl hp hs hroll hinner hvalue).2
  exact ⟨rfl, hp, hs, inner, span, S', w, hroll, hinner, hvalue, hdisplay, hnested⟩

/-- A power behind a negative result is taken of the number without its sign: of `[[1-3]]`, which is minus two, the
square comes to minus four. -/
theorem power_takes_no_sign :
    let settings : Settings := ⟨.shorthand, false, true⟩
    let S := Plain.freshState (.fixed 1)
    let e := "1-3".toList
    let s := "^2".toList
    Leads [] ∧ Trails s ∧
      (∃ inner span S', (parse settings.inlineMath (asRoll e)).children = [.roll .roll true inner span] ∧
        (evaluateNode .shorthand (.roll .roll true inner span)).run S = (.ok (ofInt (-2)), S')) ∧
      (∃ w, outcome ('(' :: (ofInt (-2) ++ ')' :: s)) = .number w ∧ w.display = "4".toList) ∧
      ((evaluateRolls settings (asRoll ('(' :: (ofInt (-2) ++ ')' :: s)))).run S).1.toOption = some "4".toList ∧
      ((evaluateRolls settings (asRoll (asRoll e ++ s))).run S).1.toOption = some "-4".toList := by
  intro settings S e s
  obtain ⟨u, hu, hdisplay⟩ := exists_of_shown? (o := outcome e) (t := ofInt (-2)) (by decide +kernel)
  obtain ⟨inner, span, hroll, hruns⟩ := exists_roll settings.inlineMath (e := e) (List.all_eq_true.1 (by decide)) hu
  obtain ⟨S', hinner⟩ := hruns S
  rw [hdisplay] at hinner
  exact ⟨by decide, by decide, ⟨inner, span, S', hroll, hinner⟩,
    exists_of_shown? (by decide +kernel), by decide +kernel, by decide +kernel⟩

end Evaluation

end TabletopChat
