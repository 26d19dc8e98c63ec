import Mathlib.Data.List.Find
import TabletopChat.Proofs.Arithmetic.Operands
import TabletopChat.Proofs.Dice.Plain.Tokens

/-!
# Proofs/Arithmetic/Boundaries — where a text is always cut into tokens

No word and no number goes on over a form feed or an opening bracket. So what is read in front of one of
these does not depend on what stands behind it, and stays as it is if something else stands there, as long
as that does not join it.

- `Breaks`, `Follows` : what ends a token, and what may stand behind one
- `StopsAt`           : readers that do not look over such a place
- `Joins`             : what may stand behind the token at the beginning of a text
- `token?_stops`      : tokens do not look over such a place
-/

namespace TabletopChat

namespace Arithmetic

/-! ## Places where tokens end -/

def isBreak (c : Char) : Bool := c == '\x0c' || c == '('

/-- Characters that make no sign longer. -/
def isJoint (c : Char) : Bool := isBreak c || c == '-' || c.isDigit

def Breaks (t : Text) : Prop := ∃ c ∈ t.head?, isBreak c = true

/-- What may stand behind `u`, the part of a text that is left in front of it: if there is none, then only what
ends every token. -/
structure Follows (u t : Text) : Prop where
  joint : ∃ c ∈ t.head?, isJoint c = true
  breaks : u = [] → Breaks t

/-- What breaks a token off is not empty. -/
theorem Breaks.exists_cons {t : Text} (h : Breaks t) : ∃ c cs, t = c :: cs ∧ isBreak c = true := by
  obtain ⟨c, hc, hbreak⟩ := h
  cases t with
  | nil => cases hc
  | cons d cs =>
      cases hc
      exact ⟨c, cs, rfl, hbreak⟩

/-- A form feed or an opening bracket is in no class without them. -/
theorem Breaks.notBefore {t : Text} (h : Breaks t) {p : Char → Bool} (hfeed : p '\x0c' = false)
    (hopening : p '(' = false) : Text.NotBefore p t := by
  obtain ⟨c, cs, rfl, hc⟩ := h.exists_cons
  intro d hd
  cases hd
  simp only [isBreak, Bool.or_eq_true, beq_iff_eq] at hc
  obtain rfl | rfl := hc
  · exact hfeed
  · exact hopening

theorem Follows.mono {u u' t : Text} (h : Follows u' t) (hsuffix : u' <:+ u) : Follows u t where
  joint := h.joint
  breaks hu := h.breaks (List.suffix_nil.1 (hu ▸ hsuffix))

theorem Breaks.follows {t : Text} (h : Breaks t) (u : Text) : Follows u t := by
  obtain ⟨c, hc, hbreak⟩ := h
  exact ⟨⟨c, hc, by simp [isJoint, hbreak]⟩, fun _ => ⟨c, hc, hbreak⟩⟩

/-! ## Readers that stop there -/

section Readers

variable {α β : Type}

/-- That a reader which begins with `u` stops in front of a form feed or an opening bracket, and that it gives the
same if something else follows there. -/
def StopsAt (f : Text → Option (α × Text)) (u : Text) : Prop :=
  ∀ ⦃v x r⦄, Breaks v → f (u ++ v) = some (x, r) →
    ∃ u', r = u' ++ v ∧ u' <:+ u ∧ ∀ ⦃w⦄, Follows u' w → f (u ++ w) = some (x, u' ++ w)

variable {f : Text → Option (α × Text)} {u : Text}

theorem stopsAt_none : StopsAt (fun _ => (none : Option (α × Text))) u := by
  intro v x r _ h
  cases h

/-- A reader that is another one behind its beginning stops where the other one does. -/
theorem StopsAt.congr {g : Text → Option (α × Text)} {u' : Text} (hsuffix : u' <:+ u)
    (heq : ∀ v, Follows u v → f (u ++ v) = g (u' ++ v)) (h : StopsAt g u') : StopsAt f u := by
  intro v x r hv hf
  rw [heq v (hv.follows u)] at hf
  obtain ⟨left, rfl, hleft, hsame⟩ := h hv hf
  refine ⟨left, rfl, hleft.trans hsuffix, fun w hw => ?_⟩
  rw [heq w (hw.mono (hleft.trans hsuffix))]
  exact hsame hw

/-- A reader stops where its two steps do. -/
theorem StopsAt.bind {g : α → Text → Option (β × Text)} (hf : StopsAt f u)
    (hg : ∀ x u', StopsAt (g x) u') : StopsAt (fun t => (f t).bind fun (x, r) => g x r) u := by
  intro v y r hv h
  obtain ⟨⟨x, mid⟩, hread, h⟩ := Option.bind_eq_some_iff.1 h
  obtain ⟨u', rfl, hu', hsame⟩ := hf hv hread
  obtain ⟨left, rfl, hleft, hsame'⟩ := hg x u' hv h
  refine ⟨left, rfl, hleft.trans hu', fun w hw => ?_⟩
  have hmid : f (u ++ w) = some (x, u' ++ w) := hsame (hw.mono hleft)
  show (f (u ++ w)).bind _ = _
  rw [hmid, Option.bind_some]
  exact hsame' hw

theorem StopsAt.ite {g : Text → Option (α × Text)} {b : Prop} [Decidable b] (hf : b → StopsAt f u)
    (hg : ¬ b → StopsAt g u) : StopsAt (fun t => if b then f t else g t) u := by
  by_cases hb : b
  · simp only [if_pos hb]
    exact hf hb
  · simp only [if_neg hb]
    exact hg hb

end Readers

/-! ## Numbers -/

theorem stopsAt_digitRun {isDigit : Char → Bool} (hfeed : isDigit '\x0c' = false)
    (hopening : isDigit '(' = false) (u : Text) : StopsAt (digitRun isDigit) u := by
  -- what breaks is neither a digit nor an underscore, so no run of digits goes on into it
  have hbreak {v : Text} (hv : Breaks v) : digitRun isDigit v = some ([], v) := by
    have hdigit := hv.notBefore hfeed hopening
    have hline := hv.notBefore (p := fun c => c == '_') rfl rfl
    obtain ⟨c, cs, rfl, -⟩ := hv.exists_cons
    have hc : ¬ c = '_' := by simpa using hline c rfl
    simp [digitRun, hdigit c rfl, hc]
  induction u with
  | nil =>
      intro v x r hv h
      rw [List.nil_append, hbreak hv] at h
      cases h
      exact ⟨[], rfl, List.suffix_refl _, fun _ hw => hbreak (hw.breaks rfl)⟩
  | cons c cs ih =>
      intro v x r hv h
      rw [List.cons_append, digitRun.eq_def] at h
      dsimp only at h
      split at h
      · rename_i hc
        obtain ⟨⟨ds, r⟩, hread, h⟩ := Option.map_eq_some_iff.1 h
        cases h
        obtain ⟨left, rfl, hleft, hsame⟩ := ih hv hread
        refine ⟨left, rfl, hleft.trans (List.suffix_cons c cs), fun w hw => ?_⟩
        rw [List.cons_append, digitRun.eq_def]
        dsimp only
        rw [if_pos hc, hsame hw]
        rfl
      · rename_i hc
        split at h
        -- an underscore joins digits on both sides; with nothing but a break behind it there is no run at all
        · rename_i hline
          cases cs with
          | nil =>
              have hv' := hv.notBefore hfeed hopening
              obtain ⟨d, ds, rfl, -⟩ := hv.exists_cons
              rw [List.nil_append] at h
              simp [hv' d rfl] at h
          | cons d ds =>
              rw [List.cons_append] at h
              dsimp only at h
              split at h
              · rename_i hd
                obtain ⟨left, rfl, hleft, hsame⟩ := ih hv h
                refine ⟨left, rfl, hleft.trans (List.suffix_cons c _), fun w hw => ?_⟩
                rw [List.cons_append, digitRun.eq_def]
                dsimp only
                rw [if_neg hc, if_pos hline, List.cons_append]
                dsimp only
                rw [if_pos hd]
                exact hsame hw
              · cases h
        · rename_i hline
          cases h
          refine ⟨c :: cs, rfl, List.suffix_refl _, fun w _ => ?_⟩
          rw [List.cons_append, digitRun.eq_def]
          dsimp only
          rw [if_neg hc, if_neg hline]

/-- A word begins what stands in front of a joint, if none of its letters but the first one could be there. -/
theorem isPrefixOf_of_joint {word u w : Text} (hword : word.tail.any isJoint = false) (hu : u ≠ [])
    (hw : ∃ c ∈ w.head?, isJoint c = true) (h : word.isPrefixOf (u ++ w) = true) :
    word.isPrefixOf u = true := by
  rw [List.isPrefixOf_iff_prefix] at h ⊢
  obtain ⟨t, ht⟩ := h
  obtain ⟨a, rfl, -⟩ | ⟨more, rfl, hmore⟩ := List.append_eq_append_iff.1 ht
  · exact List.prefix_append _ _
  · cases more with
    | nil => exact ⟨[], by simp⟩
    | cons d more =>
        -- the first character of `w` would be a letter of the word
        obtain ⟨c, hc, hjoint⟩ := hw
        rw [hmore] at hc
        have hd : d ∈ (u ++ d :: more).tail := by
          cases u with
          | nil => exact absurd rfl hu
          | cons _ _ => simp
        rw [← Option.some.inj hc] at hjoint
        exact absurd hjoint (List.any_eq_false.1 hword d hd)

/-- A number that ends in front of a break ends in front of whatever may follow instead. -/
theorem endsNumber_append {u v w : Text} (hv : Breaks v) (hw : Follows u w)
    (h : endsNumber (u ++ v) = true) : endsNumber (u ++ w) = true := by
  cases u with
  | nil =>
      have hword := (hw.breaks rfl).notBefore (p := inWord) rfl rfl
      obtain ⟨c, cs, rfl, -⟩ := (hw.breaks rfl).exists_cons
      simp [endsNumber, hword c rfl]
  | cons c cs =>
      unfold endsNumber at h ⊢
      rw [Bool.or_eq_true] at h ⊢
      refine h.imp (fun h => ?_) id
      rw [List.any_eq_true] at h ⊢
      obtain ⟨word, hmem, hprefix⟩ := h
      refine ⟨word, hmem, ?_⟩
      have hletters : ∀ word ∈ ["and", "else", "for", "if", "in", "is", "or", "not"],
          word.toList.tail.any isJoint = false := by decide
      have hjoint : ∃ c ∈ v.head?, isJoint c = true := (hv.follows []).joint
      have hshort := isPrefixOf_of_joint (hletters word hmem) (List.cons_ne_nil c cs) hjoint hprefix
      rw [List.isPrefixOf_iff_prefix] at hshort ⊢
      exact hshort.trans (List.prefix_append _ _)

section Numbers

variable {u : Text}

theorem stopsAt_endNumber (tok : Token) (u : Text) : StopsAt (endNumber tok) u := by
  intro v x r hv h
  unfold endNumber at h
  split at h
  · rename_i hends
    cases h
    exact ⟨u, rfl, List.suffix_refl u, fun w hw => if_pos (endsNumber_append hv hw hends)⟩
  · cases h

theorem stopsAt_realNumber (digits : Text) (exp : Int) (u : Text) : StopsAt (realNumber digits exp) u := by
  let x := Decimal.ofScientific false (digitsIn 10 digits) exp
  cases u with
  | nil =>
      refine StopsAt.congr (List.suffix_refl _) (fun v hv => ?_) (stopsAt_endNumber (.real x) [])
      have hj := (hv.breaks rfl).notBefore (p := fun c => c == 'j' || c == 'J') rfl rfl
      obtain ⟨c, cs, rfl, -⟩ := (hv.breaks rfl).exists_cons
      unfold realNumber
      split <;> first | rfl | (rename_i heq; cases heq; exact absurd (hj _ rfl) (by decide))
  | cons c cs =>
      by_cases hj : c = 'j' ∨ c = 'J'
      · refine StopsAt.congr (List.suffix_cons c cs) (fun v _ => ?_) (stopsAt_endNumber (.imaginary x) cs)
        obtain rfl | rfl := hj <;> rfl
      · refine StopsAt.congr (List.suffix_refl _) (fun v _ => ?_) (stopsAt_endNumber (.real x) (c :: cs))
        rw [List.cons_append]
        unfold realNumber
        split <;> first | rfl | (exfalso; simp_all)

/-- A test of the next character that fails for a form feed and for an opening bracket. -/
theorem head?_any_append {p : Char → Bool} (hfeed : p '\x0c' = false) (hopening : p '(' = false) (u : Text)
    {v : Text} (hv : Follows u v) : (u ++ v).head?.any p = u.head?.any p := by
  cases u with
  | nil =>
      have hp := (hv.breaks rfl).notBefore hfeed hopening
      obtain ⟨c, cs, rfl, -⟩ := (hv.breaks rfl).exists_cons
      exact hp c rfl
  | cons c cs => rfl

/-- A letter that breaks nothing off begins the whole text only if it begins the front of it. -/
theorem head?_append_eq {d : Char} (hd : isBreak d = false) (u : Text) {v : Text} (hv : Follows u v) :
    (u ++ v).head? = some d ↔ u.head? = some d := by
  cases u with
  | nil =>
      obtain ⟨c, cs, rfl, hc⟩ := (hv.breaks rfl).exists_cons
      refine ⟨fun h => ?_, nofun⟩
      rw [← Option.some.inj h, hc] at hd
      cases hd
  | cons c cs => exact Iff.rfl

theorem stopsAt_plainNumber (whole fraction : Text) (pointed : Bool) (u : Text) :
    StopsAt (plainNumber whole fraction pointed) u := by
  let isReal := pointed || u.head? = some 'j' || u.head? = some 'J'
  have hread : StopsAt (fun t =>
      if isReal then realNumber (whole ++ fraction) (-(fraction.length : Int)) t
      else if whole.head? = some '0' && whole.any (· ≠ '0') then none
      else if whole.length > maxDigits then none
      else endNumber (.int (digitsIn 10 whole)) t) u :=
    .ite (fun _ => stopsAt_realNumber _ _ u) fun _ => .ite (fun _ => stopsAt_none) fun _ =>
      .ite (fun _ => stopsAt_none) fun _ => stopsAt_endNumber _ u
  refine StopsAt.congr (List.suffix_refl _) (fun v hv => ?_) hread
  have hsmall := head?_append_eq (d := 'j') rfl u hv
  have hcapital := head?_append_eq (d := 'J') rfl u hv
  simp only [plainNumber, hsmall, hcapital, isReal]

theorem stopsAt_digits (u : Text) : StopsAt (digitRun Char.isDigit) u :=
  stopsAt_digitRun (by decide) (by decide) u

def exponentDigits (digits : Text) (negative : Prop) [Decidable negative] (places : Nat) (t : Text) :
    Option (Token × Text) :=
  (digitRun Char.isDigit t).bind fun (ds, rest) =>
    realNumber digits ((if negative then -(digitsIn 10 ds : Int) else digitsIn 10 ds) - places) rest

theorem stopsAt_exponentDigits (digits : Text) (negative : Prop) [Decidable negative] (places : Nat)
    (u : Text) :
    StopsAt (exponentDigits digits negative places) u :=
  StopsAt.bind (stopsAt_digits u) fun ds u' => stopsAt_realNumber digits
    ((if negative then -(digitsIn 10 ds : Int) else digitsIn 10 ds) - places) u'

def exponentRest (whole fraction : Text) (pointed : Bool) (c : Char) (cs : Text) : Option (Token × Text) :=
  let signed := cs.head? = some '+' || cs.head? = some '-'
  let body := if signed then cs.drop 1 else cs
  if body.head?.any Char.isDigit then
    exponentDigits (whole ++ fraction) (cs.head? = some '-') fraction.length body
  else if signed then none
  else plainNumber whole fraction pointed (c :: cs)

/-- No number ends in front of a letter with a form feed or an opening bracket behind it. -/
theorem plainNumber_letter {c : Char} (hc : inWord c = true) (hj : c ≠ 'j' ∧ c ≠ 'J') {v : Text}
    (hv : Breaks v) (whole fraction : Text) (pointed : Bool) :
    plainNumber whole fraction pointed (c :: v) = none := by
  have hend (tok : Token) : endNumber tok (c :: v) = none := by
    refine if_neg fun hends => ?_
    -- no word that may follow a number is a single letter, and none goes on beyond the break
    have hwords : ∀ word ∈ ["and", "else", "for", "if", "in", "is", "or", "not"],
        2 ≤ word.toList.length ∧ word.toList.tail.any isJoint = false := by decide
    simp only [endsNumber, hc, Bool.not_true, Bool.or_false, List.any_eq_true] at hends
    obtain ⟨word, hmem, hprefix⟩ := hends
    obtain ⟨hlength, hletters⟩ := hwords word hmem
    have hshort := isPrefixOf_of_joint (u := [c]) hletters (List.cons_ne_nil _ _) (hv.follows []).joint hprefix
    have hle := (List.isPrefixOf_iff_prefix.1 hshort).length_le
    simp only [List.length_singleton] at hle
    omega
  have hreal (digits : Text) (exp : Int) : realNumber digits exp (c :: v) = none := by
    unfold realNumber
    split
    · rename_i heq
      exact absurd (List.cons.inj heq).1 hj.1
    · rename_i heq
      exact absurd (List.cons.inj heq).1 hj.2
    · exact hend _
  unfold plainNumber
  simp only [hreal, hend, ite_self]

theorem stopsAt_exponentRest (whole fraction : Text) (pointed : Bool) {c : Char} (hc : c = 'e' ∨ c = 'E')
    (u : Text) : StopsAt (fun t => exponentRest whole fraction pointed c (t.drop 1)) (c :: u) := by
  cases u with
  | nil =>
      intro v x r hv h
      have hdigit := hv.notBefore (p := Char.isDigit) (by decide) (by decide)
      have hsign := hv.notBefore (p := fun c => c == '+' || c == '-') (by decide) (by decide)
      have hplain : plainNumber whole fraction pointed (c :: v) = none := by
        -- it is a letter, and not the one that makes a number imaginary
        refine plainNumber_letter ?_ ?_ hv whole fraction pointed
        · obtain rfl | rfl := hc <;> decide
        · obtain rfl | rfl := hc <;> decide
      obtain ⟨d, ds, rfl, -⟩ := hv.exists_cons
      have hd := hsign d rfl
      simp only [Bool.or_eq_false_iff, beq_eq_false_iff_ne] at hd
      simp [exponentRest, hd.1, hd.2, hdigit d rfl, hplain] at h
  | cons d ds =>
      by_cases hsign : d = '+' ∨ d = '-'
      · cases ds with
        | nil =>
            intro v x r hv h
            have hdigit := hv.notBefore (p := Char.isDigit) (by decide) (by decide)
            obtain ⟨d', ds', rfl, -⟩ := hv.exists_cons
            simp [exponentRest, hsign, hdigit d' rfl] at h
        | cons x xs =>
            -- behind a sign there must be a digit
            by_cases hx : x.isDigit = true
            · refine StopsAt.congr ⟨[c, d], rfl⟩ (fun v _ => ?_)
                (stopsAt_exponentDigits (whole ++ fraction) (d = '-') fraction.length (x :: xs))
              simp [exponentRest, hsign, hx]
            · refine StopsAt.congr (List.suffix_refl _) (fun v _ => ?_) stopsAt_none
              simp [exponentRest, hsign, hx]
      · rw [not_or] at hsign
        -- without a digit the letter begins no exponent, and the number ends in front of it
        by_cases hd : d.isDigit = true
        · refine StopsAt.congr (List.suffix_cons c _) (fun v _ => ?_)
            (stopsAt_exponentDigits (whole ++ fraction) (d = '-') fraction.length (d :: ds))
          simp [exponentRest, hsign, hd]
        · refine StopsAt.congr (List.suffix_refl _) (fun v _ => ?_)
            (stopsAt_plainNumber whole fraction pointed (c :: d :: ds))
          simp [exponentRest, hsign, hd]

theorem stopsAt_exponentNumber (whole fraction : Text) (pointed : Bool) (u : Text) :
    StopsAt (exponentNumber whole fraction pointed) u := by
  cases u with
  | nil =>
      refine StopsAt.congr (List.suffix_refl _) (fun v hv => ?_) (stopsAt_plainNumber whole fraction pointed [])
      have he := (hv.breaks rfl).notBefore (p := fun c => c == 'e' || c == 'E') rfl rfl
      obtain ⟨c, cs, rfl, -⟩ := (hv.breaks rfl).exists_cons
      have hc : (decide (c = 'e') || decide (c = 'E')) = false := he c rfl
      rw [List.nil_append, exponentNumber, if_neg (by simp [hc])]
  | cons c cs =>
      by_cases hc : (decide (c = 'e') || decide (c = 'E')) = true
      · have hletter : c = 'e' ∨ c = 'E' := by simpa using hc
        refine StopsAt.congr (List.suffix_refl _) (fun v _ => ?_)
          (stopsAt_exponentRest whole fraction pointed hletter cs)
        rw [List.cons_append, exponentNumber, if_pos hc]
        rfl
      · refine StopsAt.congr (List.suffix_refl _) (fun v _ => ?_) (stopsAt_plainNumber whole fraction pointed (c :: cs))
        rw [List.cons_append, exponentNumber, if_neg hc]

def pointRest (whole t : Text) : Option (Token × Text) :=
  if t.head?.any Char.isDigit then
    (digitRun Char.isDigit t).bind fun (fraction, rest) => exponentNumber whole fraction true rest
  else exponentNumber whole [] true t

/-- What is read behind the digits in front of a point, if there is one. -/
def fractionRest (whole : Text) : Text → Option (Token × Text)
  | '.' :: rest => pointRest whole rest
  | rest => exponentNumber whole [] false rest

theorem stopsAt_pointRest (whole u : Text) : StopsAt (pointRest whole) u := by
  have hread : StopsAt (fun t =>
      if u.head?.any Char.isDigit then
        (digitRun Char.isDigit t).bind fun (fraction, rest) => exponentNumber whole fraction true rest
      else exponentNumber whole [] true t) u :=
    .ite (fun _ => StopsAt.bind (stopsAt_digits u) fun fraction => stopsAt_exponentNumber whole fraction true)
      fun _ => stopsAt_exponentNumber whole [] true u
  refine hread.congr (List.suffix_refl _) fun v hv => ?_
  simp only [pointRest, head?_any_append (p := Char.isDigit) (by decide) (by decide) u hv]

theorem stopsAt_fractionRest (whole u : Text) : StopsAt (fractionRest whole) u := by
  by_cases hpoint : u.head? = some '.'
  · obtain ⟨cs, rfl⟩ := List.head?_eq_some_iff.1 hpoint
    exact (stopsAt_pointRest whole cs).congr (List.suffix_cons _ _) fun v _ => by rfl
  · refine StopsAt.congr (List.suffix_refl _) (fun v hv => ?_) (stopsAt_exponentNumber whole [] false u)
    unfold fractionRest
    split
    · rename_i rest heq
      have hhead := head?_append_eq (d := '.') rfl u hv
      rw [heq] at hhead
      exact absurd (hhead.1 rfl) hpoint
    · rfl

theorem stopsAt_decimalNumber? (u : Text) : StopsAt decimalNumber? u :=
  StopsAt.bind (stopsAt_digits u) stopsAt_fractionRest

abbrev isDigitIn (base : Nat) (c : Char) : Bool :=
  match Text.hexDigit? c with
  | some d => decide (d < base)
  | none => false

theorem stopsAt_radixNumber? {base : Nat} (u : Text) : StopsAt (radixNumber? base) u := by
  have hfeed : isDigitIn base '\x0c' = false := rfl
  have hopening : isDigitIn base '(' = false := rfl
  -- no further digit may stand behind the numeral
  have hbehind (ds u' : Text) : StopsAt (fun rest =>
      if ds = [] ∨ rest.head?.any Char.isDigit then none else endNumber (.int (digitsIn base ds)) rest) u' := by
    have hread : StopsAt (fun rest =>
        if ds = [] ∨ u'.head?.any Char.isDigit then none else endNumber (.int (digitsIn base ds)) rest) u' :=
      .ite (fun _ => stopsAt_none) fun _ => stopsAt_endNumber _ u'
    refine hread.congr (List.suffix_refl _) fun v hv => ?_
    simp only [head?_any_append (p := Char.isDigit) (by decide) (by decide) u' hv]
  have hread := StopsAt.bind (stopsAt_digitRun hfeed hopening u) hbehind
  refine StopsAt.congr (List.suffix_refl _) (fun v _ => ?_) hread
  unfold radixNumber?
  dsimp only
  cases hrun : digitRun (isDigitIn base) (u ++ v) with
  | none => rw [Option.bind_none]
  | some x =>
      obtain ⟨ds, rest⟩ := x
      cases ds with
      | nil => simp
      | cons d ds => simp

theorem number?_of_ne {c : Char}
    (hc : ¬ c = 'x' ∧ ¬ c = 'X' ∧ ¬ c = 'o' ∧ ¬ c = 'O' ∧ ¬ c = 'b' ∧ ¬ c = 'B') (cs : Text) :
    number? ('0' :: c :: cs) = decimalNumber? ('0' :: c :: cs) := by
  simp [number?, hc]

/-- A numeral of any style stops where its text does. -/
theorem stopsAt_number? {u : Text} (hu : u ≠ []) : StopsAt number? u := by
  have hdecimal := stopsAt_decimalNumber? u
  cases u with
  | nil => exact absurd rfl hu
  | cons z cs =>
      by_cases hz : z = '0'
      · subst hz
        cases cs with
        | nil =>
            -- what follows a zero alone could make it the mark of a base
            refine hdecimal.congr (List.suffix_refl _) fun v hv => ?_
            obtain ⟨c, hc, hjoint⟩ := hv.joint
            obtain ⟨cs, rfl⟩ : ∃ cs, v = c :: cs := List.head?_eq_some_iff.1 hc
            refine number?_of_ne ?_ cs
            refine ⟨?_, ?_, ?_, ?_, ?_, ?_⟩ <;> (rintro rfl; exact absurd hjoint (by decide))
        | cons c cs =>
            -- the letter behind the zero chooses the base
            have hread : StopsAt (fun t =>
                if c = 'x' || c = 'X' then radixNumber? 16 (t.drop 2)
                else if c = 'o' || c = 'O' then radixNumber? 8 (t.drop 2)
                else if c = 'b' || c = 'B' then radixNumber? 2 (t.drop 2)
                else decimalNumber? t) ('0' :: c :: cs) :=
              .ite (fun _ => (stopsAt_radixNumber? cs).congr ⟨['0', c], rfl⟩ fun v _ => by rfl) fun _ =>
                .ite (fun _ => (stopsAt_radixNumber? cs).congr ⟨['0', c], rfl⟩ fun v _ => by rfl) fun _ =>
                  .ite (fun _ => (stopsAt_radixNumber? cs).congr ⟨['0', c], rfl⟩ fun v _ => by rfl) fun _ => hdecimal
            exact hread.congr (List.suffix_refl _) fun v _ => by rfl
      · refine hdecimal.congr (List.suffix_refl _) fun v _ => ?_
        rw [List.cons_append]
        unfold number?
        split
        · rename_i heq
          exact absurd (List.cons.inj heq).1 hz
        · rfl

end Numbers

/-! ## Words and signs -/

/-- What is taken from the beginning of a text does not change with what follows, if that does not go on
with it. -/
theorem takeWhile_append_of_notBefore {p : Char → Bool} {u v : Text}
    (hv : u.dropWhile p = [] → Text.NotBefore p v) :
    (u ++ v).takeWhile p = u.takeWhile p ∧ (u ++ v).dropWhile p = u.dropWhile p ++ v := by
  induction u with
  | nil => exact ⟨(hv rfl).takeWhile, (hv rfl).dropWhile⟩
  | cons c cs ih =>
      cases hc : p c
      · simp [hc]
      · have hrest := ih fun h => hv (by rw [List.dropWhile_cons_of_pos hc, h])
        simp [hc, hrest]

def wordToken? (w : Text) : Option Token :=
  if !(w.all (fun c => decide (c.toNat < 128)) || Text.isName w) then none
  else match Keyword.named? w with
    | some k => some (.keyword k)
    | none => some (.word w)

/-- The style of the quoted text that a word and what follows it begin, if they do. -/
def quoteStyle? (w rest : Text) : Option QuoteStyle :=
  let quote := rest.head?.getD ' '
  if quote = '"' || quote = '\'' then QuoteStyle.named? w else none

/-- A word in front of which no quoted text begins. -/
theorem word?_eq_wordToken? {t : Text} (hstyle : quoteStyle? (t.takeWhile inWord) (t.dropWhile inWord) = none) :
    word? t = (wordToken? (t.takeWhile inWord)).map fun tok => (tok, t.dropWhile inWord) := by
  unfold word? wordToken?
  dsimp only
  split
  · rename_i hsome
    exact absurd (hstyle.symm.trans hsome) nofun
  · split
    · rfl
    · cases Keyword.named? (t.takeWhile inWord) <;> rfl

/-- A word is read whole, up to the first letter that is in no word. -/
theorem word?_eq_some {t r : Text} {tok : Token} (h : word? t = some (tok, r)) (hpart : tok.isPart = true) :
    quoteStyle? (t.takeWhile inWord) (t.dropWhile inWord) = none ∧
      wordToken? (t.takeWhile inWord) = some tok ∧ r = t.dropWhile inWord := by
  cases hstyle : quoteStyle? (t.takeWhile inWord) (t.dropWhile inWord) with
  | none =>
      rw [word?_eq_wordToken? hstyle] at h
      obtain ⟨tok, htok, heq⟩ := Option.map_eq_some_iff.1 h
      cases heq
      exact ⟨rfl, htok, rfl⟩
  | some style =>
      unfold word? at h
      unfold quoteStyle? at hstyle
      dsimp only at h hstyle
      rw [hstyle] at h
      obtain ⟨⟨_, _⟩, -, h⟩ := Option.map_eq_some_iff.1 h
      cases h
      cases hpart

/-- Whether a word is the beginning of a quoted text does not depend on what follows behind a break. -/
theorem quoteStyle?_append (w u : Text) {v : Text} (hv : Follows u v) :
    quoteStyle? w (u ++ v) = quoteStyle? w u := by
  cases u with
  | nil =>
      have hquote := (hv.breaks rfl).notBefore (p := fun c => c == '"' || c == '\'') rfl rfl
      obtain ⟨c, cs, rfl, -⟩ := (hv.breaks rfl).exists_cons
      have hc := hquote c rfl
      simp only [Bool.or_eq_false_iff, beq_eq_false_iff_ne] at hc
      simp [quoteStyle?, hc.1, hc.2]
  | cons c cs => rfl

/-- A word stops in front of a form feed or an opening bracket. -/
theorem word?_stops {u v r : Text} {tok : Token} (hv : Breaks v) (h : word? (u ++ v) = some (tok, r))
    (hpart : tok.isPart = true) :
    r = u.dropWhile inWord ++ v ∧
      ∀ ⦃w⦄, Follows (u.dropWhile inWord) w → word? (u ++ w) = some (tok, u.dropWhile inWord ++ w) := by
  have hcut {w : Text} (hw : Follows (u.dropWhile inWord) w) :=
    takeWhile_append_of_notBefore (p := inWord) (u := u) (v := w) fun hempty =>
      (hw.breaks hempty).notBefore rfl rfl
  obtain ⟨htake, hdrop⟩ := hcut (hv.follows _)
  obtain ⟨hstyle, hword, rfl⟩ := word?_eq_some h hpart
  rw [htake, hdrop, quoteStyle?_append _ _ (hv.follows _)] at hstyle
  rw [htake] at hword
  refine ⟨hdrop, fun w hw => ?_⟩
  obtain ⟨htake', hdrop'⟩ := hcut hw
  have hstyle' : quoteStyle? ((u ++ w).takeWhile inWord) ((u ++ w).dropWhile inWord) = none := by
    rw [htake', hdrop', quoteStyle?_append _ _ hw, hstyle]
  rw [word?_eq_wordToken? hstyle', htake', hdrop', hword]
  rfl

/-- Signs are made of characters that are no joints, but for the first one. -/
theorem mark_tail : ∀ e ∈ Mark.table, e.1.toList.tail.any isJoint = false := by decide

/-- A sign is found in front of a joint as it is found alone. -/
theorem find?_mark {u w : Text} (hu : u ≠ []) (hw : ∃ c ∈ w.head?, isJoint c = true) :
    (Mark.table.find? fun e => e.1.toList.isPrefixOf (u ++ w)) =
      Mark.table.find? fun e => e.1.toList.isPrefixOf u := by
  refine List.find?_congr fun e he => ?_
  rw [Bool.eq_iff_iff]
  refine ⟨isPrefixOf_of_joint (mark_tail e he) hu hw, fun h => ?_⟩
  rw [List.isPrefixOf_iff_prefix] at h ⊢
  exact h.trans (List.prefix_append _ _)

/-- A sign stops in front of everything that makes no sign longer. -/
theorem mark?_append {u w : Text} (hu : u ≠ []) (hw : ∃ c ∈ w.head?, isJoint c = true) :
    mark? (u ++ w) = (mark? u).map fun (m, rest) => (m, rest ++ w) := by
  rw [mark?, mark?, find?_mark hu hw]
  cases hfind : Mark.table.find? fun e => e.1.toList.isPrefixOf u with
  | none => rfl
  | some e =>
      have hlength : e.1.length ≤ u.length := by
        have hprefix : e.1.toList.isPrefixOf u = true :=
          List.find?_some (p := fun e : String × Mark => e.1.toList.isPrefixOf u) hfind
        rw [← String.length_toList]
        exact (List.isPrefixOf_iff_prefix.1 hprefix).length_le
      simp only [Option.map_some, List.drop_append_of_le_length hlength]

/-! ## Tokens -/

def beginsNumber : Text → Bool
  | [] => false
  | c :: cs => c.isDigit || (c = '.' && cs.head?.any Char.isDigit)

def beginsWord : Text → Bool
  | [] => false
  | c :: _ => inWord c || c = '"' || c = '\''

/-- What may stand behind the token at the beginning of `u`, of which `left` is left, in place of a form feed or an
opening bracket: everything that joins nothing, if the token is a sign or if something is left. A point joins
digits. -/
structure Joins (u left w : Text) : Prop where
  joint : ∃ c ∈ w.head?, isJoint c = true
  breaks : left = [] → (beginsNumber u = false ∧ beginsWord u = false) ∨ Breaks w
  point : '.' ∈ u → ∀ c ∈ w.head?, c.isDigit = false

theorem Breaks.joins {w : Text} (h : Breaks w) (u left : Text) : Joins u left w where
  joint := (h.follows []).joint
  breaks _ := .inr h
  point _ c hc := h.notBefore (p := Char.isDigit) (by decide) (by decide) c hc

theorem Joins.follows {u left w : Text} (h : Joins u left w)
    (hu : (beginsNumber u || beginsWord u) = true) : Follows left w where
  joint := h.joint
  breaks hleft := (h.breaks hleft).resolve_left fun ⟨hnumber, hword⟩ => by
    rw [hnumber, hword] at hu
    cases hu

/-- Whether a numeral begins is decided by the front of a text, unless its point needs a digit behind it. -/
theorem beginsNumber_append {u w : Text} (hu : u ≠ [])
    (hw : '.' ∈ u → ∀ c ∈ w.head?, c.isDigit = false) : beginsNumber (u ++ w) = beginsNumber u := by
  cases u with
  | nil => exact absurd rfl hu
  | cons c cs =>
      cases cs with
      | cons d ds => rfl
      | nil =>
          by_cases hc : c = '.'
          · subst hc
            have hdigit := hw List.mem_cons_self
            cases w with
            | nil => rfl
            | cons d ds => simp [beginsNumber, hdigit d rfl]
          · simp [beginsNumber, hc]

theorem beginsWord_append {u : Text} (hu : u ≠ []) (w : Text) : beginsWord (u ++ w) = beginsWord u := by
  cases u with
  | nil => exact absurd rfl hu
  | cons c cs => rfl

theorem token?_eq {t : Text} (ht : t ≠ []) :
    token? t =
      if beginsNumber t then number? t
      else if beginsWord t then word? t
      else (mark? t).map fun (m, rest) => (.mark m, rest) := by
  cases t with
  | nil => exact absurd rfl ht
  | cons c cs => rfl

/-- A token stops in front of a form feed or an opening bracket. -/
theorem token?_stops {u v r : Text} {tok : Token} (hu : u ≠ []) (hv : Breaks v)
    (h : token? (u ++ v) = some (tok, r)) (hpart : tok.isPart = true) :
    ∃ left, r = left ++ v ∧ left <:+ u ∧
      ∀ ⦃w⦄, Joins u left w → token? (u ++ w) = some (tok, left ++ w) := by
  -- what follows decides nothing about the kind of the token
  have happend {w left : Text} (hw : Joins u left w) :
      token? (u ++ w) =
        if beginsNumber u then number? (u ++ w)
        else if beginsWord u then word? (u ++ w)
        else (mark? (u ++ w)).map fun (m, rest) => (.mark m, rest) := by
    rw [token?_eq (List.append_ne_nil_of_left_ne_nil hu w), beginsNumber_append hu hw.point,
      beginsWord_append hu]
  rw [happend (hv.joins u [])] at h
  split at h
  · rename_i hnumber
    obtain ⟨left, rfl, hleft, hsame⟩ := stopsAt_number? hu hv h
    refine ⟨left, rfl, hleft, fun w hw => ?_⟩
    rw [happend hw, if_pos hnumber]
    exact hsame (hw.follows (by rw [hnumber, Bool.true_or]))
  · rename_i hnumber
    split at h
    · rename_i hword
      obtain ⟨rfl, hsame⟩ := word?_stops hv h hpart
      refine ⟨_, rfl, List.dropWhile_suffix _, fun w hw => ?_⟩
      rw [happend hw, if_neg hnumber, if_pos hword]
      exact hsame (hw.follows (by rw [hword, Bool.or_true]))
    · rename_i hword
      -- a sign is read with one letter of what follows at most
      rw [mark?_append hu (hv.follows []).joint] at h
      obtain ⟨⟨m, rest⟩, hmark, h⟩ := Option.map_eq_some_iff.1 h
      obtain ⟨⟨m', left⟩, hmark', h'⟩ := Option.map_eq_some_iff.1 hmark
      cases h'
      cases h
      have hleft : left <:+ u := by
        obtain ⟨e, -, he⟩ := Option.map_eq_some_iff.1 hmark'
        cases he
        exact List.drop_suffix _ _
      refine ⟨left, rfl, hleft, fun w hw => ?_⟩
      rw [happend hw, if_neg hnumber, if_neg hword, mark?_append hu hw.joint, hmark']
      rfl

/-! ## What is left behind a token -/

def Leaves {α : Type} (t : Text) (x : Option (α × Text)) : Prop := ∀ a r, x = some (a, r) → r <:+ t

theorem Leaves.mono {α : Type} {t t' : Text} {x : Option (α × Text)} (h : Leaves t x) (ht : t <:+ t') :
    Leaves t' x :=
  fun a r hx => (h a r hx).trans ht

theorem leaves_none {α : Type} {t : Text} : Leaves t (none : Option (α × Text)) := nofun

theorem leaves_ite {α : Type} {t : Text} {b : Prop} [Decidable b] {x y : Option (α × Text)}
    (hx : Leaves t x) (hy : Leaves t y) : Leaves t (if b then x else y) := by
  split
  · exact hx
  · exact hy

theorem Leaves.bind {α β : Type} {t : Text} {x : Option (α × Text)} {f : α → Text → Option (β × Text)}
    (hx : Leaves t x) (hf : ∀ a r, r <:+ t → Leaves r (f a r)) :
    Leaves t (x.bind fun (a, r) => f a r) := by
  intro b r h
  obtain ⟨⟨a, mid⟩, hread, h⟩ := Option.bind_eq_some_iff.1 h
  have hmid := hx a mid hread
  exact (hf a mid hmid b r h).trans hmid

theorem digitRun_leaves {isDigit : Char → Bool} (t : Text) : Leaves t (digitRun isDigit t) := by
  induction t with
  | nil =>
      intro ds r h
      cases h
      exact List.suffix_refl _
  | cons c cs ih =>
      intro ds r h
      rw [digitRun.eq_def] at h
      dsimp only at h
      split at h
      · obtain ⟨⟨ds, r⟩, hread, h⟩ := Option.map_eq_some_iff.1 h
        cases h
        exact (ih _ _ hread).trans (List.suffix_cons c cs)
      · split at h
        -- an underscore counts only in front of a digit
        · split at h
          · cases h
          · split at h
            · exact (ih _ _ h).trans (List.suffix_cons c _)
            · cases h
        · cases h
          exact List.suffix_refl _

/-- A digit is taken, so that something shorter is left. -/
theorem digitRun_shorter {isDigit : Char → Bool} {c : Char} (hc : isDigit c = true) (cs : Text) :
    Leaves cs (digitRun isDigit (c :: cs)) := by
  intro ds r h
  rw [digitRun.eq_def] at h
  dsimp only at h
  rw [if_pos hc] at h
  obtain ⟨⟨ds, r⟩, hread, h⟩ := Option.map_eq_some_iff.1 h
  cases h
  exact digitRun_leaves _ _ _ hread

theorem endNumber_leaves (tok : Token) (t : Text) : Leaves t (endNumber tok t) := by
  unfold endNumber
  refine leaves_ite ?_ leaves_none
  intro a r h
  cases h
  exact List.suffix_refl _

theorem realNumber_leaves (digits : Text) (exp : Int) (t : Text) : Leaves t (realNumber digits exp t) := by
  unfold realNumber
  split
  · exact (endNumber_leaves _ _).mono (List.suffix_cons _ _)
  · exact (endNumber_leaves _ _).mono (List.suffix_cons _ _)
  · exact endNumber_leaves _ _

theorem plainNumber_leaves (whole fraction : Text) (pointed : Bool) (t : Text) :
    Leaves t (plainNumber whole fraction pointed t) :=
  leaves_ite (realNumber_leaves _ _ t)
    (leaves_ite leaves_none (leaves_ite leaves_none (endNumber_leaves _ t)))

theorem exponentDigits_leaves (digits : Text) (negative : Prop) [Decidable negative] (places : Nat) (t : Text) :
    Leaves t (exponentDigits digits negative places t) :=
  Leaves.bind (digitRun_leaves t) fun ds r _ => realNumber_leaves digits
    ((if negative then -(digitsIn 10 ds : Int) else digitsIn 10 ds) - places) r

theorem exponentNumber_leaves (whole fraction : Text) (pointed : Bool) (t : Text) :
    Leaves t (exponentNumber whole fraction pointed t) := by
  unfold exponentNumber
  split
  · exact plainNumber_leaves _ _ _ _
  · rename_i c cs
    refine leaves_ite (leaves_ite ?_ (leaves_ite leaves_none (plainNumber_leaves _ _ _ _)))
      (plainNumber_leaves _ _ _ _)
    have hbody : (if cs.head? = some '+' || cs.head? = some '-' then cs.drop 1 else cs) <:+ c :: cs := by
      split
      · exact (List.drop_suffix _ _).trans (List.suffix_cons c cs)
      · exact List.suffix_cons c cs
    exact (exponentDigits_leaves (whole ++ fraction) (cs.head? = some '-') fraction.length _).mono hbody

theorem pointRest_leaves (whole t : Text) : Leaves t (pointRest whole t) :=
  leaves_ite (Leaves.bind (digitRun_leaves t) fun fraction r _ => exponentNumber_leaves whole fraction true r)
    (exponentNumber_leaves whole [] true t)

theorem fractionRest_leaves (whole t : Text) : Leaves t (fractionRest whole t) := by
  unfold fractionRest
  split
  · exact (pointRest_leaves whole _).mono (List.suffix_cons _ _)
  · exact exponentNumber_leaves _ _ _ _

theorem radixNumber?_leaves (base : Nat) (t : Text) : Leaves t (radixNumber? base t) := by
  unfold radixNumber?
  dsimp only
  split
  · rename_i hrun
    exact leaves_ite leaves_none ((endNumber_leaves _ _).mono (digitRun_leaves _ _ _ hrun))
  · exact leaves_none

/-- A number takes its first character. -/
theorem decimalNumber?_leaves {c : Char} {cs : Text} (h : beginsNumber (c :: cs) = true) :
    Leaves cs (decimalNumber? (c :: cs)) := by
  by_cases hc : c.isDigit = true
  · exact (digitRun_shorter hc cs).bind fun whole r _ => fractionRest_leaves whole r
  · have hpoint : c = '.' := by
      simp only [beginsNumber, hc, Bool.false_or, Bool.and_eq_true, decide_eq_true_eq] at h
      exact h.1
    subst hpoint
    intro tok r hread
    obtain ⟨⟨whole, mid⟩, hrun, hread⟩ := Option.bind_eq_some_iff.1 hread
    cases hrun
    exact pointRest_leaves [] cs tok r hread

theorem number?_leaves {c : Char} {cs : Text} (h : beginsNumber (c :: cs) = true) :
    Leaves cs (number? (c :: cs)) := by
  unfold number?
  split
  · rename_i d ds heq
    cases heq
    have hradix (base : Nat) : Leaves (d :: ds) (radixNumber? base ds) :=
      (radixNumber?_leaves base ds).mono (List.suffix_cons d ds)
    exact leaves_ite (hradix 16) (leaves_ite (hradix 8) (leaves_ite (hradix 2) (decimalNumber?_leaves h)))
  · exact decimalNumber?_leaves h

/-- A token takes at least one character. -/
theorem token?_shorter {c : Char} {cs r : Text} {tok : Token} (h : token? (c :: cs) = some (tok, r))
    (hpart : tok.isPart = true) : r <:+ cs := by
  rw [token?_eq (List.cons_ne_nil c cs)] at h
  split at h
  · rename_i hnumber
    exact number?_leaves hnumber _ _ h
  · split at h
    · rename_i hword
      obtain ⟨hstyle, -, rfl⟩ := word?_eq_some h hpart
      cases hc : inWord c
      · -- a quote begins no word
        have hquote : c = '"' ∨ c = '\'' := by simpa [beginsWord, hc] using hword
        simp only [List.takeWhile_cons_of_neg (by simp [hc] : ¬ inWord c = true)] at hstyle
        obtain rfl | rfl := hquote <;> cases hstyle
      · rw [List.dropWhile_cons_of_pos hc]
        exact List.dropWhile_suffix _
    · obtain ⟨⟨m, rest⟩, hmark, h⟩ := Option.map_eq_some_iff.1 h
      cases h
      obtain ⟨e, hfind, he⟩ := Option.map_eq_some_iff.1 hmark
      cases he
      have hlength : ∀ e ∈ Mark.table, e.1.length - 1 + 1 = e.1.length := by decide
      rw [← hlength e (List.mem_of_find?_eq_some hfind), List.drop_succ_cons]
      exact List.drop_suffix _ _

end Arithmetic

end TabletopChat
