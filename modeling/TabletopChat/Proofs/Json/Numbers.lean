import TabletopChat.Json.Parser
import TabletopChat.Json.Printer
import TabletopChat.Proofs.Decimal.Shortest
import TabletopChat.Proofs.Text.Numeral

/-!
# Proofs/Json/Numbers — numbers are read as they were written

A number is written as digits, perhaps a fraction, and perhaps an exponent. What is read from such a
text is the integer, or the double that its digits round to; and the digits that are written for a
double round to that double.

- `Parts`                     : a number in its parts
- `readNumber_text`           : what is read from them
- `readNumber_ofNat`          : integers
- `readNumber_writeMagnitude` : doubles
-/

namespace TabletopChat

namespace Json

open Text (NotBefore)

/-! ## Parts of a number -/

def isNumeralPart (c : Char) : Bool := c.isDigit || c == '.' || c == 'e' || c == 'E'

def AllDigits (t : Text) : Prop := ∀ c ∈ t, c.isDigit = true

def fractionText : Text → Text
  | [] => []
  | d :: ds => '.' :: d :: ds

def exponentText : Option Int → Text
  | none => []
  | some k => Decimal.writeExponent k

/-- The digits before the point: the zero alone, or digits without a zero in front. -/
def IsWhole (t : Text) : Prop := t = ['0'] ∨ (AllDigits t ∧ t ≠ [] ∧ t.head? ≠ some '0')

/-- A number without its sign, in its parts, that has a fraction or an exponent. -/
structure Parts where
  whole : Text
  fraction : Text
  exponent : Option Int
  isWhole : IsWhole whole
  digits : AllDigits fraction
  isDouble : fraction ≠ [] ∨ exponent.isSome

namespace Parts

def text (p : Parts) : Text := p.whole ++ (fractionText p.fraction ++ exponentText p.exponent)

def mant (p : Parts) : Nat := Text.digitsValue (p.whole ++ p.fraction)

def exp (p : Parts) : Int := p.exponent.getD 0 - p.fraction.length

def value (p : Parts) : ℚ := p.mant * 10 ^ p.exp

end Parts

theorem spanDigits_append {ds rest : Text} (hds : AllDigits ds) (hrest : NotBefore Char.isDigit rest) :
    spanDigits (ds ++ rest) = (ds, rest) := by
  rw [spanDigits, List.span_eq_takeWhile_dropWhile, List.takeWhile_append_of_pos hds,
    List.dropWhile_append_of_pos hds, hrest.takeWhile, hrest.dropWhile, List.append_nil]

/-- The digits behind a point are read back. -/
theorem spanFraction_fractionText {ds rest : Text} (hds : AllDigits ds)
    (hrest : NotBefore (fun c => c.isDigit || c == '.') rest) :
    spanFraction (fractionText ds ++ rest) = (ds, rest) := by
  match ds with
  | [] =>
    match rest with
    | [] => rfl
    | c :: cs =>
      have hc := hrest c rfl
      simp at hc
      simp [fractionText, spanFraction, hc.2]
  | d :: ds =>
    have hspan : spanDigits (d :: ds ++ rest) = (d :: ds, rest) :=
      spanDigits_append hds (hrest.mono (by simp +contextual))
    simp only [fractionText, List.cons_append, spanFraction] at hspan ⊢
    rw [hspan]

theorem allDigits_ofNat (n : Nat) : AllDigits (Text.ofNat n) := fun _ => Text.isDigit_of_mem_ofNat

theorem allDigits_zeros (n : Nat) : AllDigits (List.replicate n '0') := by
  intro c hc
  rw [List.eq_of_mem_replicate hc]
  rfl

theorem AllDigits.append {t u : Text} (ht : AllDigits t) (hu : AllDigits u) : AllDigits (t ++ u) := by
  intro c hc
  rcases List.mem_append.mp hc with h | h
  · exact ht c h
  · exact hu c h

/-! ## What digits are worth -/

/-- The value of digits with others behind them. -/
theorem digitsValue_append (t : Text) {u : Text} (hu : AllDigits u) :
    Text.digitsValue (t ++ u) = Text.digitsValue t * 10 ^ u.length + Text.digitsValue u := by
  unfold Text.digitsValue
  rw [List.foldl_append]
  generalize List.foldl _ 0 t = k
  induction u generalizing k with
  | nil => simp
  | cons c cs ih =>
    have hc := Text.digit?_of_isDigit (hu c (.head _))
    have hcs : AllDigits cs := fun d hd => hu d (.tail _ hd)
    simp only [List.foldl_cons, hc, List.length_cons]
    rw [ih hcs (10 * k + (c.toNat - 48)), ih hcs (10 * 0 + (c.toNat - 48))]
    ring

/-- Zeros are worth nothing. -/
theorem digitsValue_zeros (n : Nat) : Text.digitsValue (List.replicate n '0') = 0 := by
  induction n with
  | zero => rfl
  | succ n ih =>
    rw [List.replicate_succ', digitsValue_append _ (u := ['0']) (allDigits_zeros 1), ih]
    rfl

/-! ## The parts are found again -/

theorem spanExponent_sign (neg : Bool) {ds rest : Text} (hds : AllDigits ds) (hne : ds ≠ [])
    (hrest : NotBefore Char.isDigit rest) :
    spanExponent ('e' :: (if neg then '-' else '+') :: (ds ++ rest)) =
      (some (Decimal.signed neg (Text.digitsValue ds)), rest) := by
  have hspan := spanDigits_append hds hrest
  obtain ⟨d, ds, rfl⟩ := List.exists_cons_of_ne_nil hne
  rw [List.cons_append] at hspan
  cases neg <;> simp [spanExponent, hspan]

/-- A written exponent is read back. -/
theorem spanExponent_exponentText (k : Option Int) {rest : Text} (hrest : NotBefore isNumeralPart rest) :
    spanExponent (exponentText k ++ rest) = (k, rest) := by
  match k with
  | none =>
    match rest with
    | [] => rfl
    | c :: cs =>
      have hc := hrest c rfl
      simp [isNumeralPart] at hc
      simp [exponentText, spanExponent, hc]
  | some k =>
    have hvalue : Text.digitsValue (Text.padLeft 2 '0' (Text.ofNat k.natAbs)) = k.natAbs := by
      rw [Text.padLeft, digitsValue_append _ (allDigits_ofNat _), digitsValue_zeros, zero_mul, zero_add,
        Text.digitsValue_ofNat]
    have hne : Text.padLeft 2 '0' (Text.ofNat k.natAbs) ≠ [] := by
      simp [Text.padLeft, Text.ofNat_ne_nil]
    have hsign := spanExponent_sign (decide (k < 0))
      ((allDigits_zeros _).append (allDigits_ofNat k.natAbs)) hne
      (hrest.mono (by simp +contextual [isNumeralPart]))
    have hsigned : Decimal.signed (decide (k < 0)) k.natAbs = k := by
      unfold Decimal.signed
      split_ifs with h <;> simp at h <;> omega
    rw [← Text.padLeft, hvalue, hsigned] at hsign
    simpa [exponentText, Decimal.writeExponent] using hsign

/-! ## Doubles -/

def spanWhole (t : Text) : Text × Text :=
  match t with
  | '0' :: r => (['0'], r)
  | _ => spanDigits t

/-- The whole part is read up to the point or the exponent. -/
theorem spanWhole_append {whole rest : Text} (h : IsWhole whole) (hrest : NotBefore Char.isDigit rest) :
    spanWhole (whole ++ rest) = (whole, rest) := by
  rcases h with rfl | ⟨hdigits, hne, hzero⟩
  · rfl
  · obtain ⟨d, ds, rfl⟩ := List.exists_cons_of_ne_nil hne
    have hd : d ≠ '0' := fun h => hzero (congrArg some h)
    rw [← spanDigits_append hdigits hrest, spanWhole]
    intro r heq
    exact hd (List.cons.inj heq).1

section Steps

variable {start t whole fraction rest₁ rest₂ rest₃ : Text} {neg : Bool} {exponent : Option Int}
  (hwhole : spanWhole t = (whole, rest₁)) (hne : whole ≠ [])

include hwhole hne

/-- A number with a fraction or an exponent is read as a double. -/
theorem readNumber_double (hfraction : spanFraction rest₁ = (fraction, rest₂))
    (hexponent : spanExponent rest₂ = (exponent, rest₃)) (h : fraction ≠ [] ∨ exponent.isSome) :
    readNumber start neg t =
      .ok (.float (Decimal.ofScientific neg (Text.digitsValue (whole ++ fraction))
        (exponent.getD 0 - fraction.length)), rest₃) := by
  unfold readNumber
  split
  rename_i w r heq
  obtain ⟨rfl, rfl⟩ : whole = w ∧ rest₁ = r := Prod.mk.inj (hwhole.symm.trans heq)
  simp only [hne, if_false, hfraction, hexponent]
  split
  · simp at h
  · rfl

/-- A number without both is read as an integer. -/
theorem readNumber_integer (hfraction : spanFraction rest₁ = ([], rest₂))
    (hexponent : spanExponent rest₂ = (none, rest₃)) (h : whole.length ≤ Text.maxNumeral) :
    readNumber start neg t = .ok (.int (Decimal.signed neg (Text.digitsValue whole)), rest₃) := by
  unfold readNumber
  split
  rename_i w r heq
  obtain ⟨rfl, rfl⟩ : whole = w ∧ rest₁ = r := Prod.mk.inj (hwhole.symm.trans heq)
  simp only [hne, if_false, hfraction, hexponent, Nat.not_lt.mpr h]

end Steps

theorem notBefore_exponentText {p : Char → Bool} (hp : ∀ c, isNumeralPart c = false → p c = false)
    (he : p 'e' = false) (exponent : Option Int) {rest : Text} (hrest : NotBefore isNumeralPart rest) :
    NotBefore p (exponentText exponent ++ rest) := by
  match exponent with
  | none => exact hrest.mono hp
  | some k =>
    rintro c ⟨⟩
    exact he

/-- Where a fraction may stand, no further digit does. -/
theorem notBefore_fractionText (fraction : Text) (exponent : Option Int) {rest : Text}
    (hrest : NotBefore isNumeralPart rest) :
    NotBefore Char.isDigit (fractionText fraction ++ (exponentText exponent ++ rest)) := by
  match fraction with
  | [] => exact notBefore_exponentText (by simp +contextual [isNumeralPart]) rfl exponent hrest
  | d :: ds =>
    rintro c ⟨⟩
    rfl

theorem IsWhole.ne_nil {t : Text} (h : IsWhole t) : t ≠ [] := by
  rcases h with rfl | ⟨-, h, -⟩
  · decide
  · exact h

/-- The double that is read from a number in its parts. -/
theorem readNumber_text (start : Text) (neg : Bool) (p : Parts) {rest : Text}
    (hrest : NotBefore isNumeralPart rest) :
    readNumber start neg (p.text ++ rest) =
      .ok (.float (Decimal.ofScientific neg p.mant p.exp), rest) := by
  have hspanFraction := spanFraction_fractionText p.digits
    (notBefore_exponentText (p := fun c => c.isDigit || c == '.')
      (by simp +contextual [isNumeralPart]) rfl p.exponent hrest)
  rw [Parts.text, List.append_assoc, List.append_assoc]
  exact readNumber_double
    (spanWhole_append p.isWhole (notBefore_fractionText p.fraction p.exponent hrest))
    p.isWhole.ne_nil hspanFraction (spanExponent_exponentText p.exponent hrest) p.isDouble

/-- A written natural number has no zeros in front. -/
theorem isWhole_ofNat (n : Nat) : IsWhole (Text.ofNat n) := by
  by_cases hzero : (Text.ofNat n).head? = some '0'
  · left
    obtain ⟨c, cs, hcs, -⟩ := Text.exists_ofNat n
    rw [hcs, List.head?_cons, Option.some.injEq] at hzero
    have hn := Text.eq_zero_of_head_ofNat (hcs.trans (congrArg (· :: cs) hzero))
    subst hn
    rfl
  · exact .inr ⟨allDigits_ofNat n, Text.ofNat_ne_nil n, hzero⟩

/-- Integers. -/
theorem readNumber_ofNat (start : Text) (neg : Bool) {n : Nat}
    (hn : (Text.ofNat n).length ≤ Text.maxNumeral) {rest : Text} (hrest : NotBefore isNumeralPart rest) :
    readNumber start neg (Text.ofNat n ++ rest) = .ok (.int (Decimal.signed neg n), rest) := by
  have hfraction : spanFraction rest = ([], rest) :=
    spanFraction_fractionText (by simp [AllDigits] : AllDigits [])
      (hrest.mono (by simp +contextual [isNumeralPart]))
  rw [readNumber_integer (spanWhole_append (isWhole_ofNat n)
    (hrest.mono (by simp +contextual [isNumeralPart]))) (Text.ofNat_ne_nil n) hfraction
    (spanExponent_exponentText none hrest) hn, Text.digitsValue_ofNat]

/-! ## The digits of a double -/

theorem digitsValue_append_zeros (d n : Nat) :
    Text.digitsValue (Text.ofNat d ++ List.replicate n '0') = d * 10 ^ n := by
  rw [digitsValue_append _ (allDigits_zeros n), digitsValue_zeros, Text.digitsValue_ofNat,
    List.length_replicate, add_zero]

/-- Zeros behind the digits are made up for by the exponent. -/
theorem Parts.value_eq {p : Parts} {d m : Nat} {e : ℤ} (hmant : p.mant = d * 10 ^ m)
    (hexp : m + p.exp = e) : p.value = d * 10 ^ e := by
  rw [Parts.value, hmant, ← hexp, zpow_add₀ (by norm_num), zpow_natCast]
  push_cast
  ring

section Digits

variable {d : Nat} (hd : 0 < d)

include hd in
/-- The first digit of a number above zero is not zero. -/
theorem exists_digits : ∃ c cs, Text.ofNat d = c :: cs ∧ c.isDigit = true ∧ c ≠ '0' ∧ AllDigits cs := by
  obtain ⟨c, cs, hcs, hc⟩ := Text.exists_ofNat d
  refine ⟨c, cs, hcs, hc, ?_, ?_⟩
  · rintro rfl
    exact absurd (Text.eq_zero_of_head_ofNat hcs) (Nat.ne_of_gt hd)
  · intro e he
    exact allDigits_ofNat d e (hcs ▸ List.mem_cons_of_mem _ he)

include hd in
/-- The first digits of a number, with others behind, are a whole numeral. -/
theorem isWhole_take (k : Nat) {t : Text} (ht : AllDigits t) :
    IsWhole ((Text.ofNat d).take (k + 1) ++ t) := by
  obtain ⟨c, cs, hcs, hc, hzero, hdigits⟩ := exists_digits hd
  rw [hcs]
  refine .inr ⟨?_, by simp, by simpa using hzero⟩
  refine AllDigits.append (fun e he => ?_) ht
  rcases List.mem_cons.mp (List.mem_of_mem_take he) with rfl | he
  · exact hc
  · exact hdigits e he

include hd in
/-- A double that is whole is written with a point and a zero. -/
theorem writeDigits_whole {n : Nat} (hn : n < 16) (hlength : (Text.ofNat d).length ≤ n + 1) :
    ∃ p : Parts, p.text = Decimal.writeDigits .number (Text.ofNat d) n ∧
      p.value = d * 10 ^ ((n : ℤ) + 1 - (Text.ofNat d).length) := by
  have htake : (Text.ofNat d).take (n + 1) = Text.ofNat d := List.take_of_length_le hlength
  have hdrop : (Text.ofNat d).drop (n + 1) = [] := List.drop_eq_nil_of_le hlength
  have hrange : Decimal.Style.number.positionalFrom ≤ (n : ℤ) ∧
      (n : ℤ) < Decimal.Style.number.positionalBelow := by
    simp only [Decimal.Style.number]
    omega
  -- zeros fill the places up to the point, and one more stands behind it
  have hwhole := isWhole_take hd n (allDigits_zeros (n + 1 - (Text.ofNat d).length))
  rw [htake] at hwhole
  refine ⟨⟨Text.ofNat d ++ List.replicate (n + 1 - (Text.ofNat d).length) '0', ['0'], none, hwhole,
    allDigits_zeros 1, .inl (by decide)⟩, ?_, ?_⟩
  · simp only [Parts.text, Decimal.writeDigits, if_pos hrange]
    simp [fractionText, exponentText, htake, hdrop, Decimal.Style.number]
  · have hzeros : List.replicate (n + 1 - (Text.ofNat d).length) '0' ++ ['0'] =
        List.replicate (n + 2 - (Text.ofNat d).length) '0' := by
      rw [← List.replicate_succ']
      congr 1
      omega
    refine Parts.value_eq (m := n + 2 - (Text.ofNat d).length) ?_ ?_
    · rw [Parts.mant, List.append_assoc, hzeros, digitsValue_append_zeros]
    · simp only [Parts.exp, Option.getD_none, List.length_singleton]
      omega

include hd in
/-- A double is written with a point inside of its digits. -/
theorem writeDigits_point {n : Nat} (hn : n < 16) (hlength : n + 1 < (Text.ofNat d).length) :
    ∃ p : Parts, p.text = Decimal.writeDigits .number (Text.ofNat d) n ∧
      p.value = d * 10 ^ ((n : ℤ) + 1 - (Text.ofNat d).length) := by
  -- the point stands between two digits
  have hdrop : (Text.ofNat d).drop (n + 1) ≠ [] := by
    simpa using hlength
  have hrange : Decimal.Style.number.positionalFrom ≤ (n : ℤ) ∧
      (n : ℤ) < Decimal.Style.number.positionalBelow := by
    simp only [Decimal.Style.number]
    omega
  have hwhole := isWhole_take hd n (t := []) (by simp [AllDigits])
  rw [List.append_nil] at hwhole
  refine ⟨⟨(Text.ofNat d).take (n + 1), (Text.ofNat d).drop (n + 1), none, hwhole,
    fun c hc => allDigits_ofNat d c (List.mem_of_mem_drop hc), .inl hdrop⟩, ?_, ?_⟩
  · obtain ⟨c, cs, hcs⟩ := List.exists_cons_of_ne_nil hdrop
    have hzeros : n + 1 - (Text.ofNat d).length = 0 := by omega
    simp only [Parts.text, Decimal.writeDigits, if_pos hrange]
    simp [hcs, hzeros, fractionText, exponentText]
  · refine Parts.value_eq (m := 0) ?_ ?_
    · rw [Parts.mant, List.take_append_drop, Text.digitsValue_ofNat, pow_zero, mul_one]
    · simp only [Parts.exp, Option.getD_none, List.length_drop]
      omega

/-- A small double is written with zeros behind its point. -/
theorem writeDigits_small (d : Nat) {n : Nat} (hn : n < 4) :
    ∃ p : Parts, p.text = Decimal.writeDigits .number (Text.ofNat d) (Int.negSucc n) ∧
      p.value = d * 10 ^ (Int.negSucc n + 1 - (Text.ofNat d).length) := by
  have hrange : Decimal.Style.number.positionalFrom ≤ Int.negSucc n ∧
      Int.negSucc n < Decimal.Style.number.positionalBelow := by
    simp only [Decimal.Style.number]
    omega
  -- zeros stand between the point and the digits
  have hne : List.replicate n '0' ++ Text.ofNat d ≠ [] := by simp [Text.ofNat_ne_nil]
  refine ⟨⟨['0'], List.replicate n '0' ++ Text.ofNat d, none, .inl rfl,
    (allDigits_zeros n).append (allDigits_ofNat d), .inl hne⟩, ?_, ?_⟩
  · obtain ⟨c, cs, hcs⟩ := List.exists_cons_of_ne_nil hne
    simp only [Parts.text, Decimal.writeDigits, if_pos hrange, hcs, List.cons_append]
    simp [fractionText, exponentText]
  · refine Parts.value_eq (m := 0) ?_ ?_
    · have hzeros : ['0'] ++ (List.replicate n '0' ++ Text.ofNat d) =
          List.replicate (n + 1) '0' ++ Text.ofNat d := rfl
      rw [Parts.mant, hzeros, digitsValue_append _ (allDigits_ofNat d), digitsValue_zeros,
        Text.digitsValue_ofNat]
      ring
    · simp only [Parts.exp, Option.getD_none, List.length_append, List.length_replicate]
      omega

include hd in
/-- A very large or very small double is written with an exponent. -/
theorem writeDigits_exponent {k : ℤ} (hk : ¬ (-4 ≤ k ∧ k < 16)) :
    ∃ p : Parts, p.text = Decimal.writeDigits .number (Text.ofNat d) k ∧
      p.value = d * 10 ^ (k + 1 - (Text.ofNat d).length) := by
  obtain ⟨c, cs, hcs, hc, hzero, hdigits⟩ := exists_digits hd
  have hwhole : IsWhole [c] := .inr ⟨by simpa [AllDigits] using hc, by simp, by simpa using hzero⟩
  refine ⟨⟨[c], cs, some k, hwhole, hdigits, .inr rfl⟩, ?_, ?_⟩
  · have hrange : ¬ (Decimal.Style.number.positionalFrom ≤ k ∧
      k < Decimal.Style.number.positionalBelow) := hk
    simp only [Parts.text, Decimal.writeDigits, if_neg hrange, hcs]
    cases cs <;> rfl
  · refine Parts.value_eq (m := 0) ?_ ?_
    · have hmant : [c] ++ cs = Text.ofNat d := hcs.symm
      rw [Parts.mant, hmant, Text.digitsValue_ofNat, pow_zero, mul_one]
    · rw [hcs]
      simp only [Parts.exp, Option.getD_some, List.length_cons]
      omega

include hd in
/-- The digits of a positive number are a number in its parts, at every exponent. -/
theorem writeDigits_parts (k : ℤ) :
    ∃ p : Parts, p.text = Decimal.writeDigits .number (Text.ofNat d) k ∧
      p.value = d * 10 ^ (k + 1 - (Text.ofNat d).length) := by
  -- the bounds that decide whether an exponent is written
  by_cases hk : -4 ≤ k ∧ k < 16
  · match k with
    | .ofNat n =>
      have hn : n < 16 := by
        have := hk.2
        rw [Int.ofNat_eq_natCast] at this
        omega
      rcases Nat.lt_or_ge (n + 1) (Text.ofNat d).length with hlt | hge
      · exact writeDigits_point hd hn hlt
      · exact writeDigits_whole hd hn hge
    | .negSucc n => exact writeDigits_small d (by omega)
  · exact writeDigits_exponent hd hk

end Digits

open Decimal

/-- The text of a magnitude is a number in its parts, which rounds to the magnitude. -/
theorem writeMagnitude_parts {m : Magnitude} (hm : m.IsDouble) (neg : Bool) :
    ∃ p : Parts, p.text = writeMagnitude .number m ∧
      ofScientific neg p.mant p.exp = assemble neg m.mant m.exp := by
  unfold writeMagnitude
  split
  · rename_i hzero
    refine ⟨⟨['0'], ['0'], none, .inl rfl, allDigits_zeros 1, .inl (by decide)⟩, rfl, ?_⟩
    rw [hzero]
    rfl
  · rename_i hpos
    obtain ⟨hholds, hdigits⟩ := shortest_holds hm (Nat.pos_of_ne_zero hpos)
    obtain ⟨p, htext, hvalue⟩ := writeDigits_parts hdigits
      ((shortest m).exp + (Text.ofNat (shortest m).digits).length - 1)
    refine ⟨p, htext, ofScientific_eq hm (Nat.pos_of_ne_zero hpos) ?_ neg⟩
    have hexp : (shortest m).exp + (Text.ofNat (shortest m).digits).length - 1 + 1 -
        (Text.ofNat (shortest m).digits).length = (shortest m).exp := by ring
    rw [hexp] at hvalue
    change m.Holds p.value
    rw [hvalue]
    exact hholds

/-- A number is written with a digit in front. -/
theorem Parts.exists_text (p : Parts) : ∃ c cs, p.text = c :: cs ∧ c.isDigit = true := by
  obtain ⟨c, cs, hcs⟩ := List.exists_cons_of_ne_nil p.isWhole.ne_nil
  refine ⟨c, cs ++ (fractionText p.fraction ++ exponentText p.exponent), ?_, ?_⟩
  · rw [Parts.text, hcs, List.cons_append]
  · rcases p.isWhole with h | ⟨h, -, -⟩
    · rw [hcs] at h
      rw [(List.cons.inj h).1]
      rfl
    · exact h c (hcs ▸ .head cs)

/-- The double that was written is read. -/
theorem readNumber_writeMagnitude {x : Float} {neg : Bool} {m : Magnitude}
    (hx : shape x = .finite neg m) (start : Text) {rest : Text} (hrest : NotBefore isNumeralPart rest) :
    readNumber start neg (writeMagnitude .number m ++ rest) = .ok (.float x, rest) := by
  obtain ⟨hm, hassemble⟩ := finite_of_shape hx
  obtain ⟨p, htext, hrounds⟩ := writeMagnitude_parts hm neg
  rw [← htext, readNumber_text start neg p hrest, hrounds, ← hassemble]

theorem exists_writeMagnitude {m : Magnitude} (hm : m.IsDouble) :
    ∃ c cs, writeMagnitude .number m = c :: cs ∧ c.isDigit = true := by
  obtain ⟨p, htext, -⟩ := writeMagnitude_parts hm false
  rw [← htext]
  exact p.exists_text

end Json

end TabletopChat
