import TabletopChat.Proofs.Entries
import TabletopChat.Proofs.Json.Numbers
import TabletopChat.Proofs.Json.Strings

/-!
# Proofs/Json/Grammar — what is written for a value, and that it is read

One relation covers both printers: the gaps between the parts of a value may be of any width. The
reader finds the value again, whatever follows, as long as it does not continue a number.

- `Writes`            : a text is one for a value
- `readsUpTo`         : it is read as that value
- `parse_writes`      : so a whole text is
- `Writes.noReturn`   : no carriage return is in it
-/

namespace TabletopChat

namespace Json

open Text (NotBefore)

/-! ## The grammar -/

def Gap (b : Text) : Prop := ∀ c ∈ b, c = ' ' ∨ c = '\n'

mutual

inductive Writes : Json → Text → Prop
  | null : Writes .null "null".toList
  | bool (b : Bool) : Writes (.bool b) (if b then "true" else "false").toList
  | int (n : Int) : (Text.ofNat n.natAbs).length ≤ Text.maxNumeral → Writes (.int n) (Text.ofInt n)
  | float (x : Float) : Writes (.float x) (renderFloat x)
  | text (t : Text) : Writes (.text t) (renderText t)
  | nil : Writes (.list []) ['[', ']']
  | list {vs b t} : Gap b → WritesItems vs t → Writes (.list vs) ('[' :: (b ++ t))
  | empty : Writes (.object []) ['{', '}']
  | object {ms b t} : (Entries.keys ms).Nodup → Gap b → WritesMembers ms t →
      Writes (.object ms) ('{' :: (b ++ t))

inductive WritesItems : List Json → Text → Prop
  | last {v t b} : Writes v t → Gap b → WritesItems [v] (t ++ (b ++ [']']))
  | cons {v vs t b u} : Writes v t → Gap b → WritesItems vs u →
      WritesItems (v :: vs) (t ++ (',' :: (b ++ u)))

inductive WritesMembers : List (Text × Json) → Text → Prop
  | last {k v t b} : Writes v t → Gap b →
      WritesMembers [(k, v)] (renderText k ++ (':' :: ' ' :: (t ++ (b ++ ['}']))))
  | cons {k v ms t b u} : Writes v t → Gap b → WritesMembers ms u →
      WritesMembers ((k, v) :: ms) (renderText k ++ (':' :: ' ' :: (t ++ (',' :: (b ++ u)))))

end

/-! ## Gaps -/

theorem skipBlanks_gap {b t : Text} (hb : Gap b) (ht : NotBefore isBlank t) :
    skipBlanks (b ++ t) = t := by
  have hall : ∀ c ∈ b, isBlank c = true := by
    intro c hc
    rcases hb c hc with rfl | rfl <;> rfl
  rw [skipBlanks, List.dropWhile_append_of_pos hall, ht.dropWhile]

/-- A numeral does not go on behind a gap. -/
theorem notBefore_gap {b t : Text} (hb : Gap b) (ht : NotBefore isNumeralPart t) :
    NotBefore isNumeralPart (b ++ t) := by
  match b with
  | [] => exact ht
  | c :: b =>
    rintro d ⟨⟩
    rcases hb c (.head _) with rfl | rfl <;> rfl

/-! ## Scalars -/

theorem ne_of_isDigit {c d : Char} (hc : c.isDigit = true) (hd : d.isDigit = false) : c ≠ d := by
  rintro rfl
  rw [hc] at hd
  contradiction

/-- No word begins with a digit. -/
theorem readWord?_digit {c : Char} (hc : c.isDigit = true) (cs : Text) : readWord? (c :: cs) = none := by
  have hn := ne_of_isDigit hc (d := 'n') rfl
  have ht := ne_of_isDigit hc (d := 't') rfl
  have hf := ne_of_isDigit hc (d := 'f') rfl
  have hN := ne_of_isDigit hc (d := 'N') rfl
  have hI := ne_of_isDigit hc (d := 'I') rfl
  have hm := ne_of_isDigit hc (d := '-') rfl
  simp [readWord?, Text.afterWord?, Text.startsWith, hn.symm, ht.symm, hf.symm, hN.symm, hI.symm, hm.symm]

theorem readWord?_minus {c : Char} (hc : c.isDigit = true) (cs : Text) :
    readWord? ('-' :: c :: cs) = none := by
  have hI := ne_of_isDigit hc (d := 'I') rfl
  simp [readWord?, Text.afterWord?, Text.startsWith, hI.symm]

def signText (neg : Bool) : Text := if neg then ['-'] else []

/-- A number behind its sign is read as a value. -/
theorem readValue_number (fuel : Nat) {neg : Bool} {t rest : Text} {v : Json}
    (ht : ∃ c cs, t = c :: cs ∧ c.isDigit = true)
    (h : ∀ start, readNumber start neg (t ++ rest) = .ok (v, rest)) :
    readValue (fuel + 1) (signText neg ++ t ++ rest) = .ok (v, rest) := by
  obtain ⟨c, cs, rfl, hc⟩ := ht
  cases neg with
  | false =>
    have hquote := ne_of_isDigit hc (d := '"') rfl
    have hlist := ne_of_isDigit hc (d := '[') rfl
    have hobject := ne_of_isDigit hc (d := '{') rfl
    have hminus := ne_of_isDigit hc (d := '-') rfl
    simp only [signText, Bool.false_eq_true, if_false, List.nil_append, List.cons_append] at h ⊢
    simp [readValue, hquote, hlist, hobject, hminus, readWord?_digit hc, h]
  | true =>
    simp only [signText, if_true, List.cons_append, List.nil_append] at h ⊢
    simp [readValue, readWord?_minus hc, h]

theorem readValue_word (fuel : Nat) {c : Char} {cs rest : Text} {v : Json} (hquote : c ≠ '"')
    (hlist : c ≠ '[') (hobject : c ≠ '{') (h : readWord? (c :: cs) = some (v, rest)) :
    readValue (fuel + 1) (c :: cs) = .ok (v, rest) := by
  simp [readValue, hquote, hlist, hobject, h]

theorem readValue_null (fuel : Nat) (rest : Text) :
    readValue (fuel + 1) ("null".toList ++ rest) = .ok (.null, rest) :=
  readValue_word fuel (by decide) (by decide) (by decide) rfl

theorem readValue_bool (fuel : Nat) (b : Bool) (rest : Text) :
    readValue (fuel + 1) ((if b then "true" else "false").toList ++ rest) = .ok (.bool b, rest) := by
  cases b with
  | false => exact readValue_word fuel (by decide) (by decide) (by decide) rfl
  | true => exact readValue_word fuel (by decide) (by decide) (by decide) rfl

theorem ofInt_eq (n : Int) : Text.ofInt n = signText (decide (n < 0)) ++ Text.ofNat n.natAbs := by
  cases n with
  | ofNat n => simp [Text.ofInt, signText]
  | negSucc n => simp [Text.ofInt, signText, Int.negSucc_lt_zero]

/-- A written integer is read back. -/
theorem readValue_int (fuel : Nat) {n : Int} (hn : (Text.ofNat n.natAbs).length ≤ Text.maxNumeral)
    {rest : Text} (hrest : NotBefore isNumeralPart rest) :
    readValue (fuel + 1) (Text.ofInt n ++ rest) = .ok (.int n, rest) := by
  have hsigned : Decimal.signed (decide (n < 0)) n.natAbs = n := by
    unfold Decimal.signed
    split_ifs with h <;> simp at h <;> omega
  rw [ofInt_eq]
  apply readValue_number fuel (Text.exists_ofNat _)
  intro start
  rw [readNumber_ofNat start _ hn hrest, hsigned]

theorem renderFloat_finite {x : Float} {neg : Bool} {m : Decimal.Magnitude}
    (hx : Decimal.shape x = .finite neg m) :
    renderFloat x = signText neg ++ Decimal.writeMagnitude .number m := by
  rw [renderFloat, hx]
  simp only [Decimal.write, hx]
  rfl

/-- The double that was written is read, the three values that are no numbers as well. -/
theorem readValue_float (fuel : Nat) (x : Float) {rest : Text} (hrest : NotBefore isNumeralPart rest) :
    readValue (fuel + 1) (renderFloat x ++ rest) = .ok (.float x, rest) := by
  cases hx : Decimal.shape x with
  | nan =>
    rw [renderFloat, hx, Decimal.eq_undefinedValue hx]
    exact readValue_word fuel (by decide) (by decide) (by decide) rfl
  | infinite neg =>
    rw [renderFloat, hx, Decimal.eq_infinity hx]
    cases neg with
    | false => exact readValue_word fuel (by decide) (by decide) (by decide) rfl
    | true => exact readValue_word fuel (by decide) (by decide) (by decide) rfl
  | finite neg m =>
    rw [renderFloat_finite hx]
    exact readValue_number fuel (exists_writeMagnitude (Decimal.finite_of_shape hx).1)
      fun start => readNumber_writeMagnitude hx start hrest

theorem renderText_append (t rest : Text) :
    renderText t ++ rest = '"' :: (t.flatMap renderChar ++ '"' :: rest) := by
  simp [renderText]

theorem readValue_text (fuel : Nat) (t rest : Text) :
    readValue (fuel + 1) (renderText t ++ rest) = .ok (.text t, rest) := by
  rw [renderText_append]
  simp only [readValue, readString_flatMap]
  rfl

/-! ## How values begin -/

def beginsValue (c : Char) : Bool := !isBlank c && c != ']' && c != '\uFEFF'

/-- A number with a sign begins like a value. -/
theorem beginsValue_signText (neg : Bool) {t : Text} (h : ∃ c cs, t = c :: cs ∧ c.isDigit = true) :
    ∃ c cs, signText neg ++ t = c :: cs ∧ beginsValue c = true := by
  obtain ⟨c, cs, rfl, hc⟩ := h
  cases neg with
  | true => exact ⟨_, _, rfl, rfl⟩
  | false =>
    have hblank : isBlank c = false := by
      simp [isBlank, ne_of_isDigit hc (d := ' ') rfl, ne_of_isDigit hc (d := '\t') rfl,
        ne_of_isDigit hc (d := '\n') rfl, ne_of_isDigit hc (d := '\r') rfl]
    have hclose := ne_of_isDigit hc (d := ']') rfl
    have hmark := ne_of_isDigit hc (d := '\uFEFF') rfl
    exact ⟨c, cs, rfl, by simp [beginsValue, hblank, hclose, hmark]⟩

/-- A written value begins with a character that begins a value. -/
theorem Writes.exists_cons {v : Json} {t : Text} (h : Writes v t) :
    ∃ c cs, t = c :: cs ∧ beginsValue c = true := by
  cases h with
  | null => exact ⟨_, _, rfl, rfl⟩
  | bool b => cases b <;> exact ⟨_, _, rfl, rfl⟩
  | int n _ =>
    rw [ofInt_eq]
    exact beginsValue_signText _ (Text.exists_ofNat _)
  | float x =>
    cases hx : Decimal.shape x with
    | nan =>
      rw [renderFloat, hx]
      exact ⟨_, _, rfl, rfl⟩
    | infinite neg =>
      rw [renderFloat, hx]
      cases neg <;> exact ⟨_, _, rfl, rfl⟩
    | finite neg m =>
      rw [renderFloat_finite hx]
      exact beginsValue_signText neg (exists_writeMagnitude (Decimal.finite_of_shape hx).1)
  | text t => exact ⟨_, _, rfl, rfl⟩
  | nil => exact ⟨_, _, rfl, rfl⟩
  | list _ _ => exact ⟨_, _, rfl, rfl⟩
  | empty => exact ⟨_, _, rfl, rfl⟩
  | object _ _ _ => exact ⟨_, _, rfl, rfl⟩

theorem notBefore_of_beginsValue {c : Char} (hc : beginsValue c = true) (t : Text) :
    NotBefore isBlank (c :: t) := by
  rintro d ⟨⟩
  simp only [beginsValue, Bool.and_eq_true, Bool.not_eq_true'] at hc
  exact hc.1.1

theorem Writes.notBefore {v : Json} {t : Text} (h : Writes v t) (u : Text) :
    NotBefore isBlank (t ++ u) := by
  obtain ⟨c, cs, rfl, hc⟩ := h.exists_cons
  exact notBefore_of_beginsValue hc _

/-- Written items are not empty, and begin like a value. -/
theorem WritesItems.exists_cons {vs : List Json} {t : Text} (h : WritesItems vs t) :
    ∃ c cs, t = c :: cs ∧ beginsValue c = true := by
  cases h with
  | last h _ =>
    obtain ⟨c, cs, rfl, hc⟩ := h.exists_cons
    exact ⟨_, _, rfl, hc⟩
  | cons h _ _ =>
    obtain ⟨c, cs, rfl, hc⟩ := h.exists_cons
    exact ⟨_, _, rfl, hc⟩

theorem WritesMembers.exists_cons {ms : List (Text × Json)} {t : Text} (h : WritesMembers ms t) :
    ∃ cs, t = '"' :: cs := by
  cases h with
  | last _ _ => exact ⟨_, rfl⟩
  | cons _ _ _ => exact ⟨_, rfl⟩

/-! ## Whole values -/

theorem ok_bind {ε α β : Type} (x : α) (f : α → Except ε β) : (Except.ok x >>= f) = f x := rfl

theorem skipBlanks_comma (t : Text) : skipBlanks (',' :: t) = ',' :: t := rfl

theorem skipBlanks_colon (t : Text) : skipBlanks (':' :: t) = ':' :: t := rfl

/-- All texts up to a length are read as the values they are written for. -/
structure ReadsUpTo (n : Nat) : Prop where
  value {v t} : Writes v t → t.length ≤ n → ∀ {rest}, NotBefore isNumeralPart rest →
    readValue n (t ++ rest) = .ok (v, rest)
  items {vs t} : WritesItems vs t → t.length ≤ n → ∀ rest, readItems n (t ++ rest) = .ok (vs, rest)
  members {ms t} : WritesMembers ms t → t.length ≤ n →
    ∀ rest, readMembers n (t ++ rest) = .ok (ms, rest)

/-- No value is written as the empty text. -/
theorem readsUpTo_zero : ReadsUpTo 0 where
  value h hlen := by
    obtain ⟨c, cs, rfl, -⟩ := h.exists_cons
    simp at hlen
  items h hlen := by
    obtain ⟨c, cs, rfl, -⟩ := h.exists_cons
    simp at hlen
  members h hlen := by
    obtain ⟨cs, rfl⟩ := h.exists_cons
    simp at hlen

namespace ReadsUpTo

variable {n : Nat} (ih : ReadsUpTo n)

include ih

/-- With one more round, a written value is read back if what is inside of it is. -/
theorem value_succ {v : Json} {t : Text} (h : Writes v t) (hlen : t.length ≤ n + 1) {rest : Text}
    (hrest : NotBefore isNumeralPart rest) : readValue (n + 1) (t ++ rest) = .ok (v, rest) := by
  cases h with
  | null => exact readValue_null n rest
  | bool b => exact readValue_bool n b rest
  | int k hk => exact readValue_int n hk hrest
  | float x => exact readValue_float n x hrest
  | text u => exact readValue_text n u rest
  | nil => rfl
  | empty => rfl
  | @list vs b u hb h =>
    -- the bracket has taken a character, so that the fuel that is left is enough for the items
    obtain ⟨c, cs, rfl, hc⟩ := h.exists_cons
    have hskip : skipBlanks (b ++ (c :: cs ++ rest)) = c :: cs ++ rest :=
      skipBlanks_gap hb (notBefore_of_beginsValue hc _)
    have hclose : c ≠ ']' := by
      rintro rfl
      cases hc
    have hread : readItems n (c :: cs ++ rest) = .ok (vs, rest) :=
      ih.items h (by simp at hlen ⊢; omega) rest
    rw [List.cons_append] at hskip hread
    simp [readValue, hskip, hclose, hread, ok_bind]
  | @object ms b u hkeys hb h =>
    obtain ⟨cs, rfl⟩ := h.exists_cons
    have hskip : skipBlanks (b ++ ('"' :: cs ++ rest)) = '"' :: cs ++ rest :=
      skipBlanks_gap hb (notBefore_of_beginsValue rfl _)
    have hread : readMembers n ('"' :: cs ++ rest) = .ok (ms, rest) :=
      ih.members h (by simp at hlen ⊢; omega) rest
    rw [List.cons_append] at hskip hread
    simp [readValue, hskip, hread, ok_bind, Entries.update_nil hkeys]

/-- The items of a list are read back. -/
theorem items_succ {vs : List Json} {t : Text} (h : WritesItems vs t) (hlen : t.length ≤ n + 1)
    (rest : Text) : readItems (n + 1) (t ++ rest) = .ok (vs, rest) := by
  cases h with
  | @last v t b h hb =>
    have hread : readValue n (t ++ (b ++ ']' :: rest)) = .ok (v, b ++ ']' :: rest) :=
      ih.value h (by simp at hlen; omega) (notBefore_gap hb (by rintro c ⟨⟩; rfl))
    have hskip : skipBlanks (b ++ ']' :: rest) = ']' :: rest :=
      skipBlanks_gap hb (by rintro c ⟨⟩; rfl)
    simp only [List.append_assoc, List.singleton_append, readItems, hread, ok_bind, hskip]
  | @cons v vs t b u h hb hs =>
    obtain ⟨c, cs, rfl, hc⟩ := hs.exists_cons
    have hread : readValue n (t ++ ',' :: (b ++ (c :: cs ++ rest))) =
        .ok (v, ',' :: (b ++ (c :: cs ++ rest))) :=
      ih.value h (by simp at hlen; omega) (by rintro c ⟨⟩; rfl)
    have hskip : skipBlanks (b ++ (c :: cs ++ rest)) = c :: cs ++ rest :=
      skipBlanks_gap hb (notBefore_of_beginsValue hc _)
    have hitems : readItems n (c :: cs ++ rest) = .ok (vs, rest) :=
      ih.items hs (by simp at hlen ⊢; omega) rest
    simp only [List.append_assoc, List.cons_append] at hread hskip hitems ⊢
    simp only [readItems, hread, ok_bind, skipBlanks_comma, hskip, hitems]

/-- The members of an object are read back. -/
theorem members_succ {ms : List (Text × Json)} {t : Text} (h : WritesMembers ms t)
    (hlen : t.length ≤ n + 1) (rest : Text) : readMembers (n + 1) (t ++ rest) = .ok (ms, rest) := by
  cases h with
  | @last k v t b h hb =>
    -- the value ends where the gap in front of the brace begins
    have hread : readValue n (t ++ (b ++ '}' :: rest)) = .ok (v, b ++ '}' :: rest) :=
      ih.value h (by simp at hlen; omega) (notBefore_gap hb (by rintro c ⟨⟩; rfl))
    have hvalue : skipBlanks (' ' :: (t ++ (b ++ '}' :: rest))) = t ++ (b ++ '}' :: rest) :=
      skipBlanks_gap (b := [' ']) (by simp [Gap]) (h.notBefore _)
    have hskip : skipBlanks (b ++ '}' :: rest) = '}' :: rest :=
      skipBlanks_gap hb (by rintro c ⟨⟩; rfl)
    simp only [List.append_assoc, List.cons_append, List.nil_append, renderText_append, readMembers,
      readString_flatMap, ok_bind, skipBlanks_colon, hvalue, hread, hskip]
  | @cons k v ms t b u h hb hs =>
    obtain ⟨cs, rfl⟩ := hs.exists_cons
    -- the value ends at the comma
    have hread : readValue n (t ++ ',' :: (b ++ ('"' :: cs ++ rest))) =
        .ok (v, ',' :: (b ++ ('"' :: cs ++ rest))) :=
      ih.value h (by simp at hlen; omega) (by rintro c ⟨⟩; rfl)
    have hvalue : skipBlanks (' ' :: (t ++ ',' :: (b ++ ('"' :: cs ++ rest)))) =
        t ++ ',' :: (b ++ ('"' :: cs ++ rest)) :=
      skipBlanks_gap (b := [' ']) (by simp [Gap]) (h.notBefore _)
    have hskip : skipBlanks (b ++ ('"' :: cs ++ rest)) = '"' :: cs ++ rest :=
      skipBlanks_gap hb (notBefore_of_beginsValue rfl _)
    have hmembers : readMembers n ('"' :: cs ++ rest) = .ok (ms, rest) :=
      ih.members hs (by simp at hlen ⊢; omega) rest
    simp only [List.cons_append] at hread hvalue hskip hmembers
    simp only [List.append_assoc, List.cons_append, renderText_append, readMembers,
      readString_flatMap, ok_bind, skipBlanks_colon, hvalue, hread, skipBlanks_comma, hskip, hmembers]

end ReadsUpTo

theorem readsUpTo (n : Nat) : ReadsUpTo n := by
  induction n with
  | zero => exact readsUpTo_zero
  | succ n ih => exact ⟨ih.value_succ, ih.items_succ, ih.members_succ⟩

/-- What is written for a value is read as that value. -/
theorem parse_writes {v : Json} {t : Text} (h : Writes v t) : parse t = .ok v := by
  have hread : readValue (t.length + 1) (t ++ []) = .ok (v, []) :=
    (readsUpTo _).value h (Nat.le_succ _) (by rintro c ⟨⟩)
  obtain ⟨c, cs, rfl, hc⟩ := h.exists_cons
  -- neither a mark nor a blank stands in front
  have hmark : (c :: cs).head? ≠ some '\uFEFF' := by
    rintro ⟨⟩
    cases hc
  have hskip : skipBlanks (c :: cs) = c :: cs := (notBefore_of_beginsValue hc cs).dropWhile
  rw [List.append_nil] at hread
  rw [parse, if_neg hmark, hskip, hread]
  rfl

/-! ## Line ends -/

def NoReturn (t : Text) : Prop := '\r' ∉ t

theorem NoReturn.append {t u : Text} (ht : NoReturn t) (hu : NoReturn u) : NoReturn (t ++ u) := by
  simp only [NoReturn, List.mem_append, not_or]
  exact ⟨ht, hu⟩

theorem NoReturn.cons {c : Char} {t : Text} (hc : '\r' ≠ c) (ht : NoReturn t) : NoReturn (c :: t) := by
  simp only [NoReturn, List.mem_cons, not_or]
  exact ⟨hc, ht⟩

theorem noReturn_nil : NoReturn [] := List.not_mem_nil

theorem Gap.noReturn {b : Text} (hb : Gap b) : NoReturn b := by
  intro h
  rcases hb _ h with h | h <;> cases h

theorem AllDigits.noReturn {t : Text} (ht : AllDigits t) : NoReturn t := by
  intro h
  cases ht _ h

/-- No carriage return is in an escape. -/
theorem noReturn_unitEscape {n : Nat} (hn : n < 0x10000) : NoReturn (unitEscape n) := by
  obtain ⟨a, b, c, d, hhex, hquad⟩ := hex_four hn
  have hnone : Text.hexDigit? '\r' = none := rfl
  -- what is no digit has no value
  have hne : '\r' ≠ a ∧ '\r' ≠ b ∧ '\r' ≠ c ∧ '\r' ≠ d := by
    refine ⟨?_, ?_, ?_, ?_⟩ <;> rintro rfl <;> simp [hexQuad?, hnone] at hquad
  rw [unitEscape, hhex]
  exact .cons (by decide) <| .cons (by decide) <| .cons hne.1 <| .cons hne.2.1 <|
    .cons hne.2.2.1 <| .cons hne.2.2.2 noReturn_nil

theorem noReturn_renderChar (c : Char) : NoReturn (renderChar c) := by
  have hvalid := toNat_valid c
  unfold renderChar
  split_ifs with hquote hslash hfeed hreturn htab hform hback hplain hbasic
  all_goals try exact .cons (by decide) (.cons (by decide) noReturn_nil)
  · exact .cons (Ne.symm hreturn) noReturn_nil
  · exact noReturn_unitEscape hbasic
  · exact (noReturn_unitEscape (by omega)).append (noReturn_unitEscape (by omega))

/-- No carriage return is in a written text. -/
theorem noReturn_renderText (t : Text) : NoReturn (renderText t) := by
  have h : NoReturn (t.flatMap renderChar) := by
    intro h
    obtain ⟨c, -, hc⟩ := List.mem_flatMap.mp h
    exact noReturn_renderChar c hc
  exact .append (.cons (by decide) h) (.cons (by decide) noReturn_nil)

theorem Parts.noReturn (p : Parts) : NoReturn p.text := by
  have hwhole : AllDigits p.whole := by
    rcases p.isWhole with h | ⟨h, -, -⟩
    · rw [h]
      exact allDigits_zeros 1
    · exact h
  have hfraction : NoReturn (fractionText p.fraction) := by
    have h := p.digits.noReturn
    match hf : p.fraction with
    | [] => exact noReturn_nil
    | d :: ds => exact .cons (by decide) (hf ▸ h)
  have hexponent : NoReturn (exponentText p.exponent) := by
    match p.exponent with
    | none => exact noReturn_nil
    | some k =>
      have hdigits : AllDigits (Text.padLeft 2 '0' (Text.ofNat k.natAbs)) :=
        (allDigits_zeros _).append (allDigits_ofNat _)
      refine .cons (by decide) (.cons ?_ hdigits.noReturn)
      split_ifs <;> decide
  exact hwhole.noReturn.append (hfraction.append hexponent)

theorem noReturn_signText (neg : Bool) : NoReturn (signText neg) := by
  cases neg <;> unfold NoReturn <;> decide

/-- No carriage return is in a written number. -/
theorem noReturn_renderFloat (x : Float) : NoReturn (renderFloat x) := by
  cases hx : Decimal.shape x with
  | nan =>
    rw [renderFloat, hx]
    exact (by decide : '\r' ∉ "NaN".toList)
  | infinite neg =>
    rw [renderFloat, hx]
    cases neg with
    | false => exact (by decide : '\r' ∉ "Infinity".toList)
    | true => exact (by decide : '\r' ∉ "-Infinity".toList)
  | finite neg m =>
    obtain ⟨p, htext, -⟩ := writeMagnitude_parts (Decimal.finite_of_shape hx).1 neg
    rw [renderFloat_finite hx, ← htext]
    exact (noReturn_signText neg).append p.noReturn

mutual

/-- A written value has no carriage return in it. -/
theorem Writes.noReturn {v : Json} {t : Text} (h : Writes v t) : NoReturn t := by
  cases h with
  | null =>
    unfold NoReturn
    decide
  | bool b =>
    unfold NoReturn
    cases b <;> decide
  | int n h =>
    rw [ofInt_eq]
    exact (noReturn_signText _).append (allDigits_ofNat _).noReturn
  | float x => exact noReturn_renderFloat x
  | text t => exact noReturn_renderText t
  | nil => exact .cons (by decide) (.cons (by decide) noReturn_nil)
  | empty => exact .cons (by decide) (.cons (by decide) noReturn_nil)
  | list hb h => exact .cons (by decide) (hb.noReturn.append h.noReturn)
  | object _ hb h => exact .cons (by decide) (hb.noReturn.append h.noReturn)

theorem WritesItems.noReturn {vs : List Json} {t : Text} (h : WritesItems vs t) : NoReturn t := by
  cases h with
  | last h hb => exact h.noReturn.append (hb.noReturn.append (.cons (by decide) noReturn_nil))
  | cons h hb hs => exact h.noReturn.append (.cons (by decide) (hb.noReturn.append hs.noReturn))

/-- No carriage return is in written members. -/
theorem WritesMembers.noReturn {ms : List (Text × Json)} {t : Text} (h : WritesMembers ms t) :
    NoReturn t := by
  cases h with
  | @last k _ _ _ h hb =>
    exact (noReturn_renderText k).append <| .cons (by decide) <| .cons (by decide) <|
      h.noReturn.append (hb.noReturn.append (.cons (by decide) noReturn_nil))
  | @cons k _ _ _ _ _ h hb hs =>
    exact (noReturn_renderText k).append <| .cons (by decide) <| .cons (by decide) <|
      h.noReturn.append (.cons (by decide) (hb.noReturn.append hs.noReturn))

end

end Json

end TabletopChat
