import TabletopChat.Json.Parser
import TabletopChat.Json.Printer
import TabletopChat.Proofs.Text.Numeral
import Mathlib.Tactic.SplitIfs

/-!
# Proofs/Json/Strings — strings are read as they were written

Every character is written as itself, as an escape of one letter, or as one or two escapes of four
digits. A reader finds the codes of the character again, whatever follows it, and the codes give the
character.

- `codes`            : the codes of a character, one or the two halves of a pair
- `readString_flatMap` : a string between its quotes
-/

namespace TabletopChat

namespace Json

/-! ## Four hexadecimal digits -/

theorem hex_one {n : Nat} (hn : n < 16) : Text.hex 1 n = [Nat.digitChar n] := by
  rw [Text.hex, Nat.toDigits_of_lt_base hn]
  rfl

/-- The last digit of a padded numeral. -/
theorem hex_succ {w : Nat} (hw : 0 < w) (n : Nat) :
    Text.hex (w + 1) n = Text.hex w (n / 16) ++ [Nat.digitChar (n % 16)] := by
  unfold Text.hex Text.padLeft
  rcases Nat.lt_or_ge n 16 with hn | hn
  · rw [Nat.toDigits_of_lt_base hn, Nat.div_eq_of_lt hn, Nat.mod_eq_of_lt hn,
      Nat.toDigits_of_lt_base (by decide : 0 < 16)]
    obtain ⟨w, rfl⟩ : ∃ k, w = k + 1 := ⟨w - 1, by omega⟩
    simp [List.replicate_succ']
  · have hdigits : Nat.toDigits 16 n = Nat.toDigits 16 (n / 16) ++ [Nat.digitChar (n % 16)] := by
      rw [Nat.toDigits_eq_if (by decide), if_neg (Nat.not_lt.mpr hn)]
    rw [hdigits, List.length_append, List.length_singleton, Nat.add_sub_add_right, List.append_assoc]

/-- Four hexadecimal digits are read back. -/
theorem hex_four {n : Nat} (hn : n < 0x10000) :
    ∃ a b c d, Text.hex 4 n = [a, b, c, d] ∧ hexQuad? a b c d = some n := by
  refine ⟨Nat.digitChar (n / 16 / 16 / 16), Nat.digitChar (n / 16 / 16 % 16),
    Nat.digitChar (n / 16 % 16), Nat.digitChar (n % 16), ?_, ?_⟩
  · rw [hex_succ (by decide), hex_succ (by decide), hex_succ (by decide), hex_one (by omega)]
    rfl
  · have hd {k : Nat} (hk : k < 16) := Text.hexDigit?_digitChar k hk
    simp only [hexQuad?, hd (by omega : n / 16 / 16 / 16 < 16), hd (Nat.mod_lt _ (by decide))]
    simp
    omega

/-! ## One character -/

def codes (c : Char) : List Nat :=
  if c.toNat < 0x10000 then [c.toNat]
  else [0xD800 + (c.toNat - 0x10000) / 1024, 0xDC00 + (c.toNat - 0x10000) % 1024]

def before (ns : List Nat) (r : Except Fault (List Nat × Text)) : Except Fault (List Nat × Text) :=
  r.map fun (ms, rest) => (ns ++ ms, rest)

theorem unitEscape_append_ne_nil (n : Nat) (u : Text) : unitEscape n ++ u ≠ [] := by
  simp [unitEscape]

/-- No character is half of a pair. -/
theorem toNat_valid (c : Char) : c.toNat < 0xD800 ∨ (0xDFFF < c.toNat ∧ c.toNat < 0x110000) := c.valid

theorem stringCodes_unitEscape (start : Text) {n : Nat} (hn : n < 0x10000) {u : Text} (hu : u ≠ []) :
    stringCodes start (unitEscape n ++ u) = before [n] (stringCodes start u) := by
  obtain ⟨a, b, c, d, hhex, hquad⟩ := hex_four hn
  simp [unitEscape, hhex, stringCodes, hquad, hu, before]

theorem stringCodes_plain (start : Text) {c : Char} (hquote : c ≠ '"') (hslash : c ≠ '\\')
    (hc : 32 ≤ c.toNat) (u : Text) :
    stringCodes start (c :: u) = before [c.toNat] (stringCodes start u) := by
  simp [stringCodes, hslash, Nat.not_lt.mpr hc, before]

/-- An escape is read as the code it stands for. -/
theorem stringCodes_escape (start : Text) {e : Char} {n : Nat} (he : escapeCode? e = some n) (u : Text) :
    stringCodes start ('\\' :: e :: u) = before [n] (stringCodes start u) := by
  have hu : e ≠ 'u' := by
    rintro rfl
    cases he
  rw [stringCodes]
  · simp only [he]
    rfl
  · intro a b c d cs heq
    exact absurd heq hu

theorem before_before (ms ns : List Nat) (r : Except Fault (List Nat × Text)) :
    before ms (before ns r) = before (ms ++ ns) r := by
  cases r <;> simp [before, Except.map]

/-- A written character is read back as its codes. -/
theorem stringCodes_renderChar (start : Text) (c : Char) {u : Text} (hu : u ≠ []) :
    stringCodes start (renderChar c ++ u) = before (codes c) (stringCodes start u) := by
  have hescape (n : Nat) (e : Char) (hn : n < 0x10000) (hc : c.toNat = n)
      (he : escapeCode? e = some n) :
      stringCodes start (['\\', e] ++ u) = before (codes c) (stringCodes start u) := by
    rw [codes, if_pos (by omega), hc]
    exact stringCodes_escape start he u
  unfold renderChar
  split_ifs with hquote hslash hfeed hreturn htab hform hback hplain hbasic
  · exact hescape 34 '"' (by decide) (by rw [hquote]; rfl) rfl
  · exact hescape 92 '\\' (by decide) (by rw [hslash]; rfl) rfl
  · exact hescape 10 'n' (by decide) (by rw [hfeed]; rfl) rfl
  · exact hescape 13 'r' (by decide) (by rw [hreturn]; rfl) rfl
  · exact hescape 9 't' (by decide) (by rw [htab]; rfl) rfl
  · exact hescape 12 'f' (by decide) hform rfl
  · exact hescape 8 'b' (by decide) hback rfl
  · rw [codes, if_pos (by omega)]
    exact stringCodes_plain start hquote hslash hplain.1 u
  · rw [codes, if_pos hbasic]
    exact stringCodes_unitEscape start hbasic hu
  · -- two halves, each with an escape of its own
    have hvalid := toNat_valid c
    rw [codes, if_neg hbasic, List.append_assoc,
      stringCodes_unitEscape start (by omega) (unitEscape_append_ne_nil _ u),
      stringCodes_unitEscape start (by omega) hu, before_before, List.singleton_append]

/-- A written text is read back up to its quotation mark. -/
theorem stringCodes_flatMap (start t rest : Text) :
    stringCodes start (t.flatMap renderChar ++ '"' :: rest) = .ok (t.flatMap codes, rest) := by
  induction t with
  | nil => rfl
  | cons c t ih =>
    have hne : t.flatMap renderChar ++ '"' :: rest ≠ [] := by simp
    rw [List.flatMap_cons, List.append_assoc, stringCodes_renderChar start c hne, ih]
    rfl

/-! ## Characters from codes -/

theorem charsOfCodes_single {n : Nat} (hhigh : isHighSurrogate n = false)
    (hlow : isLowSurrogate n = false) (ns : List Nat) :
    charsOfCodes (n :: ns) = Char.ofNat n :: charsOfCodes ns := by
  match ns with
  | [] => simp [charsOfCodes, hhigh, hlow]
  | m :: ms => simp [charsOfCodes, hhigh, hlow]

theorem charsOfCodes_pair {h l : Nat} (hhigh : isHighSurrogate h = true) (hlow : isLowSurrogate l = true)
    (ns : List Nat) :
    charsOfCodes (h :: l :: ns) =
      Char.ofNat (0x10000 + (h - 0xD800) * 1024 + (l - 0xDC00)) :: charsOfCodes ns := by
  simp [charsOfCodes, hhigh, hlow]

/-- The codes of a character give the character. -/
theorem charsOfCodes_codes (c : Char) (ns : List Nat) :
    charsOfCodes (codes c ++ ns) = c :: charsOfCodes ns := by
  have hvalid := toNat_valid c
  unfold codes
  split_ifs with hbasic
  · -- no half of a pair is a character by itself
    rw [List.singleton_append, charsOfCodes_single, Char.ofNat_toNat]
    · simp only [isHighSurrogate, Bool.and_eq_false_iff, decide_eq_false_iff_not]
      omega
    · simp only [isLowSurrogate, Bool.and_eq_false_iff, decide_eq_false_iff_not]
      omega
  · have hsum : 0x10000 + (0xD800 + (c.toNat - 0x10000) / 1024 - 0xD800) * 1024 +
        (0xDC00 + (c.toNat - 0x10000) % 1024 - 0xDC00) = c.toNat := by omega
    rw [List.cons_append, List.singleton_append, charsOfCodes_pair, hsum, Char.ofNat_toNat]
    · simp only [isHighSurrogate, Bool.and_eq_true, decide_eq_true_eq]
      omega
    · simp only [isLowSurrogate, Bool.and_eq_true, decide_eq_true_eq]
      omega

/-- The string that was written is read. -/
theorem readString_flatMap (t rest : Text) :
    readString (t.flatMap renderChar ++ '"' :: rest) = .ok (t, rest) := by
  have hchars : charsOfCodes (t.flatMap codes) = t := by
    induction t with
    | nil => rfl
    | cons c t ih => rw [List.flatMap_cons, charsOfCodes_codes, ih]
  rw [readString, stringCodes_flatMap]
  exact congrArg (fun u => Except.ok (u, rest)) hchars

end Json

end TabletopChat
