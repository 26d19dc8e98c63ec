import Mathlib.Algebra.Ring.Nat
import TabletopChat.Arithmetic.Token
import TabletopChat.Dice.Notation.Parser
import TabletopChat.Text.Digit

/-!
# Proofs/Text/Numeral — decimal numerals are read as the numbers they write

A numeral is a list of digits without zeros in front. All readers of digits find the number again,
whatever follows the numeral, as long as it is no digit. The same is true of hexadecimal numerals.
-/

namespace TabletopChat

namespace Text

/-! ## The digits of a numeral -/

theorem isDigit_of_mem_ofNat {n : Nat} {c : Char} (h : c ∈ ofNat n) : c.isDigit = true :=
  Nat.isDigit_of_mem_toDigits (by decide) (by decide) h

/-- The digits lie between the blanks below 33 and those from 133 on. -/
theorem isBlank_of_isDigit {c : Char} (h : c.isDigit = true) : isBlank c = false := by
  have hrange : 48 ≤ c.toNat ∧ c.toNat ≤ 57 := by
    simpa [Char.isDigit, ← Char.toNat_val, UInt32.le_iff_toNat_le] using h
  simp only [isBlank, Bool.or_eq_false_iff, Bool.and_eq_false_iff, decide_eq_false_iff_not,
    beq_eq_false_iff_ne]
  omega

theorem ofNat_ne_nil (n : Nat) : ofNat n ≠ [] := Nat.toDigits_ne_nil

/-- A numeral as its first digit and the others. -/
theorem exists_ofNat (n : Nat) : ∃ c cs, ofNat n = c :: cs ∧ c.isDigit = true := by
  rcases h : ofNat n with - | ⟨c, cs⟩
  · exact absurd h (ofNat_ne_nil n)
  · exact ⟨c, cs, rfl, isDigit_of_mem_ofNat (h ▸ List.mem_cons_self)⟩

theorem length_ofNat_le {n k : Nat} (hk : 0 < k) (h : n < 10 ^ k) : (ofNat n).length ≤ k :=
  (Nat.length_toDigits_le_iff (by decide) hk).mpr h

/-- Only zero is written with a zero in front. -/
theorem eq_zero_of_head_ofNat {n : Nat} {cs : Text} (h : ofNat n = '0' :: cs) : n = 0 := by
  induction n using Nat.strongRecOn generalizing cs with
  | _ n ih =>
    have hdigits : Nat.toDigits 10 n = '0' :: cs := h
    rw [Nat.toDigits_eq_if (by decide)] at hdigits
    split at hdigits
    · -- of the digits below ten, only that of zero is a zero
      rename_i hlt
      have hn : n.digitChar = '0' := by simpa using congrArg List.head? hdigits
      revert hn
      match n, hlt with
      | 0, _ => simp
      | 1, _ | 2, _ | 3, _ | 4, _ | 5, _ | 6, _ | 7, _ | 8, _ | 9, _ => decide
    · rename_i hge
      rcases hinit : Nat.toDigits 10 (n / 10) with - | ⟨d, ds⟩
      · exact absurd hinit Nat.toDigits_ne_nil
      · rw [hinit] at hdigits
        have hd : d = '0' := by simpa using congrArg List.head? hdigits
        have := ih (n / 10) (by omega) (hd ▸ hinit)
        omega

/-! ## Where a numeral ends -/

/-- What begins with no character in `p`. -/
def NotBefore (p : Char → Bool) (t : Text) : Prop := ∀ c ∈ t.head?, p c = false

theorem NotBefore.takeWhile {p : Char → Bool} {t : Text} (h : NotBefore p t) :
    t.takeWhile p = [] := by
  match t with
  | [] => rfl
  | c :: cs => simp [h c rfl]

theorem NotBefore.dropWhile {p : Char → Bool} {t : Text} (h : NotBefore p t) :
    t.dropWhile p = t := by
  match t with
  | [] => rfl
  | c :: cs => simp [h c rfl]

/-- Nothing is trimmed from a text that neither begins nor ends with a character in `p`. -/
theorem stripBy_eq_self {p : Char → Bool} {t : Text} (hfirst : NotBefore p t)
    (hlast : NotBefore p t.reverse) : stripBy p t = t := by
  rw [stripBy, hfirst.dropWhile, hlast.dropWhile, List.reverse_reverse]

theorem notBefore_dropWhile (p : Char → Bool) (t : Text) : NotBefore p (t.dropWhile p) := by
  intro c hc
  have hhead := List.head?_dropWhile_not p t
  rw [Option.mem_def.mp hc] at hhead
  exact hhead

/-- Trimming twice trims no more than trimming once. -/
theorem strip_strip (t : Text) : strip (strip t) = strip t := by
  have hsplit : t.dropWhile isBlank =
      strip t ++ ((t.dropWhile isBlank).reverse.takeWhile isBlank).reverse := by
    rw [strip, stripBy, ← List.reverse_append, List.takeWhile_append_dropWhile, List.reverse_reverse]
  have hfirst : NotBefore isBlank (strip t) := by
    intro c hc
    apply notBefore_dropWhile isBlank t c
    rw [hsplit, List.head?_append, Option.mem_def.mp hc]
    rfl
  have hlast : NotBefore isBlank (strip t).reverse := by
    rw [strip, stripBy, List.reverse_reverse]
    exact notBefore_dropWhile isBlank _
  exact stripBy_eq_self hfirst hlast

theorem NotBefore.mono {p q : Char → Bool} {t : Text} (h : NotBefore q t)
    (hpq : ∀ c, q c = false → p c = false) : NotBefore p t :=
  fun c hc => hpq c (h c hc)

section Reading

variable {p : Char → Bool} (hp : ∀ c : Char, c.isDigit = true → p c = true)

include hp in
theorem takeWhile_ofNat (n : Nat) {t : Text} (ht : NotBefore p t) :
    (ofNat n ++ t).takeWhile p = ofNat n := by
  have hall : ∀ c ∈ ofNat n, p c = true := fun c hc => hp c (isDigit_of_mem_ofNat hc)
  rw [List.takeWhile_append_of_pos hall, ht.takeWhile, List.append_nil]

include hp in
theorem dropWhile_ofNat (n : Nat) {t : Text} (ht : NotBefore p t) :
    (ofNat n ++ t).dropWhile p = t := by
  have hall : ∀ c ∈ ofNat n, p c = true := fun c hc => hp c (isDigit_of_mem_ofNat hc)
  rw [List.dropWhile_append_of_pos hall, ht.dropWhile]

end Reading

/-- Nothing is trimmed from a numeral. -/
theorem stripBy_ofNat {p : Char → Bool} (hp : ∀ c : Char, c.isDigit = true → p c = false) (n : Nat) :
    stripBy p (ofNat n) = ofNat n := by
  have hmem {t : Text} (ht : ∀ c ∈ t, c ∈ ofNat n) : NotBefore p t := fun c hc =>
    hp c (isDigit_of_mem_ofNat (ht c (List.mem_of_head? hc)))
  exact stripBy_eq_self (hmem fun c => id) (hmem fun c => List.mem_reverse.mp)

/-! ## What a numeral is worth -/

theorem digit?_of_isDigit {c : Char} (h : c.isDigit = true) : digit? c = some (c.toNat - 48) := by
  have hsmall : c.toNat < 128 := by
    simp only [Char.isDigit, Bool.and_eq_true, decide_eq_true_eq, UInt32.le_iff_toNat_le] at h
    exact Nat.lt_of_le_of_lt h.2 (by decide)
  simp [digit?, hsmall, h]

theorem isDigit_of_isDigit {c : Char} (h : c.isDigit = true) : isDigit c = true := by
  simp [isDigit, digit?_of_isDigit h]

/-- A reader that counts like the decimal system finds the number of a numeral. -/
theorem foldl_ofNat (n : Nat) {f : Nat → Char → Nat}
    (hf : ∀ m (c : Char), c.isDigit = true → f m c = 10 * m + (c.toNat - 48)) :
    (ofNat n).foldl f 0 = n := by
  have hvalue : (ofNat n).foldl (fun m c => 10 * m + (c.toNat - 48)) 0 = n :=
    Nat.ofDigitChars_toDigits (by decide) (by decide)
  refine Eq.trans ?_ hvalue
  have hdigits : ∀ c ∈ ofNat n, c.isDigit = true := fun c => isDigit_of_mem_ofNat
  generalize ofNat n = ds at hdigits
  generalize 0 = m
  induction ds generalizing m with
  | nil => rfl
  | cons c cs ih =>
    rw [List.foldl_cons, List.foldl_cons, hf m c (hdigits c (.head _))]
    exact ih (fun d hd => hdigits d (.tail _ hd)) _

@[simp] theorem digitsValue_ofNat (n : Nat) : digitsValue (ofNat n) = n := by
  apply foldl_ofNat
  intro m c hc
  simp [digit?_of_isDigit hc]

/-- A digit is worth less than ten. -/
theorem digit?_lt {c : Char} {n : Nat} (h : digit? c = some n) : n < 10 := by
  unfold digit? at h
  dsimp only at h
  split at h
  · split at h
    · rename_i hdigit
      cases h
      have hrange : 48 ≤ c.toNat ∧ c.toNat ≤ 57 := by
        simpa [Char.isDigit, ← Char.toNat_val, UInt32.le_iff_toNat_le] using hdigit
      omega
    · cases h
  · obtain ⟨z, hz, rfl⟩ := Option.map_eq_some_iff.1 h
    have hrange := List.find?_some hz
    simp only [Bool.and_eq_true, decide_eq_true_eq] at hrange
    omega

/-- A reader that makes a number longer by one digit at a time. -/
theorem foldl_lt {f : Nat → Char → Nat} (hf : ∀ n c k, n < 10 ^ k → f n c < 10 ^ (k + 1)) (ds : Text) {n k : Nat}
    (h : n < 10 ^ k) : ds.foldl f n < 10 ^ (k + ds.length) := by
  induction ds generalizing n k with
  | nil => exact h
  | cons c cs ih =>
      rw [List.foldl_cons, List.length_cons, Nat.add_comm cs.length 1, ← Nat.add_assoc]
      exact ih (hf n c k h)

/-- A numeral is worth less than a power of ten with as many zeros as it has digits. -/
theorem digitsValue_lt (ds : Text) : digitsValue ds < 10 ^ ds.length := by
  rw [← Nat.zero_add ds.length]
  refine foldl_lt (fun n c k h => ?_) ds Nat.one_pos
  rw [Nat.pow_succ]
  split
  · rename_i d hd
    have hlt := digit?_lt hd
    omega
  · omega

/-! ## Hexadecimal numerals -/

theorem hexDigit?_digitChar : ∀ d < 16, hexDigit? (Nat.digitChar d) = some d := by decide

theorem hexDigit?_toUpper : ∀ d < 16, hexDigit? (Nat.digitChar d).toUpper = some d := by decide

/-- The digits at the end of a numeral are read from the number in front of them. -/
theorem hexValue?_append (n : Nat) (s t : Text) :
    hexValue? n (s ++ t) = (hexValue? n s).bind fun m => hexValue? m t := by
  induction s generalizing n with
  | nil => rfl
  | cons c cs ih =>
      rw [List.cons_append, hexValue?, hexValue?, Option.bind_assoc]
      exact Option.bind_congr fun d _ => ih _

/-- A numeral with capital letters is worth its number. -/
theorem hexValue?_toUpper (n : Nat) : hexValue? 0 ((Nat.toDigits 16 n).map Char.toUpper) = some n := by
  induction n using Nat.strongRecOn with
  | _ n ih =>
      rw [Nat.toDigits_eq_if (by decide)]
      split
      · rename_i hlt
        simp [hexValue?, hexDigit?_toUpper n hlt]
      · rename_i hge
        have hlast := hexDigit?_toUpper (n % 16) (Nat.mod_lt n (by decide))
        rw [List.map_append, hexValue?_append, ih (n / 16) (by omega)]
        simp only [List.map_cons, List.map_nil, Option.bind_some, hexValue?, hlast, Option.some.injEq]
        omega

end Text

open Text

@[simp] theorem Notation.numeral_ofNat (n : Nat) : Notation.numeral (ofNat n) = n :=
  foldl_ofNat n fun _ _ _ => rfl

@[simp] theorem Arithmetic.digitsIn_ofNat (n : Nat) : Arithmetic.digitsIn 10 (ofNat n) = n := by
  apply foldl_ofNat
  intro m c hc
  simp [hexDigit?, hc]

end TabletopChat
