import Mathlib.Data.List.Chain
import TabletopChat.Dice.Shorthand
import TabletopChat.Proofs.Dice.Shorthand.Letters
import TabletopChat.Proofs.Dice.Plain.Rolling

/-!
# Proofs/Dice/Plain/Replacing — rolling a plain expression in place

The first group of dice in a text is looked for, rolled and replaced by its total, until none is left.
A total never joins its neighbours: no two terms stand next to each other, and digits alone are no
group. So the groups are found as they are written, and drawn from left to right.

- `Passed`             : a text in which no group of dice begins
- `rollGroups_pieces`  : rolling in place is rolling the pieces
- `roll_write`         : rolling the text of an expression
-/

namespace TabletopChat

open Act

namespace Plain

/-! ## Neighbours -/

def Piece.isLeaf {α : Type} : Piece α → Bool
  | .leaf _ => true
  | _ => false

def Apart {α : Type} (ps : List (Piece α)) : Prop :=
  ps.IsChain fun p q => p.isLeaf = true → q.isLeaf = false

mutual

theorem apart_operand {α : Type} : (x : Operand α) → Apart x.pieces
  | .leaf a => by simp [Operand.pieces, Apart]
  | .signed n x => (apart_operand x).cons (by simp [Piece.isLeaf])
  | .group e => by
    have hinner : Apart (e.pieces ++ [.closing]) := by
      refine List.IsChain.append (apart_pieces e) (by simp) ?_
      intro p _ q hq
      cases hq
      exact fun _ => rfl
    exact hinner.cons (by simp [Piece.isLeaf])

/-- Leaves of an expression do not touch. -/
theorem apart_pieces {α : Type} : (e : Expression α) → Apart e.pieces
  | .last x => apart_operand x
  | .more x op e => by
    refine List.IsChain.append (apart_operand x) ((apart_pieces e).cons (by simp [Piece.isLeaf])) ?_
    intro p _ q hq
    cases hq
    exact fun _ => rfl

end

/-! ## Looking for groups of dice -/

open Shorthand

def joins (c : Char) : Bool := Text.isDigit c || c.toLower == 'd' || c.toLower == 'r'

/-- The text of a piece that is no term has no character of a group of dice. -/
theorem not_joins_of_mem {α : Type} {f : α → Text} {p : Piece α} (hp : p.isLeaf = false) {c : Char}
    (hc : c ∈ p.text [] f) : joins c = false := by
  have hmarks : ['-', '+', '(', ')', '*', '/', '%'].any joins = false := by decide
  have hmark (hc : c ∈ ['-', '+', '(', ')', '*', '/', '%']) : joins c = false := by
    simpa using List.any_eq_false.mp hmarks c hc
  refine hmark ?_
  cases p with
  | leaf a => cases hp
  | sign n => cases n <;> simp [Piece.text] at hc <;> simp [hc]
  | opening => simp [Piece.text] at hc; simp [hc]
  | closing => simp [Piece.text] at hc; simp [hc]
  | operator op =>
    cases op <;> simp [Piece.text, Infix.operator, Arithmetic.Operator.sign] at hc <;> simp [hc]

theorem text_ne_nil {α : Type} {f : α → Text} {p : Piece α} (hp : p.isLeaf = false) :
    p.text [] f ≠ [] := by
  cases p with
  | leaf a => cases hp
  | operator op => cases op <;> simp [Piece.text, Infix.operator, Arithmetic.Operator.sign]
  | _ => simp [Piece.text]

theorem notBefore_text {α : Type} {f : α → Text} {p : Piece α} (hp : p.isLeaf = false) (t : Text) :
    Text.NotBefore joins (p.text [] f ++ t) := by
  intro c hc
  rcases htext : p.text [] f with - | ⟨d, ds⟩
  · exact absurd htext (text_ne_nil hp)
  · rw [htext] at hc
    cases hc
    exact not_joins_of_mem hp (f := f) (by simp [htext])

/-- What stands behind a term. -/
theorem notBefore_of_apart {α : Type} {f : α → Text} {p : Piece α} {ps : List (Piece α)}
    (h : Apart (p :: ps)) (hp : p.isLeaf = true) : Text.NotBefore joins (textOf [] f ps) := by
  match ps with
  | [] =>
    intro c hc
    cases hc
  | q :: qs =>
    have hq : q.isLeaf = false := (List.isChain_cons.mp h).1 q rfl hp
    exact notBefore_text hq _

theorem word?_of_notBefore {c : Char} (hc : c = 'd' ∨ c = 'r') (w : Text) {t : Text}
    (ht : Text.NotBefore joins t) : word? (c :: w) t = none := by
  rw [word?, if_neg]
  cases t with
  | nil => simp
  | cons e t =>
    have he := ht e rfl
    simp only [joins, Bool.or_eq_false_iff, beq_eq_false_iff_ne] at he
    simp only [List.length_cons, List.take_succ_cons, List.map_cons, List.cons.injEq, not_and]
    rintro rfl
    rcases hc with hd | hr
    · exact absurd hd he.1.2
    · exact absurd hr he.2

/-- No group of dice begins with digits that no `d` follows. -/
theorem pattern?_none {ds t : Text} (hds : ∀ c ∈ ds, Text.isDigit c = true)
    (ht : Text.NotBefore joins t) : pattern? (ds ++ t) = none := by
  have hdigit : Text.NotBefore Text.isDigit t := by
    intro c hc
    have := ht c hc
    simp only [joins, Bool.or_eq_false_iff] at this
    exact this.1.1
  have hrest : (ds ++ t).dropWhile Text.isDigit = t := by
    rw [List.dropWhile_append_of_pos hds, hdigit.dropWhile]
  simp only [pattern?, hrest, word?_of_notBefore (.inl rfl) [] ht, Option.bind_none]

/-- The digits of a number, as the characters that readers of groups look for. -/
theorem takeWhile_digits (n : Nat) {t : Text} (ht : Text.NotBefore Text.isDigit t) :
    (Text.ofNat n ++ t).takeWhile Text.isDigit = Text.ofNat n :=
  Text.takeWhile_ofNat (fun _ => Text.isDigit_of_isDigit) n ht

theorem dropWhile_digits (n : Nat) {t : Text} (ht : Text.NotBefore Text.isDigit t) :
    (Text.ofNat n ++ t).dropWhile Text.isDigit = t :=
  Text.dropWhile_ofNat (fun _ => Text.isDigit_of_isDigit) n ht

def patternOf (count : Option Nat) (faces : Nat) : Pattern :=
  ⟨(Term.dice count faces).text, (count.map Text.ofNat).getD [], Text.ofNat faces, none, none⟩

/-- Written dice are found as a group. -/
theorem pattern?_dice (count : Option Nat) (faces : Nat) {t : Text} (ht : Text.NotBefore joins t) :
    pattern? ((Term.dice count faces).text ++ t) = some (patternOf count faces, t) := by
  have hdigit : Text.NotBefore Text.isDigit t := by
    intro c hc
    have := ht c hc
    simp only [joins, Bool.or_eq_false_iff] at this
    exact this.1.1
  have hd (u : Text) : Text.NotBefore Text.isDigit ('d' :: u) := by
    intro c hc
    cases hc
    decide
  -- the digits in front of the letter are the count, those behind it the faces
  have hcount : ((Term.dice count faces).text ++ t).takeWhile Text.isDigit =
      (count.map Text.ofNat).getD [] := by
    cases count with
    | none => simpa [Term.text] using (hd (Text.ofNat faces ++ t)).takeWhile
    | some n => simpa [Term.text] using takeWhile_digits n (hd (Text.ofNat faces ++ t))
  have hrest : ((Term.dice count faces).text ++ t).dropWhile Text.isDigit =
      'd' :: (Text.ofNat faces ++ t) := by
    cases count with
    | none => simpa [Term.text] using (hd (Text.ofNat faces ++ t)).dropWhile
    | some n => simpa [Term.text] using dropWhile_digits n (hd (Text.ofNat faces ++ t))
  have hword : word? ['d'] ('d' :: (Text.ofNat faces ++ t)) = some (Text.ofNat faces ++ t) := rfl
  have hfaces : digits? (Text.ofNat faces ++ t) = some (Text.ofNat faces, t) := by
    rw [digits?, takeWhile_digits faces hdigit, dropWhile_digits faces hdigit]
    split
    · exact absurd ‹_› (Text.ofNat_ne_nil faces)
    · rfl
  -- no option follows, since nothing that could begin one does
  have hr : word? ['r'] t = none := word?_of_notBefore (.inr rfl) [] ht
  have hro : word? ['r', 'o'] t = none := word?_of_notBefore (.inr rfl) ['o'] ht
  simp [pattern?, hcount, hrest, hword, hfaces, threshold?, hr, hro, Shorthand.optional, patternOf]

/-! ## Texts without groups of dice -/

/-- Whether no group of dice begins in a text. After digits, this depends on what follows. -/
def Passed (afterDigit : Bool) (u : Text) : Prop :=
  ∀ t, (afterDigit = true → Text.NotBefore joins t) →
    firstPattern? (u ++ t) = (firstPattern? t).map fun (before, p, rest) => (u ++ before, p, rest)

theorem passed_nil (afterDigit : Bool) : Passed afterDigit [] := by
  intro t _
  cases h : firstPattern? t <;> simp [h]

theorem firstPattern?_cons {c : Char} {t : Text} (h : pattern? (c :: t) = none) :
    firstPattern? (c :: t) =
      (firstPattern? t).map fun (before, p, rest) => (c :: before, p, rest) := by
  simp only [firstPattern?, h]

theorem Passed.append {a b : Bool} {u v : Text} (hu : Passed a u) (hv : Passed b v)
    (hbetween : ∀ t, (b = true → Text.NotBefore joins t) → a = true →
      Text.NotBefore joins (v ++ t)) : Passed b (u ++ v) := by
  intro t ht
  rw [List.append_assoc, hu (v ++ t) (hbetween t ht), hv t ht]
  cases firstPattern? t <;> simp

/-- Digits are passed over on the search for dice. -/
theorem passed_digits {ds : Text} (h : ∀ c ∈ ds, Text.isDigit c = true) : Passed true ds := by
  intro t ht
  induction ds with
  | nil => exact passed_nil true t ht
  | cons c ds ih =>
    have hnone : pattern? (c :: (ds ++ t)) = none := pattern?_none h (ht rfl)
    rw [List.cons_append, firstPattern?_cons hnone, ih fun d hd => h d (.tail _ hd)]
    cases firstPattern? t <;> simp

/-- Letters that join nothing are passed over. -/
theorem passed_of_not_joins {u : Text} (h : ∀ c ∈ u, joins c = false) : Passed false u := by
  intro t _
  induction u with
  | nil => exact passed_nil false t nofun
  | cons c u ih =>
    have hnone : pattern? (c :: (u ++ t)) = none := by
      refine @pattern?_none [] _ nofun ?_
      intro d hd
      cases hd
      exact h c (.head _)
    rw [List.cons_append, firstPattern?_cons hnone, ih fun d hd => h d (.tail _ hd)]
    cases firstPattern? t <;> simp

/-! ## The first group of dice -/

/-- The pieces behind what has been passed: after digits, no term follows. -/
structure Behind (afterDigit : Bool) (ps : List (Piece Term)) : Prop where
  head : afterDigit = true → ∀ p ∈ ps.head?, p.isLeaf = false
  apart : Apart ps

theorem Behind.next {afterDigit : Bool} {p : Piece Term} {ps : List (Piece Term)}
    (h : Behind afterDigit (p :: ps)) : Behind p.isLeaf ps := by
  rcases List.isChain_cons.mp h.apart with ⟨hhead, htail⟩
  exact ⟨fun hp q hq => hhead q hq hp, htail⟩

theorem Behind.forget {afterDigit : Bool} {ps : List (Piece Term)} (h : Behind afterDigit ps) :
    Behind false ps := ⟨nofun, h.apart⟩

def Piece.isDice : Piece Term → Bool
  | .leaf (.dice _ _) => true
  | _ => false

/-- In a piece that is no dice no group of dice begins. -/
theorem passed_piece {p : Piece Term} (hp : p.isDice = false) :
    Passed p.isLeaf (p.text [] Term.text) := by
  match p, hp with
  | .leaf (.number n), _ =>
    exact passed_digits fun c hc => Text.isDigit_of_isDigit (Text.isDigit_of_mem_ofNat hc)
  | .sign _, _ => exact passed_of_not_joins fun c hc => not_joins_of_mem rfl hc
  | .opening, _ => exact passed_of_not_joins fun c hc => not_joins_of_mem rfl hc
  | .closing, _ => exact passed_of_not_joins fun c hc => not_joins_of_mem rfl hc
  | .operator _, _ => exact passed_of_not_joins fun c hc => not_joins_of_mem rfl hc

theorem passed_next {afterDigit : Bool} {u : Text} {p : Piece Term} {ps : List (Piece Term)}
    (hu : Passed afterDigit u) (h : Behind afterDigit (p :: ps)) (hp : p.isDice = false) :
    Passed p.isLeaf (u ++ p.text [] Term.text) := by
  refine hu.append (passed_piece hp) ?_
  intro t _ hafter
  exact notBefore_text (h.head hafter p rfl) t

/-- The first group of dice in a text stands behind what has been passed. -/
theorem firstPattern?_dice {afterDigit : Bool} {u : Text} {count : Option Nat} {faces : Nat}
    {ps : List (Piece Term)} (hu : Passed afterDigit u)
    (h : Behind afterDigit (.leaf (.dice count faces) :: ps)) :
    firstPattern? (u ++ textOf [] Term.text (.leaf (.dice count faces) :: ps)) =
      some (u, patternOf count faces, textOf [] Term.text ps) := by
  have hrest : Text.NotBefore joins (textOf [] Term.text ps) := notBefore_of_apart h.apart rfl
  have hfirst : firstPattern? ((Term.dice count faces).text ++ textOf [] Term.text ps) =
      some ([], patternOf count faces, textOf [] Term.text ps) := by
    have hpattern := pattern?_dice count faces hrest
    rcases exists_text (.dice count faces) with ⟨c, cs, htext, -⟩
    rw [htext] at hpattern ⊢
    rw [List.cons_append] at hpattern ⊢
    simp only [firstPattern?, hpattern]
  have hnotAfter : afterDigit = true → Text.NotBefore joins
      ((Term.dice count faces).text ++ textOf [] Term.text ps) := by
    intro hafter
    exact absurd (h.head hafter _ rfl) (by simp [Piece.isLeaf])
  rw [textOf_cons, Piece.text, hu _ hnotAfter, hfirst]
  simp

/-! ## Well-formed texts -/

def dicesAmong (ps : List (Piece Term)) : Nat := ps.countP Piece.isDice

theorem dicesAmong_dice (count : Option Nat) (faces : Nat) (ps : List (Piece Term)) :
    dicesAmong (.leaf (.dice count faces) :: ps) = dicesAmong ps + 1 :=
  List.countP_cons_of_pos rfl

theorem dicesAmong_other {p : Piece Term} (hp : p.isDice = false) (ps : List (Piece Term)) :
    dicesAmong (p :: ps) = dicesAmong ps :=
  List.countP_cons_of_neg (by simp [hp])

theorem letters_piece {p : Piece Term} (hp : p.isDice = false) :
    letters (p.text [] Term.text) = 0 := by
  match p, hp with
  | .leaf (.number n), _ => exact letters_ofNat n
  | .sign n, _ => cases n <;> rfl
  | .opening, _ => rfl
  | .closing, _ => rfl
  | .operator op, _ => cases op <;> rfl

/-- Dice have one letter that rolls them. -/
theorem letters_dice (count : Option Nat) (faces : Nat) :
    letters (Term.dice count faces).text = 1 := by
  have hd : letters ('d' :: Text.ofNat faces) = 1 := by
    have h := letters_append ['d'] (Text.ofNat faces)
    rw [letters_ofNat] at h
    exact h
  cases count with
  | none => exact hd
  | some n => exact (letters_append (Text.ofNat n) _).trans (by rw [letters_ofNat, hd])

/-- There are as many letters as there are dice. -/
theorem letters_textOf (ps : List (Piece Term)) :
    letters (textOf [] Term.text ps) = dicesAmong ps := by
  induction ps with
  | nil => rfl
  | cons p ps ih =>
    rw [textOf_cons, letters_append, ih]
    by_cases hp : p.isDice = true
    · match p, hp with
      | .leaf (.dice count faces), _ =>
        rw [Piece.text, letters_dice, dicesAmong_dice, Nat.add_comm]
    · have hp : p.isDice = false := by simpa using hp
      rw [letters_piece hp, dicesAmong_other hp, Nat.zero_add]

/-- No letter is left when the groups of dice are taken out. -/
theorem letters_withoutPatterns {ps : List (Piece Term)} {afterDigit : Bool} {u : Text}
    (hu : Passed afterDigit u) (h : Behind afterDigit ps) (hletters : letters u = 0) :
    letters (withoutPatterns (dicesAmong ps) (u ++ textOf [] Term.text ps)) = 0 := by
  induction ps generalizing afterDigit u with
  | nil => simpa [dicesAmong, withoutPatterns] using hletters
  | cons p ps ih =>
    by_cases hp : p.isDice = true
    · match p, hp, h with
      | .leaf (.dice count faces), _, h =>
        have hrest := ih (passed_nil false) h.next.forget rfl
        rw [dicesAmong_dice, withoutPatterns, firstPattern?_dice hu h]
        simp only [letters_append, hletters, Nat.zero_add]
        exact hrest
    · have hp : p.isDice = false := by simpa using hp
      have hpassed := passed_next hu h hp
      have hrest := ih hpassed h.next (by rw [letters_append, hletters, letters_piece hp])
      rwa [dicesAmong_other hp, textOf_cons, ← List.append_assoc]

/-- Without letters that roll dice there are no stray ones. -/
theorem hasStray_eq_false {t : Text} (h : letters t = 0) (inside : Bool) :
    hasStray inside t = false := by
  induction t generalizing inside with
  | nil => rfl
  | cons c cs ih =>
    have hmem : ∀ d ∈ c :: cs, ¬ (decide (d = 'd') || decide (d = 'D')) = true := by
      rw [letters, List.countP_eq_zero] at h
      exact h
    have hbegins : beginsLikeDice (c :: cs) = false := by
      unfold beginsLikeDice
      split
      · rename_i d ds hdrop
        have hd : d ∈ c :: cs := (List.dropWhile_sublist _).subset (hdrop ▸ List.mem_cons_self)
        simpa using hmem d hd
      · rfl
    have hcs : letters cs = 0 := by
      rw [letters, List.countP_eq_zero]
      exact fun d hd => hmem d (.tail _ hd)
    simp [hasStray, hbegins, ih hcs]

/-- A plain expression is well formed. -/
theorem isMalformed_write (e : Expression Term) : isMalformed e.write = false := by
  have hbehind : Behind false e.pieces := ⟨nofun, apart_pieces e⟩
  have hnone := letters_withoutPatterns (passed_nil false) hbehind rfl
  rw [List.nil_append] at hnone
  refine hasStray_eq_false ?_ false
  rw [Expression.write, letters_textOf]
  exact hnone

/-! ## Rolling a group -/

def SameOn {ε σ α : Type} (P : σ → Prop) (a b : Act ε σ α) : Prop := ∀ s, P s → a.run s = b.run s

theorem SameOn.refl {ε σ α : Type} {P : σ → Prop} (a : Act ε σ α) : SameOn P a a := fun _ _ => rfl

/-- Actions that agree on good states, one after the other, agree. -/
theorem SameOn.bind {ε σ α β : Type} {P : σ → Prop} {Q : α → Prop} {a b : Act ε σ α}
    {f g : α → Act ε σ β} (hab : SameOn P a b) (hb : Ensures P Q b)
    (hfg : ∀ x, Q x → SameOn P (f x) (g x)) : SameOn P (a >>= f) (b >>= g) := by
  intro s hs
  rcases hb s hs with ⟨hstate, hresult⟩
  have hfirst := hab s hs
  rcases hrun : b.run s with ⟨e | x, s'⟩
  · rw [hrun] at hfirst
    rw [run_bind_of_error hfirst, run_bind_of_error hrun]
  · rw [hrun] at hfirst hstate hresult
    rw [run_bind_of_ok hfirst, run_bind_of_ok hrun]
    exact hfg x (hresult x rfl) s' hstate

/-- The plan of a group that the grammar allows is the group itself. -/
theorem plan_patternOf {count : Option Nat} {faces : Nat} (h : (Term.dice count faces).Sound) :
    (patternOf count faces).plan = .ok ⟨count.getD 1, faces, 0, 0⟩ := by
  rcases h with ⟨⟨hcount, hpos, hfaces⟩, hrolls⟩
  have hshort (n : Nat) (hn : n < 10 ^ 100) : ¬ Shorthand.maxDigits < (Text.ofNat n).length := by
    have hlength : (Text.ofNat n).length ≤ 100 := Text.length_ofNat_le (by decide) hn
    exact Nat.not_lt_of_le hlength
  have hface : faces ≠ 0 := by omega
  have hnone : Text.digitsValue [] = 0 := rfl
  have hmax : ¬ maxDice < count.getD 1 := Nat.not_lt_of_le hrolls
  cases count with
  | none =>
    have hmax : ¬ maxDice < 1 := hmax
    simp [Pattern.plan, patternOf, hshort faces hfaces, hface, hnone, hmax]
  | some n =>
    have hn : n < 10 ^ 100 := hcount.2
    have hmax : ¬ maxDice < n := hmax
    simp [Pattern.plan, patternOf, hshort faces hfaces, hshort n hn, hface, hnone, hmax,
      Text.ofNat_ne_nil n]

/-- Without thresholds, a die is drawn once: no result is zero or less. -/
theorem rollDie_same {faces : Nat} (h : 1 ≤ faces) (count : Nat) :
    SameOn Dice.InRange (Plan.rollDie ⟨count, faces, 0, 0⟩) (Dice.draw 1 faces) := by
  have hdraw : Dice.draw 1 faces = (Dice.draw 1 faces >>= fun v => pure v) := by simp
  have hle : (1 : Int) ≤ faces := by omega
  rw [hdraw, Plan.rollDie]
  refine (SameOn.refl _).bind (draw_ensures hle) fun v hv => ?_
  have hpos : ¬ v ≤ ((0 : Nat) : Int) := by
    have hv : 1 ≤ v := hv.1
    omega
  intro d _
  rw [if_neg hpos, run_bind_of_ok (run_get d)]
  simp only [rollAbove, if_neg hpos]

/-- Dice that are never rolled again are drawn one by one. -/
theorem rollDice_same {faces : Nat} (h : 1 ≤ faces) (count n : Nat) :
    SameOn Dice.InRange (Plan.rollDice ⟨count, faces, 0, 0⟩ n) (drawMany faces n) := by
  induction n with
  | zero => exact .refl _
  | succ n ih =>
    have hle : (1 : Int) ≤ faces := by omega
    refine (rollDie_same h count).bind (draw_ensures hle) fun v _ => ?_
    exact ih.bind (drawMany_ensures h n) fun vs _ => .refl _

/-! ## Rolling an expression -/

theorem groupsAmong_dice (g : DieGroup) (qs : List (Piece Shown)) :
    groupsAmong (.leaf (.dice g) :: qs) = g :: groupsAmong qs := rfl

/-- A piece without dice stays as it is. -/
theorem rollPieces_other {p : Piece Term} (hp : p.isDice = false) (ps : List (Piece Term)) :
    ∃ q, q.text [] Shown.text = p.text [] Term.text ∧ (∀ qs, groupsAmong (q :: qs) = groupsAmong qs) ∧
      rollPieces (p :: ps) = (do
        let qs ← rollPieces ps
        pure (q :: qs)) := by
  match p, hp with
  | .leaf (.number n), _ => exact ⟨.leaf (.number n), rfl, fun _ => rfl, rfl⟩
  | .sign n, _ => exact ⟨.sign n, rfl, fun _ => rfl, rfl⟩
  | .opening, _ => exact ⟨.opening, rfl, fun _ => rfl, rfl⟩
  | .closing, _ => exact ⟨.closing, rfl, fun _ => rfl, rfl⟩
  | .operator op, _ => exact ⟨.operator op, rfl, fun _ => rfl, rfl⟩

/-- Rolling in place is rolling the pieces one after the other: `u` is what has been passed, and
`groups` are the groups in it. -/
theorem rollGroups_pieces {expression : Text} {ps : List (Piece Term)}
    (hsound : ∀ t ∈ leavesOf ps, t.Sound) (groups : List DieGroup) {afterDigit : Bool} {u : Text}
    (hu : Passed afterDigit u) (h : Behind afterDigit ps) :
    SameOn Dice.InRange
      (rollGroups expression (dicesAmong ps) groups (u ++ textOf [] Term.text ps))
      (do
        let qs ← rollPieces ps
        finish expression (u ++ textOf [] Shown.text qs) (groups ++ groupsAmong qs)) := by
  induction ps generalizing afterDigit u groups with
  | nil =>
    simp only [dicesAmong, List.countP_nil, rollGroups, rollPieces, pure_bind, textOf_nil,
      List.append_nil]
    simpa [groupsAmong] using SameOn.refl (finish expression u groups)
  | cons p ps ih =>
    have hsound' : ∀ t ∈ leavesOf ps, t.Sound := by
      intro t ht
      refine hsound t ?_
      cases p <;> simp [ht]
    by_cases hp : p.isDice = true
    · match p, hp, h, hsound with
      | .leaf (.dice count faces), _, h, hsound =>
        have hterm : (Term.dice count faces).Sound := hsound _ (by simp)
        have hfaces : 1 ≤ faces := hterm.1.2.1
        rw [dicesAmong_dice, rollGroups, firstPattern?_dice hu h]
        simp only [plan_patternOf hterm, rollPieces, Piece.roll, Term.roll, bind_assoc, pure_bind]
        refine (rollDice_same hfaces _ _).bind (drawMany_ensures hfaces _) fun vs hvs => ?_
        -- the total is a numeral, behind which no term follows
        rcases exists_total hvs.1 hvs.2 with ⟨k, hk, -⟩
        have htotal : Text.ofInt (DieGroup.total ⟨.faces faces, vs⟩) = Text.ofNat k := by
          simp [DieGroup.total, hk, Text.ofInt]
        have hdigits : Passed true (Text.ofInt (DieGroup.total ⟨.faces faces, vs⟩)) := by
          rw [htotal]
          exact passed_digits fun c hc => Text.isDigit_of_isDigit (Text.isDigit_of_mem_ofNat hc)
        have hpassed := hu.append hdigits fun t _ hafter =>
          absurd (h.head hafter _ rfl) (by simp [Piece.isLeaf])
        have hrest := ih hsound' (groups ++ [⟨.faces faces, vs⟩]) hpassed h.next
        simpa [groupsAmong_dice, Piece.text, Shown.text] using hrest
    · have hp : p.isDice = false := by simpa using hp
      rcases rollPieces_other hp ps with ⟨q, htext, hgroups, hroll⟩
      have hrest := ih hsound' groups (passed_next hu h hp) h.next
      rw [dicesAmong_other hp, hroll, textOf_cons, ← List.append_assoc]
      simpa [htext, hgroups] using hrest

theorem solid_term (t : Term) : Solid t.text := by
  cases t with
  | number n => exact solid_ofNat n
  | dice count faces =>
    have hd : Solid ('d' :: Text.ofNat faces) := ⟨by simp, by simpa [Text.isBlank] using (solid_ofNat faces).2⟩
    cases count with
    | none => exact hd
    | some n => exact (solid_ofNat n).append hd

/-- Rolling the text of an expression is rolling its pieces and evaluating what they show. -/
theorem roll_write {e : Expression Term} (h : ∀ t ∈ e.leaves, t.Sound) :
    SameOn Dice.InRange (Shorthand.roll e.write) (do
      let qs ← rollPieces e.pieces
      finish e.write (textOf [] Shown.text qs) (groupsAmong qs)) := by
  have hstrip : Text.strip e.write = e.write := strip_textOf [] fun t _ => solid_term t
  have hbehind : Behind false e.pieces := ⟨nofun, apart_pieces e⟩
  have hroll := @rollGroups_pieces e.write _ h [] _ _ (passed_nil false) hbehind
  have hletters : letters e.write = dicesAmong e.pieces := letters_textOf e.pieces
  rw [Shorthand.roll, hstrip, isMalformed_write, if_neg (by decide), hletters]
  simpa [Expression.write] using hroll

end Plain

end TabletopChat
