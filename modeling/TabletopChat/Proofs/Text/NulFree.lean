import TabletopChat.Arithmetic.Number
import TabletopChat.Arithmetic.Literal
import TabletopChat.Proofs.Prompt.TagSource
import TabletopChat.Text.Compatibility

/-!
# Proofs/Text/NulFree — texts without null characters

An expression with a null character is refused as a whole, so a message must never come to hold one.
What is cut out of a text, joined from texts or put in place of a tag holds no null character if the
parts hold none; neither do numerals, escapes and the forms under which names are looked up.

- `Gives`              : what may be read has a property
- `NulFree`            : texts without null characters
- `NulFree.compatible` : names
- `Number.nulFree_display`, `Literal.nulFree_display` : numbers and other values as they are shown
- `nulFree_replaceTags` : texts with their tags replaced
-/

namespace TabletopChat

/-! ## What may be read -/

def Gives {α : Type} (P : α → Prop) (o : Option α) : Prop := ∀ x ∈ o, P x

theorem gives_none {α : Type} {P : α → Prop} : Gives P none := by
  intro x hx
  cases hx

theorem gives_some {α : Type} {P : α → Prop} {x : α} (h : P x) : Gives P (some x) := by
  intro y hy
  cases hy
  exact h

theorem Gives.bind {α β : Type} {P : α → Prop} {Q : β → Prop} {o : Option α} {f : α → Option β}
    (ho : Gives P o) (hf : ∀ x, P x → Gives Q (f x)) : Gives Q (o.bind f) := by
  intro y hy
  rcases Option.bind_eq_some_iff.1 hy with ⟨x, hx, hxy⟩
  exact hf x (ho x hx) y hxy

theorem Gives.bindPair {α β γ : Type} {P : α × β → Prop} {Q : γ → Prop} {o : Option (α × β)}
    {f : α × β → Option γ} (ho : Gives P o) (hf : ∀ a b, P (a, b) → Gives Q (f (a, b))) :
    Gives Q (o.bind f) :=
  ho.bind (Prod.forall.2 hf)

theorem Gives.map {α β : Type} {P : α → Prop} {Q : β → Prop} {o : Option α} {f : α → β}
    (ho : Gives P o) (hf : ∀ x, P x → Q (f x)) : Gives Q (o.map f) := by
  intro y hy
  rcases Option.map_eq_some_iff.1 hy with ⟨x, hx, rfl⟩
  exact hf x (ho x hx)

theorem gives_ite {α : Type} {P : α → Prop} {c : Prop} [Decidable c] {o p : Option α}
    (ho : Gives P o) (hp : Gives P p) : Gives P (if c then o else p) := by
  split
  · exact ho
  · exact hp

namespace Text

/-! ## Null characters -/

/-- A text without null characters. -/
def NulFree (t : Text) : Prop := '\x00' ∉ t

@[simp] theorem nulFree_nil : NulFree [] := List.not_mem_nil

@[simp] theorem nulFree_cons {c : Char} {t : Text} : NulFree (c :: t) ↔ c ≠ '\x00' ∧ NulFree t := by
  simp [NulFree, eq_comm]

@[simp] theorem nulFree_append {s t : Text} : NulFree (s ++ t) ↔ NulFree s ∧ NulFree t := by
  simp [NulFree]

theorem NulFree.of_subset {s t : Text} (h : NulFree t) (hsub : s ⊆ t) : NulFree s :=
  fun hmem => h (hsub hmem)

/-! ## Cutting and joining -/

theorem NulFree.strip {t : Text} (h : NulFree t) : NulFree (Text.strip t) :=
  h.of_subset fun _ hc => mem_of_mem_strip hc

theorem NulFree.pieces {t p : Text} {sep : Char} (h : NulFree t) (hp : p ∈ Text.pieces sep t) :
    NulFree p :=
  h.of_subset fun _ hc => (mem_of_mem_pieces hp hc).1

theorem NulFree.joinWith {sep : Text} {ts : List Text} (hsep : NulFree sep)
    (hts : ∀ t ∈ ts, NulFree t) : NulFree (Text.joinWith sep ts) := by
  intro hmem
  rcases mem_joinWith hmem with h | ⟨t, ht, h⟩
  · exact hsep h
  · exact hts t ht h

theorem nulFree_flatMap {α : Type} {f : α → Text} {xs : List α} (h : ∀ x ∈ xs, NulFree (f x)) :
    NulFree (xs.flatMap f) := by
  intro hmem
  rcases List.mem_flatMap.1 hmem with ⟨x, hx, hc⟩
  exact h x hx hc

theorem nulFree_replicate {n : Nat} {c : Char} (h : c ≠ '\x00') : NulFree (List.replicate n c) := by
  intro hmem
  exact h (List.eq_of_mem_replicate hmem).symm

/-- Both sides of a cut have no null characters. -/
theorem NulFree.cutAt {t : Text} (h : NulFree t) (sep : Char) :
    NulFree (Text.cutAt sep t).1 ∧ ∀ u ∈ (Text.cutAt sep t).2, NulFree u := by
  induction t with
  | nil =>
      simp [Text.cutAt]
  | cons c cs ih =>
      rw [nulFree_cons] at h
      by_cases hc : c = sep
      · simp [Text.cutAt, hc, h.2]
      · simp only [Text.cutAt, hc, if_false, nulFree_cons]
        exact ⟨⟨h.1, (ih h.2).1⟩, (ih h.2).2⟩

theorem NulFree.unifyLineEnds {t : Text} (h : NulFree t) : NulFree (Text.unifyLineEnds t) := by
  fun_induction Text.unifyLineEnds t <;> simp_all

/-- Replacing puts none in. -/
theorem NulFree.replaceAll {old new t : Text} (hnew : NulFree new) (h : NulFree t) :
    NulFree (Text.replaceAll old new t) := by
  have hfrom (skip : Nat) : NulFree (replaceFrom old new skip t) := by
    fun_induction replaceFrom old new skip t <;> simp_all
  unfold Text.replaceAll
  split
  · refine nulFree_append.2 ⟨hnew, nulFree_flatMap fun c hc => nulFree_cons.2 ⟨?_, hnew⟩⟩
    rintro rfl
    exact h hc
  · exact hfrom 0

/-! ## Numerals -/

theorem digitChar_ne_nul (n : Nat) : Nat.digitChar n ≠ '\x00' := by
  grind [Nat.digitChar]

/-- Numerals of any base consist of digits. -/
theorem nulFree_toDigits (base n : Nat) : NulFree (Nat.toDigits base n) := by
  have hcore (fuel : Nat) : ∀ (n : Nat) (ds : Text), NulFree ds →
      NulFree (Nat.toDigitsCore base fuel n ds) := by
    induction fuel with
    | zero =>
        intro n ds hds
        exact hds
    | succ fuel ih =>
        intro n ds hds
        have hcons : NulFree (Nat.digitChar (n % base) :: ds) :=
          nulFree_cons.2 ⟨digitChar_ne_nul _, hds⟩
        simp only [Nat.toDigitsCore]
        split
        · exact hcons
        · exact ih _ _ hcons
  exact hcore (n + 1) n [] nulFree_nil

@[simp] theorem nulFree_ofNat (n : Nat) : NulFree (ofNat n) := nulFree_toDigits 10 n

@[simp] theorem nulFree_ofInt (n : Int) : NulFree (ofInt n) := by
  cases n with
  | ofNat n => exact nulFree_ofNat n
  | negSucc n => exact nulFree_cons.2 ⟨by decide, nulFree_ofNat (n + 1)⟩

theorem NulFree.padLeft {t : Text} {c : Char} (h : NulFree t) (width : Nat) (hc : c ≠ '\x00') :
    NulFree (padLeft width c t) :=
  nulFree_append.2 ⟨nulFree_replicate hc, h⟩

/-! ## Quoted texts -/

/-- An escape is written without null characters. -/
theorem nulFree_codeEscape (n : Nat) : NulFree (codeEscape n) := by
  have hhex (width : Nat) : NulFree (hex width n) := (nulFree_toDigits 16 n).padLeft width (by decide)
  unfold codeEscape
  split
  · exact nulFree_cons.2 ⟨by decide, nulFree_cons.2 ⟨by decide, hhex 2⟩⟩
  · split
    · exact nulFree_cons.2 ⟨by decide, nulFree_cons.2 ⟨by decide, hhex 4⟩⟩
    · exact nulFree_cons.2 ⟨by decide, nulFree_cons.2 ⟨by decide, hhex 8⟩⟩

/-- The null character is not printable, so it is escaped. -/
theorem nulFree_escaped {mark : Char} (hmark : mark ≠ '\x00') (c : Char) : NulFree (escaped mark c) := by
  unfold escaped
  split
  · rename_i h
    have hc : c ≠ '\x00' := by
      rintro rfl
      simp [eq_comm, hmark] at h
    exact nulFree_cons.2 ⟨by decide, nulFree_cons.2 ⟨hc, nulFree_nil⟩⟩
  · repeat' split
    · simp
    · simp
    · simp
    · rename_i hprintable
      have hc : c ≠ '\x00' := by
        rintro rfl
        exact absurd hprintable (by decide)
      exact nulFree_cons.2 ⟨hc, nulFree_nil⟩
    · exact nulFree_codeEscape _

/-! ## Names -/

theorem nulFree_of_ofList {l : List Char} {s : String} (hs : s = String.ofList l)
    (hl : l.all (· != '\x00') = true) : NulFree s.toList := by
  subst hs
  rw [String.toList_ofList]
  intro hmem
  exact absurd (List.all_eq_true.1 hl _ hmem) (by decide)

set_option maxRecDepth 10000 in
theorem nulFree_plainForms : ∀ e ∈ plainForms, NulFree e.2.toList := by
  unfold plainForms
  repeat' first
    | exact List.forall_mem_nil _
    | refine List.forall_mem_cons.2 ⟨nulFree_of_ofList rfl (by decide +kernel), ?_⟩

set_option maxRecDepth 10000 in
theorem nulFree_compositions : ∀ e ∈ compositions, NulFree e.2.toList := by
  unfold compositions
  repeat' first
    | exact List.forall_mem_nil _
    | refine List.forall_mem_cons.2 ⟨nulFree_of_ofList rfl (by decide +kernel), ?_⟩

theorem nulFree_plainForm {c : Char} (h : c ≠ '\x00') : NulFree (plainForm c) := by
  have hself : NulFree [c] := nulFree_cons.2 ⟨h, nulFree_nil⟩
  unfold plainForm
  split
  · exact hself
  · cases hfind : plainForms.findSome? _ with
    | none =>
        exact hself
    | some form =>
        rcases List.exists_of_findSome?_eq_some hfind with ⟨e, he, hform⟩
        split at hform
        rename_i first forms
        split at hform
        · exact (nulFree_plainForms _ he).pieces (List.mem_of_getElem? hform)
        · cases hform

/-- A composed syllable is no null character. -/
theorem syllable?_ne_nul {a b c : Char} (h : syllable? a b = some c) : c ≠ '\x00' := by
  -- a code that is one of a character is kept, and is not zero here
  have hchar {n : Nat} (hn : 0 < n) (hvalid : n.isValidChar) : Char.ofNat n ≠ '\x00' := by
    intro heq
    have htoNat := congrArg Char.toNat heq
    rw [Char.ofNat, dif_pos hvalid] at htoNat
    have hzero : n = 0 := htoNat
    omega
  simp only [syllable?] at h
  split at h
  · rw [← Option.some.inj h]
    refine hchar (by omega) ?_
    unfold Nat.isValidChar
    omega
  · split at h
    · rw [← Option.some.inj h]
      refine hchar (by omega) ?_
      unfold Nat.isValidChar
      omega
    · cases h

/-- Composed characters are no null characters. -/
theorem compose?_ne_nul {a b c : Char} (h : compose? a b = some c) : c ≠ '\x00' := by
  unfold compose? at h
  split at h
  · cases h
  · split at h
    · rename_i d hd
      cases h
      exact syllable?_ne_nul hd
    -- otherwise it is one of the compositions that are listed
    · rcases List.exists_of_findSome?_eq_some h with ⟨⟨accent, pairs⟩, he, hpairs⟩
      simp only at hpairs
      split at hpairs
      · rcases List.exists_of_findSome?_eq_some hpairs with ⟨p, hp, hc⟩
        have hfree := (nulFree_compositions _ he).pieces hp
        split at hc
        · split at hc
          · cases hc
            simp only [nulFree_cons] at hfree
            exact hfree.2.1
          · cases hc
        · cases hc
      · cases hpairs

/-- Composing letters makes no null character. -/
theorem nulFree_composed {last : Char} {t : Text} (hlast : last ≠ '\x00') (h : NulFree t) :
    NulFree (composed last t) := by
  induction t generalizing last with
  | nil =>
      exact nulFree_cons.2 ⟨hlast, nulFree_nil⟩
  | cons c cs ih =>
      rw [nulFree_cons] at h
      simp only [composed]
      split
      · rename_i d hd
        exact ih (compose?_ne_nul hd) h.2
      · exact nulFree_cons.2 ⟨hlast, ih h.1 h.2⟩

/-- The form under which a name is looked up. -/
theorem NulFree.compatible {t : Text} (h : NulFree t) : NulFree (compatible t) := by
  have hplain : NulFree (t.flatMap plainForm) := by
    refine nulFree_flatMap fun c hc => nulFree_plainForm ?_
    rintro rfl
    exact h hc
  unfold Text.compatible
  split
  · exact nulFree_nil
  · rename_i c cs heq
    rw [heq, nulFree_cons] at hplain
    exact nulFree_composed hplain.1 hplain.2

/-! ## Tags that are replaced -/

def LeavesPart {α : Type} (tag? : Text → Option (α × Text)) : Prop :=
  ∀ t, Gives (fun x => x.2 ⊆ t) (tag? t)

/-- The pieces of a text without null characters have none. -/
theorem nulFree_tagPieces {α : Type} {tag? : Text → Option (α × Text)} (htag : LeavesPart tag?)
    {t : Text} (h : NulFree t) : ∀ p ∈ tagPieces tag? t, NulFree p.source := by
  have hfrom (fuel : Nat) : ∀ {t : Text}, NulFree t → ∀ p ∈ tagPiecesFrom tag? fuel t,
      NulFree p.source := by
    induction fuel with
    | zero =>
        intro t _ p hp
        cases hp
    | succ fuel ih =>
        intro t h p hp
        cases t with
        | nil =>
            cases hp
        | cons c cs =>
            simp only [tagPiecesFrom] at hp
            split at hp
            · rename_i a rest hread
              rcases List.mem_cons.1 hp with rfl | hp
              · exact h.of_subset (List.take_subset _ _)
              · exact ih (h.of_subset (htag _ _ hread)) p hp
            · rw [nulFree_cons] at h
              rcases List.mem_cons.1 hp with rfl | hp
              · exact nulFree_cons.2 ⟨h.1, nulFree_nil⟩
              · exact ih h.2 p hp
  exact hfrom t.length h

/-- Replacing tags puts none in. -/
theorem nulFree_replaceTags {α : Type} {tag? : Text → Option (α × Text)} (htag : LeavesPart tag?)
    {value : α → Text → Text} {t : Text} (h : NulFree t)
    (hvalue : ∀ a source, NulFree source → NulFree (value a source)) :
    NulFree (replaceTags tag? value t) := by
  refine nulFree_flatMap fun p hp => ?_
  have hsource := nulFree_tagPieces htag h p hp
  cases p with
  | plain c => exact hsource
  | tag a source => exact hvalue a source hsource

end Text

/-! ## Numbers and other values as they are shown -/

namespace Decimal

open Text

theorem nulFree_writeDigits (style : Style) {ds : Text} (h : NulFree ds) (k : Int) :
    NulFree (writeDigits style ds k) := by
  have hexp : NulFree (writeExponent k) := by
    have hdigits := (nulFree_ofNat k.natAbs).padLeft 2 (show '0' ≠ '\x00' by decide)
    unfold writeExponent
    split <;> simp [hdigits]
  have hpart (n : Nat) : NulFree (ds.take n) ∧ NulFree (ds.drop n) :=
    ⟨h.of_subset (List.take_subset _ _), h.of_subset (List.drop_subset _ _)⟩
  have hzeros (n : Nat) : NulFree (List.replicate n '0') := nulFree_replicate (by decide)
  unfold writeDigits
  split
  · split
    · rename_i n _
      simp only
      split
      · split <;> simp [hpart, hzeros]
      · simp [hpart, hzeros]
    · simp [h, hzeros]
  · split
    · exact hexp
    · rw [nulFree_cons] at h
      exact nulFree_cons.2 ⟨h.1, hexp⟩
    · rw [nulFree_cons] at h
      simp [h.1, h.2, hexp]

/-- A written double has none. -/
theorem nulFree_write (style : Style) (x : Float) : NulFree (write style x) := by
  have hmagnitude (m : Magnitude) : NulFree (writeMagnitude style m) := by
    unfold writeMagnitude
    split
    · split <;> simp
    · exact nulFree_writeDigits style (nulFree_ofNat _) _
  unfold write
  split
  · simp
  · split <;> simp
  · split <;> simp [hmagnitude]

end Decimal

namespace Arithmetic

open Text

theorem Complex.nulFree_write (z : Complex) : NulFree z.write := by
  have hpart := Decimal.nulFree_write .part
  have hsigned (x : Float) : NulFree (signedPart x) := by
    unfold signedPart
    simp only
    split <;> simp [hpart]
  unfold Complex.write
  split <;> simp [hpart, hsigned]

theorem Number.nulFree_write (v : Number) : NulFree v.write := by
  cases v with
  | int n => exact nulFree_ofInt n
  | real x => exact Decimal.nulFree_write _ x
  | complex z => exact z.nulFree_write

/-- The text of a number has none. -/
theorem Number.nulFree_display (v : Number) : NulFree v.display := by
  cases v with
  | int n => exact nulFree_ofInt n
  | real x =>
      simp only [Number.display]
      split
      · exact nulFree_ofInt _
      · exact Decimal.nulFree_write _ x
  | complex z => exact z.nulFree_write

theorem quoteAround_ne_nul (points : List Nat) : quoteAround points ≠ '\x00' := by
  unfold quoteAround
  cases (points.contains '\''.toNat && !points.contains '"'.toNat) <;> decide

theorem nulFree_between {mark : Char} (hmark : mark ≠ '\x00') {f : Nat → Text} {points : List Nat}
    (hf : ∀ n, NulFree (f n)) : NulFree (mark :: points.flatMap f ++ [mark]) := by
  have hbody : NulFree (points.flatMap f) := nulFree_flatMap fun n _ => hf n
  simp [hmark, hbody]

/-- Values that are no numbers are shown with escapes for what cannot be shown. -/
theorem Literal.nulFree_display (v : Literal) : NulFree v.display := by
  have hpoint {mark : Char} (h : mark ≠ '\x00') (n : Nat) : NulFree (escapedPoint mark n) := by
    unfold escapedPoint
    split
    · exact nulFree_escaped h _
    · exact nulFree_codeEscape n
  have hbyte {mark : Char} (h : mark ≠ '\x00') (n : Nat) : NulFree (escapedByte mark n) := by
    unfold escapedByte
    split
    · exact nulFree_escaped h _
    · exact nulFree_codeEscape n
  cases v with
  | text points =>
      have hmark := quoteAround_ne_nul points
      exact nulFree_between hmark (hpoint hmark)
  | bytes octets =>
      have hmark := quoteAround_ne_nul octets
      exact nulFree_cons.2 ⟨by decide, nulFree_between hmark (hbyte hmark)⟩
  | imaginary x => exact Complex.nulFree_write _
  | truth b =>
      cases b
      · exact nulFree_of_ofList rfl (by decide)
      · exact nulFree_of_ofList rfl (by decide)
  | nothing => exact nulFree_of_ofList rfl (by decide)
  | ellipsis => exact nulFree_of_ofList rfl (by decide)

end Arithmetic

end TabletopChat
