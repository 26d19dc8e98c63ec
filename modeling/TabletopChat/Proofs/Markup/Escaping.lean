import TabletopChat.Markup.Tooltip
import TabletopChat.Proofs.Prompt.Items
import TabletopChat.Proofs.Text.Numeral

/-!
# Proofs/Markup/Escaping — a title says in an attribute what it says

A title is written into a quoted attribute with character references, and what is written is plain ASCII
that ends neither the attribute nor the tag around it. Reading the references gives the title again, also
where the title looks like references itself, because its ampersands are written as references. So what
is shown for a value tells its title and the value.

- `referenced?`   : the character that a reference stands for
- `unescape`      : a text with the characters that its references stand for
- `Written`       : how a character is written, as itself or as a reference
- `title_escaped` : the title of a value
-/

namespace TabletopChat

/-! ## Texts and their characters -/

/-- The digits of a numeral are those of its base. -/
theorem Text.forall_mem_toDigits {p : Char → Prop} {base : Nat} (hbase : 1 < base)
    (hp : ∀ k < base, p (Nat.digitChar k)) (n : Nat) : ∀ d ∈ Nat.toDigits base n, p d := by
  induction n using Nat.strongRecOn with
  | _ n ih =>
      rw [Nat.toDigits_eq_if hbase]
      split
      · rename_i hlt
        simpa using hp n hlt
      · rename_i hge
        have hsmaller : n / base < n := Nat.div_lt_self (by omega) hbase
        rw [List.forall_mem_append]
        exact ⟨ih _ hsmaller, by simpa using hp _ (Nat.mod_lt n (by omega))⟩

/-- A text without separators joins the first piece of what follows it. -/
theorem Text.pieces_prepend {sep : Char} {s t p : Text} {ps : List Text} (hs : sep ∉ s)
    (ht : pieces sep t = p :: ps) : pieces sep (s ++ t) = (s ++ p) :: ps := by
  induction s with
  | nil => exact ht
  | cons c cs ih =>
      rw [List.mem_cons, not_or] at hs
      rw [List.cons_append, pieces, if_neg (Ne.symm hs.1), ih hs.2, List.cons_append]

namespace Markup

/-! ## Character references -/

/-- The character that a reference stands for which is called by a name, or by its number in base
sixteen. -/
def referenced? : Text → Option Char
  | '#' :: 'x' :: d :: ds =>
    (Text.hexValue? 0 (d :: ds)).bind fun n => if n.isValidChar then some (Char.ofNat n) else none
  | name => [("amp".toList, '&'), ("lt".toList, '<'), ("gt".toList, '>'), ("quot".toList, '"')].lookup name

/-- What an ampersand begins, given what stands between it and the next one: a reference, or nothing. -/
def behindAmpersand (t : Text) : Text :=
  match Text.cutAt ';' t with
  | (name, some rest) =>
    match referenced? name with
    | some c => c :: rest
    | none => '&' :: t
  | (_, none) => '&' :: t

def unescape (t : Text) : Text :=
  match Text.pieces '&' t with
  | [] => []
  | p :: ps => p ++ ps.flatMap behindAmpersand

/-- Text without ampersands stays, whatever follows it. -/
theorem unescape_append {s : Text} (hs : '&' ∉ s) (t : Text) : unescape (s ++ t) = s ++ unescape t := by
  rcases hpieces : Text.pieces '&' t with - | ⟨p, ps⟩
  · exact absurd hpieces (Text.pieces_ne_nil _ _)
  · simp [unescape, Text.pieces_prepend hs hpieces, hpieces]

/-- A reference by name is read as its character. -/
theorem unescape_reference {name : Text} {c : Char} (hname : referenced? name = some c)
    (hamp : '&' ∉ name) (hsemicolon : ';' ∉ name) (t : Text) :
    unescape ('&' :: (name ++ ';' :: t)) = c :: unescape t := by
  rcases hpieces : Text.pieces '&' t with - | ⟨p, ps⟩
  · exact absurd hpieces (Text.pieces_ne_nil _ _)
  · have hname' : '&' ∉ name ++ [';'] := by simp [hamp]
    have hsplit : name ++ ';' :: t = name ++ [';'] ++ t := by simp
    have hcut : Text.cutAt ';' (name ++ ';' :: p) = (name, some p) := Text.cutAt_append hsemicolon p
    rw [unescape, Text.pieces, if_pos rfl, hsplit, Text.pieces_prepend hname' hpieces]
    simp [unescape, hpieces, behindAmpersand, hcut, hname]

/-! ## Escaped characters -/

/-- Characters that may stand in an attribute as they are, an ampersand aside. -/
def Harmless (c : Char) : Prop := c.toNat ≤ 127 ∧ c ∉ ['<', '>', '"']

instance (c : Char) : Decidable (Harmless c) := inferInstanceAs (Decidable (_ ∧ _))

/-- How a character is written: as itself, or as a reference to it. -/
inductive Written (c : Char) : Text → Prop
  | plain : c ≠ '&' → Harmless c → Written c [c]
  | reference (name : Text) : referenced? name = some c → (∀ d ∈ name, Harmless d ∧ d ∉ ['&', ';']) →
      Written c ('&' :: (name ++ [';']))

theorem harmless_of_all {name : Text}
    (h : (name.all fun d => decide (Harmless d ∧ d ∉ ['&', ';'])) = true) :
    ∀ d ∈ name, Harmless d ∧ d ∉ ['&', ';'] := fun d hd => of_decide_eq_true (List.all_eq_true.1 h d hd)

/-- Every character is written in one of the listed ways. -/
theorem written_escapeAttributeChar (c : Char) : Written c (escapeAttributeChar c) := by
  have hdigit : ∀ k < 16, Harmless (Nat.digitChar k).toUpper ∧ (Nat.digitChar k).toUpper ∉ ['&', ';'] := by
    decide
  unfold escapeAttributeChar
  split_ifs with hamp hless hgreater hquote hlarge
  · subst hamp
    exact .reference "amp".toList rfl (harmless_of_all (by decide))
  · subst hless
    exact .reference "lt".toList rfl (harmless_of_all (by decide))
  · subst hgreater
    exact .reference "gt".toList rfl (harmless_of_all (by decide))
  · subst hquote
    exact .reference "quot".toList rfl (harmless_of_all (by decide))
  · refine .reference ('#' :: 'x' :: (Nat.toDigits 16 c.toNat).map Char.toUpper) ?_ ?_
    · have hvalue := Text.hexValue?_toUpper c.toNat
      rcases hdigits : (Nat.toDigits 16 c.toNat).map Char.toUpper with - | ⟨d, ds⟩
      · simp at hdigits
      · rw [hdigits] at hvalue
        have hvalid : c.toNat.isValidChar := c.valid
        simp [referenced?, hvalue, hvalid]
    · have hdigits : ∀ d ∈ Nat.toDigits 16 c.toNat, Harmless d.toUpper ∧ d.toUpper ∉ ['&', ';'] :=
        Text.forall_mem_toDigits (by decide) hdigit c.toNat
      simpa [Harmless] using hdigits
  · exact .plain hamp ⟨by omega, by simp [hless, hgreater, hquote]⟩

/-! ## Escaped texts -/

/-- Nothing that is written ends the attribute. -/
theorem Written.harmless {c : Char} {t : Text} (h : Written c t) : ∀ d ∈ t, Harmless d := by
  cases h with
  | plain _ hc => simpa using hc
  | reference _ _ hname =>
      intro d hd
      simp only [List.mem_cons, List.mem_append, List.not_mem_nil, or_false] at hd
      rcases hd with rfl | hd | rfl
      · decide
      · exact (hname d hd).1
      · decide

/-- Each character is read back, whatever follows. -/
theorem Written.unescape {c : Char} {t : Text} (h : Written c t) (u : Text) :
    Markup.unescape (t ++ u) = c :: Markup.unescape u := by
  cases h with
  | plain hc _ => exact unescape_append (by simpa using hc.symm) u
  | reference _ hname hfree =>
      have hnotMem {d : Char} (hd : d ∈ ['&', ';']) : d ∉ _ := fun hmem => (hfree d hmem).2 hd
      rw [List.cons_append, List.append_assoc, List.singleton_append]
      exact unescape_reference hname (hnotMem (by decide)) (hnotMem (by decide)) u

/-- An ampersand in what is written for a character is the first one. -/
theorem Written.reference_of_split {c : Char} {t before behind : Text} (h : Written c t)
    (hsplit : t = before ++ '&' :: behind) :
    ∃ name, behind = name ++ [';'] ∧ referenced? name = some c := by
  cases h with
  | plain hc _ =>
      have hmem : '&' ∈ [c] := by
        rw [hsplit]
        simp
      exact absurd (List.mem_singleton.1 hmem).symm hc
  | reference name hname hfree =>
      cases before with
      | nil =>
          rw [List.nil_append, List.cons.injEq] at hsplit
          exact ⟨name, hsplit.2.symm, hname⟩
      | cons d before =>
          rw [List.cons_append, List.cons.injEq] at hsplit
          -- no other reference begins inside of one
          have hmem : '&' ∈ name ++ [';'] := by
            rw [hsplit.2]
            simp
          rcases List.mem_append.1 hmem with hmem | hmem
          · exact absurd List.mem_cons_self (hfree _ hmem).2
          · simp at hmem

/-- Reading what is written for a text. -/
theorem unescape_escapeAttribute (t : Text) : unescape (escapeAttribute t) = t := by
  induction t with
  | nil => rfl
  | cons c cs ih =>
      have hcons : escapeAttribute (c :: cs) = escapeAttributeChar c ++ escapeAttribute cs := rfl
      rw [hcons, (written_escapeAttributeChar c).unescape, ih]

theorem harmless_escapeAttribute (t : Text) : ∀ d ∈ escapeAttribute t, Harmless d := by
  intro d hd
  rcases List.mem_flatMap.1 hd with ⟨c, -, hdc⟩
  exact (written_escapeAttributeChar c).harmless d hdc

/-- Every ampersand that is written begins a reference. -/
theorem reference_of_split {t before behind : Text} (hsplit : escapeAttribute t = before ++ '&' :: behind) :
    ∃ name c rest, behind = name ++ ';' :: rest ∧ referenced? name = some c := by
  induction t generalizing before with
  | nil => simp [escapeAttribute] at hsplit
  | cons c cs ih =>
      have hcons : escapeAttribute (c :: cs) = escapeAttributeChar c ++ escapeAttribute cs := rfl
      rw [hcons] at hsplit
      rcases List.append_eq_append_iff.1 hsplit with ⟨gap, rfl, hrest⟩ | ⟨own, hown, hrest⟩
      · exact ih hrest
      · cases own with
        | nil =>
            have hbehind : escapeAttribute cs = [] ++ '&' :: behind := hrest.symm
            exact ih hbehind
        | cons d own =>
            -- the ampersand stands in what is written for this character
            rw [List.cons_append, List.cons.injEq] at hrest
            rcases hrest with ⟨rfl, rfl⟩
            rcases (written_escapeAttributeChar c).reference_of_split hown with ⟨name, rfl, hname⟩
            exact ⟨name, c, escapeAttribute cs, by simp, hname⟩

/-! ## Titles -/

/-- The title of a value ends at the first quotation mark that follows it. -/
theorem tooltip_inj {title title' value value' : Text} (h : tooltip title value = tooltip title' value') :
    escapeAttribute title = escapeAttribute title' ∧ value = value' := by
  have hquote (t : Text) : '"' ∉ escapeAttribute t := fun hmem =>
    (harmless_escapeAttribute t _ hmem).2 (by decide)
  have hcut (t v : Text) : Text.cutAt '"' (escapeAttribute t ++ ("\">".toList ++ (v ++ "</span>".toList))) =
      (escapeAttribute t, some ('>' :: (v ++ "</span>".toList))) := Text.cutAt_append (hquote t) _
  have hsplit (t v : Text) : tooltip t v = "<span title=\"".toList ++
      (escapeAttribute t ++ ("\">".toList ++ (v ++ "</span>".toList))) := by
    unfold tooltip
    rw [List.append_assoc, List.append_assoc, List.append_assoc]
  rw [hsplit, hsplit] at h
  have hcuts := congrArg (Text.cutAt '"') (List.append_cancel_left h)
  rw [hcut, hcut, Prod.mk.injEq, Option.some.injEq, List.cons.injEq] at hcuts
  exact ⟨hcuts.1, List.append_cancel_right hcuts.2.2⟩

/-- A title is written into its attribute in ASCII characters, without angle brackets and quotation marks,
and every ampersand in it begins a character reference; reading the references gives the title, so that
what is shown for a value tells its title and the value. -/
theorem title_escaped (title : Text) :
    (∀ c ∈ escapeAttribute title, c.toNat ≤ 127 ∧ c ≠ '<' ∧ c ≠ '>' ∧ c ≠ '"') ∧
      (∀ before behind, escapeAttribute title = before ++ '&' :: behind →
        ∃ name c rest, behind = name ++ ';' :: rest ∧ referenced? name = some c) ∧
      unescape (escapeAttribute title) = title ∧
      ∀ value title' value', tooltip title value = tooltip title' value' ↔ title = title' ∧ value = value' := by
  refine ⟨fun c hc => ?_, fun _ _ => reference_of_split, unescape_escapeAttribute title, ?_⟩
  · simpa [Harmless] using harmless_escapeAttribute title c hc
  · intro value title' value'
    constructor
    · intro h
      rcases tooltip_inj h with ⟨hescaped, hvalue⟩
      have htitle := congrArg unescape hescaped
      rw [unescape_escapeAttribute, unescape_escapeAttribute] at htitle
      exact ⟨htitle, hvalue⟩
    · rintro ⟨rfl, rfl⟩
      rfl

/-- A title that looks like a reference, with a letter outside of ASCII. -/
theorem title_escaped_reference :
    let title := "&lt;\u00e9".toList
    escapeAttribute title = "&amp;lt;&#xE9;".toList ∧
      (∃ name c rest, "#xE9;".toList = name ++ ';' :: rest ∧ referenced? name = some c) ∧
      unescape "&amp;lt;&#xE9;".toList = title := by
  intro title
  have hescaped : escapeAttribute title = "&amp;lt;&#xE9;".toList := by decide +kernel
  rcases title_escaped title with ⟨-, hreference, htitle, -⟩
  rw [hescaped] at hreference htitle
  exact ⟨hescaped, hreference "&amp;lt;".toList _ rfl, htitle⟩

end Markup

end TabletopChat
