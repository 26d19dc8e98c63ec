import TabletopChat.Proofs.Expansion.OnePass
import TabletopChat.Proofs.Library.Precedence

/-!
# Proofs/Library/Slugs — what the tag of a macro invokes

The tag of a macro writes the slug of its label. A message that contains the tag invokes this slug as a
label, and the macro is looked up under the tag of this label, for which a slug is made once more. Both
slugs are the same unless the label has a capital I with a dot: its small form has the dot as a character
of its own, and this character is not kept in a slug. So the tag of such a macro invokes the macros whose
labels have a plain I instead.

- `slugChar`, `slug_eq_flatMap` : slugs, letter by letter
- `inSlug_cases`                : the characters that are kept
- `undotted`, `slug_slug`       : the slug of a slug
- `own_tag_invokes`             : what the tag of a macro invokes
-/

namespace TabletopChat

namespace Library

variable {c d : Char} {label : Text}

/-! ## Letter by letter -/

def slugChar (c : Char) : Text :=
  if inSlug c then Text.lowerChar (if c = ' ' then '-' else c) else []

/-- A slug is made letter by letter. -/
theorem slug_eq_flatMap (label : Text) : slug label = label.flatMap slugChar := by
  induction label with
  | nil => rfl
  | cons c label ih =>
    rw [List.flatMap_cons, ← ih, slugChar]
    by_cases hc : inSlug c = true
    · simp [slug, Text.lower, hc]
    · simp [slug, hc]

def variants : List Char := ['\u017F', '\u212A', '\u0130', '\u0131']

/-- Outside of the variants, the base of a letter is its small form. -/
theorem baseLetter_of_notMem (h : c ∉ variants) : Text.baseLetter c = c.toLower := by
  have hvariant {n : Nat} (hn : c.toNat = n) (hmem : Char.ofNat n ∈ variants) : False :=
    h (by rwa [← hn, Char.ofNat_toNat] at hmem)
  unfold Text.baseLetter
  split
  case h_1 hn => exact (hvariant hn (by decide)).elim
  case h_2 hn => exact (hvariant hn (by decide)).elim
  case h_3 hn => exact (hvariant hn (by decide)).elim
  case h_4 hn => exact (hvariant hn (by decide)).elim
  case h_5 => rfl

/-- A letter whose small form is ASCII is ASCII itself. -/
theorem toNat_lt_of_isLower_toLower (h : c.toLower.isLower = true) : c.toNat < 128 := by
  have hsmall : c.toLower.toNat ≤ 122 := by
    obtain ⟨-, hhigh⟩ := Bool.and_eq_true_iff.1 h
    exact UInt32.le_iff_toNat_le.1 (of_decide_eq_true hhigh)
  rcases Text.eq_or_capital_of_toLower (c := c) rfl with hsame | ⟨-, hcapital, -⟩
  · rw [hsame]
    omega
  · omega

/-- What a tag keeps of a label are ASCII characters, and letters that count as such. -/
theorem inSlug_cases (h : inSlug c = true) : c.toNat < 128 ∨ c ∈ variants := by
  by_cases hvariant : c ∈ variants
  · exact .inr hvariant
  · rw [inSlug, baseLetter_of_notMem hvariant] at h
    simp only [Bool.or_eq_true, decide_eq_true_eq] at h
    rcases h with (((hletter | hdigit) | rfl) | rfl) | rfl
    · exact .inl (toNat_lt_of_isLower_toLower hletter)
    · have hle : c.toNat ≤ 57 := by
        obtain ⟨-, hhigh⟩ := Bool.and_eq_true_iff.1 hdigit
        exact UInt32.le_iff_toNat_le.1 (of_decide_eq_true hhigh)
      exact .inl (by omega)
    all_goals exact .inl (by decide)

/-- What is true of all ASCII characters and of the letters that count as such is true of all characters
that a tag keeps. -/
theorem test_of_inSlug {p : Char → Bool} (hascii : ((List.range 128).all fun n => p (Char.ofNat n)) = true)
    (hvariant : variants.all p = true) (h : inSlug c = true) : p c = true := by
  rcases inSlug_cases h with hc | hc
  · simpa using List.all_eq_true.1 hascii c.toNat (List.mem_range.2 hc)
  · exact List.all_eq_true.1 hvariant c hc

/-! ## The slug of a slug -/

def undotted (label : Text) : Text := label.map fun c => if c = '\u0130' then 'I' else c

/-- The letters of one character, each taken as a character of a label. -/
theorem flatMap_slugChar_slugChar (c : Char) :
    (slugChar c).flatMap slugChar = slugChar (if c = '\u0130' then 'I' else c) := by
  by_cases h : inSlug c = true
  · exact beq_iff_eq.1 (test_of_inSlug (p := fun c => (slugChar c).flatMap slugChar ==
      slugChar (if c = '\u0130' then 'I' else c)) (by decide +kernel) (by decide +kernel) h)
  · have hne : c ≠ '\u0130' := by
      rintro rfl
      exact h (by decide)
    rw [if_neg hne, slugChar, if_neg h, List.flatMap_nil]

/-- The slug of a slug is the slug of the label without dots. -/
theorem slug_slug (label : Text) : slug (slug label) = slug (undotted label) := by
  simp only [slug_eq_flatMap, undotted, List.flatMap_assoc, List.flatMap_map, flatMap_slugChar_slugChar]

/-- A slug is made of characters that are kept, but for the dots of capital letters. -/
theorem inSlug_or_dot_of_mem_slug (h : d ∈ slug label) :
    inSlug d = true ∨ d = '\u0307' ∧ '\u0130' ∈ label := by
  rw [slug_eq_flatMap] at h
  obtain ⟨c, hc, hd⟩ := List.mem_flatMap.1 h
  have hkept : inSlug c = true := by
    by_contra hnot
    rw [slugChar, if_neg hnot] at hd
    exact absurd hd List.not_mem_nil
  have hletters := test_of_inSlug (p := fun c => (slugChar c).all fun d =>
    inSlug d || d = '\u0307' && c = '\u0130') (by decide +kernel) (by decide +kernel) hkept
  have hletter : inSlug d = true ∨ d = '\u0307' ∧ c = '\u0130' := by
    simpa using List.all_eq_true.1 hletters d hd
  rcases hletter with hin | ⟨hdot, rfl⟩
  · exact .inl hin
  · exact .inr ⟨hdot, hc⟩

/-- The combining dot comes from one letter only. -/
theorem dot_mem_slug_iff : '\u0307' ∈ slug label ↔ '\u0130' ∈ label := by
  constructor
  · intro h
    rcases inSlug_or_dot_of_mem_slug h with hin | ⟨-, hmem⟩
    · exact absurd hin (by decide)
    · exact hmem
  · intro h
    rw [slug_eq_flatMap]
    exact List.mem_flatMap.2 ⟨'\u0130', h, by decide⟩

/-- No dotted capital is left. -/
theorem notMem_undotted (label : Text) : '\u0130' ∉ undotted label := by
  intro h
  obtain ⟨c, -, hc⟩ := List.mem_map.1 h
  split at hc
  · cases hc
  · contradiction

/-- A slug is its own slug exactly if no capital letter of the label has a dot. -/
theorem slug_slug_eq_iff : slug (slug label) = slug label ↔ '\u0130' ∉ label := by
  rw [slug_slug]
  constructor
  · intro h hmem
    rw [← dot_mem_slug_iff, ← h, dot_mem_slug_iff] at hmem
    exact notMem_undotted label hmem
  · intro h
    have hsame : undotted label = label := by
      rw [undotted, List.map_congr_left (g := id), List.map_id]
      rintro c hc
      exact if_neg (by rintro rfl; exact h hc)
    rw [hsame]

/-! ## What the tag of a macro invokes -/

theorem tagOf_eq_tagOf_iff {kind u v : Text} : tagOf kind u = tagOf kind v ↔ slug u = slug v := by
  simp [tagOf]

/-- A tag whose slug is not empty is read as one invocation up to its end. -/
theorem invocation?_tagOf {kind : Kind} (hkind : kind = .custom ∨ kind = .table)
    (hslug : slug label ≠ []) : invocation? (tagOf kind.name label) = some (⟨kind.name, slug label⟩, []) := by
  have hbody : ∀ d ∈ slug label, Prompt.notClosing d = true := fun d hd => by
    rcases inSlug_or_dot_of_mem_slug hd with hin | ⟨rfl, -⟩
    · rw [Prompt.notClosing, decide_eq_true_eq]
      rintro rfl
      exact absurd hin (by decide)
    · decide
  have hread : invocationOf? kind (kind.name ++ '|' :: (slug label ++ ['\x7d'])) =
      some (⟨kind.name, slug label⟩, []) := by
    rw [invocationOf?_append kind hbody (by simp [Prompt.notClosing]), if_neg hslug]
    rfl
  have htag : tagOf kind.name label =
      '#' :: '\x7b' :: (kind.name ++ '|' :: (slug label ++ ['\x7d'])) := by
    simp [tagOf]
  rw [htag, invocation?]
  rcases hkind with rfl | rfl
  · rw [hread]
  · -- the name of the other kind begins with another letter
    have hother : invocationOf? .custom (Kind.table.name ++ '|' :: (slug label ++ ['\x7d'])) = none :=
      invocationOf?_eq_none (by simp [Kind.name])
    rw [hother, hread]

/-- The tag of a custom macro or of a table whose slug is not empty is read as one invocation up to its
end. It invokes the tag of the label without dots; this is the tag itself exactly if no capital letter of
the label has a dot, and then it leads to a macro with this tag wherever the macro can be used. -/
theorem own_tag_invokes {m : Macro} (hkind : m.kind = .custom ∨ m.kind = .table)
    (hslug : slug m.label ≠ []) :
    ∃ i, invocation? m.tag = some (i, []) ∧ i.kind = m.kind.name ∧ i.label = slug m.label ∧
      i.tag = tagOf m.kind.name (undotted m.label) ∧ (i.tag = m.tag ↔ '\u0130' ∉ m.label) ∧
      ∀ actor ms, m ∈ ms → Applicable actor m → '\u0130' ∉ m.label →
        ∃ n, Entries.get? i.tag (lookup actor ms) = some n ∧ n.tag = m.tag := by
  have htag : Invocation.tag ⟨m.kind.name, slug m.label⟩ = m.tag ↔ '\u0130' ∉ m.label :=
    tagOf_eq_tagOf_iff.trans slug_slug_eq_iff
  refine ⟨⟨m.kind.name, slug m.label⟩, invocation?_tagOf hkind hslug, rfl, rfl,
    tagOf_eq_tagOf_iff.2 (slug_slug m.label), htag, fun actor ms hmem happlicable hplain => ?_⟩
  rw [htag.2 hplain]
  have hfound : (Entries.get? m.tag (lookup actor ms)).isSome = true :=
    isSome_get?_lookup.2 ⟨m, hmem, happlicable, rfl⟩
  obtain ⟨n, hn⟩ := Option.isSome_iff_exists.1 hfound
  obtain ⟨_, hfirst⟩ := exists_first hn
  exact ⟨n, hn, hfirst.tagged⟩

/-- A macro for all whose label has letters that count as ASCII letters: the Kelvin sign, a long s, and an
I without a dot. -/
def zeroKelvin : Macro := ⟨"0 \u212Aelvin, ba\u017Fic \u0131ce!".toList, .table, [], [], .all, none⟩

theorem own_tag_invokes_variants :
    (zeroKelvin.kind = .custom ∨ zeroKelvin.kind = .table) ∧ slug zeroKelvin.label ≠ [] ∧
      ∃ i, invocation? zeroKelvin.tag = some (i, []) ∧ i.tag = zeroKelvin.tag := by
  have hslug : slug zeroKelvin.label ≠ [] := by decide
  obtain ⟨i, hread, -, -, -, htag, -⟩ := own_tag_invokes (m := zeroKelvin) (.inr rfl) hslug
  exact ⟨.inr rfl, hslug, i, hread, htag.2 (by decide)⟩

/-- The tag of a macro with a dotted capital letter invokes another tag, under which a library with this
macro alone holds nothing. -/
theorem own_tag_leads_elsewhere :
    let m : Macro := ⟨['\u0130'], .custom, ['x'], [], .all, none⟩
    let i : Invocation := ⟨Kind.custom.name, slug m.label⟩
    slug m.label ≠ [] ∧ invocation? m.tag = some (i, []) ∧ i.tag ≠ m.tag ∧
      Entries.get? m.tag (lookup none [m]) = some m ∧ Entries.get? i.tag (lookup none [m]) = none := by
  decide

end Library

end TabletopChat
