import Mathlib.Data.List.TakeDrop
import Mathlib.Data.List.TakeWhile
import TabletopChat.Prompt.Resolve

/-!
# Proofs/Prompt/TagSource — what the source of a prompt tag shows

A tag that is read keeps the text it was read from. The source of a tag that offers choices holds a
comma and a bar, its delimiter follows a bar in front of which there is neither, and no value holds a
bar. So no row of choices from such a tag is written like the tag itself.

- `Atom.span_source`  : nothing is lost in reading atoms
- `Tag.Marked`        : the marks in the source of a tag
- `Tag.read?_source`, `Tag.first?_source` : a tag stands where it is read, and has its marks
- `Tag.eq_of_source`  : a tag is what its source says
- `Tag.Marked.joinWith_ne_source` : choices are not written like their tag
-/

namespace TabletopChat

namespace Actor

/-- A tag for actor data is written in double braces. -/
theorem tag?_source {t name rest : Text} (h : tag? t = some (name, rest)) :
    t = '\x7b' :: '\x7b' :: name ++ '\x7d' :: '\x7d' :: rest := by
  unfold tag? at h
  split at h
  · rename_i u
    split at h
    · rename_i after hafter
      simp only [Option.some.injEq, Prod.mk.injEq] at h
      rcases h with ⟨rfl, rfl⟩
      have hsplit := List.takeWhile_append_dropWhile (p := fun c => decide (c ≠ '\x7d')) (l := u)
      rw [hafter] at hsplit
      exact congrArg (fun v => '\x7b' :: '\x7b' :: v) hsplit.symm
    · cases h
  · cases h

end Actor

namespace Text

/-- A cut text has one piece at least. -/
theorem pieces_ne_nil (sep : Char) (t : Text) : pieces sep t ≠ [] := by
  cases t with
  | nil =>
      simp [pieces]
  | cons c cs =>
      unfold pieces
      split
      · simp
      · split <;> simp

/-- Pieces hold what was cut, except the separator. -/
theorem mem_of_mem_pieces {sep c : Char} {t p : Text} (h : p ∈ pieces sep t) (hc : c ∈ p) :
    c ∈ t ∧ c ≠ sep := by
  induction t generalizing p with
  | nil =>
      rw [pieces, List.mem_singleton] at h
      rw [h] at hc
      cases hc
  | cons d ds ih =>
      by_cases hd : d = sep
      · simp only [pieces, hd, if_true, List.mem_cons] at h
        rcases h with rfl | h
        · cases hc
        · exact ⟨List.mem_cons_of_mem _ (ih h hc).1, (ih h hc).2⟩
      · -- the first character joins the first piece
        simp only [pieces, hd, if_false] at h
        have hrest {q : Text} (hq : q ∈ pieces sep ds) (hcq : c ∈ q) : c ∈ d :: ds ∧ c ≠ sep :=
          ⟨List.mem_cons_of_mem _ (ih hq hcq).1, (ih hq hcq).2⟩
        split at h
        · rw [List.mem_singleton.1 h, List.mem_singleton] at hc
          exact ⟨by simp [hc], by rwa [hc]⟩
        · rename_i q qs hpieces
          rcases List.mem_cons.1 h with rfl | h
          · rcases List.mem_cons.1 hc with rfl | hc
            · exact ⟨List.mem_cons_self, hd⟩
            · exact hrest (by rw [hpieces]; exact List.mem_cons_self) hc
          · exact hrest (by rw [hpieces]; exact List.mem_cons_of_mem _ h) hc

theorem not_mem_of_mem_pieces {sep : Char} {t p : Text} (h : p ∈ pieces sep t) : sep ∉ p :=
  fun hsep => (mem_of_mem_pieces h hsep).2 rfl

/-- A cut gives back the text. -/
theorem cutAt_source {sep : Char} {t before behind : Text}
    (h : cutAt sep t = (before, some behind)) : t = before ++ sep :: behind := by
  induction t generalizing before with
  | nil =>
      simp [cutAt] at h
  | cons c cs ih =>
      by_cases hc : c = sep
      · simp only [cutAt, hc, if_true, Prod.mk.injEq, Option.some.injEq] at h
        rcases h with ⟨rfl, rfl⟩
        simp [hc]
      · simp only [cutAt, hc, if_false, Prod.mk.injEq] at h
        rcases h with ⟨rfl, hbehind⟩
        have hcut : cs = (cutAt sep cs).1 ++ sep :: behind := ih (Prod.ext rfl hbehind)
        simpa using hcut

theorem mem_of_mem_strip {c : Char} {t : Text} (h : c ∈ strip t) : c ∈ t := by
  have hinner := (List.dropWhile_suffix isBlank).subset (List.mem_reverse.1 h)
  exact (List.dropWhile_suffix isBlank).subset (List.mem_reverse.1 hinner)

/-- Every letter of joined texts is in one of them or between two. -/
theorem mem_joinWith {c : Char} {sep : Text} {ts : List Text} (h : c ∈ joinWith sep ts) :
    c ∈ sep ∨ ∃ t ∈ ts, c ∈ t := by
  induction ts with
  | nil =>
      cases h
  | cons t ts ih =>
      cases ts with
      | nil =>
          exact Or.inr ⟨t, by simp, h⟩
      | cons u us =>
          simp only [joinWith, List.mem_append] at h
          rcases h with (h | h) | h
          · exact Or.inr ⟨t, by simp, h⟩
          · exact Or.inl h
          · rcases ih h with hsep | ⟨v, hv, hc⟩
            · exact Or.inl hsep
            · exact Or.inr ⟨v, List.mem_cons_of_mem _ hv, hc⟩

/-- A word in letters of either case is a variant of it. -/
theorem afterCaseless?_source {word t rest : Text} (h : afterCaseless? word t = some rest) :
    ∃ name, t = name ++ rest ∧ name.map baseLetter = word := by
  induction word generalizing t with
  | nil =>
      simp only [afterCaseless?, Option.some.injEq] at h
      exact ⟨[], h, rfl⟩
  | cons w ws ih =>
      cases t with
      | nil =>
          cases h
      | cons c cs =>
          by_cases hc : baseLetter c = w
          · simp only [afterCaseless?, hc, if_true] at h
            rcases ih h with ⟨name, rfl, hname⟩
            exact ⟨c :: name, rfl, by simp [hc, hname]⟩
          · simp [afterCaseless?, hc] at h

/-- What follows the first comma of a text does not count up to that comma. -/
theorem takeWhile_comma_append {d : Text} (before after : Text) (hbefore : ',' ∉ before)
    (hd : ',' ∈ d) :
    (before ++ (d ++ after)).takeWhile (· ≠ ',') = before ++ d.takeWhile (· ≠ ',') := by
  rw [List.takeWhile_append_of_pos, List.takeWhile_append]
  · split
    · rename_i hlength
      have hself := (List.takeWhile_prefix _).eq_of_length hlength
      have hall := List.takeWhile_eq_self_iff.1 hself ',' hd
      simp at hall
    · rfl
  · intro c hc
    simp only [ne_eq, decide_eq_true_eq]
    rintro rfl
    exact hbefore hc

end Text

namespace Prompt

/-! ## Atoms -/

namespace Atom

/-- An atom that was read is the front of the text. -/
theorem first?_source {t rest : Text} {a : Atom} (h : first? t = some (a, rest)) :
    t = a.source ++ rest := by
  cases t with
  | nil =>
      cases h
  | cons c cs =>
      by_cases hopen : c = '\x7b'
      · simp only [first?, hopen, if_true] at h
        split at h
        · rename_i n name after htag
          cases h
          rw [hopen, Actor.tag?_source htag]
          simp [source]
        · cases h
      · by_cases hclose : c = '\x7d'
        · simp [first?, hclose] at h
        · simp only [first?, hopen, hclose, if_false, Option.some.injEq, Prod.mk.injEq] at h
          rcases h with ⟨rfl, rfl⟩
          rfl

/-- The atoms at the beginning of a text are written there. -/
theorem spanFrom_source (fuel : Nat) (t : Text) :
    t = sourceOf (spanFrom fuel t).1 ++ (spanFrom fuel t).2 := by
  induction fuel generalizing t with
  | zero =>
      rfl
  | succ fuel ih =>
      unfold spanFrom
      split
      · rfl
      · rename_i a rest hfirst
        have hrest := ih rest
        rw [first?_source hfirst]
        simpa [sourceOf] using hrest

theorem span_source {t rest : Text} {as : List Atom} (h : span t = (as, rest)) :
    t = sourceOf as ++ rest := by
  have hspan := spanFrom_source t.length t
  rw [span] at h
  rwa [h] at hspan

/-- A text that is all atoms is their source. -/
theorem all?_source {t : Text} {as : List Atom} (h : all? t = some as) : t = sourceOf as := by
  unfold all? at h
  split at h
  · rename_i bs hspan
    cases h
    simpa using span_source hspan
  · cases h

/-- Atoms in braces are written in them. -/
theorem inBraces?_source {t rest : Text} {as : List Atom} (h : inBraces? t = some (as, rest)) :
    t = '?' :: '\x7b' :: sourceOf as ++ '\x7d' :: rest := by
  unfold inBraces? at h
  split at h
  · rename_i u
    split at h
    · rename_i bs after hspan
      simp only [Option.some.injEq, Prod.mk.injEq] at h
      rcases h with ⟨rfl, rfl⟩
      rw [span_source hspan]
      rfl
    · cases h
  · cases h

theorem mem_sourceOf {c : Char} {as : List Atom} (h : Atom.plain c ∈ as) : c ∈ sourceOf as := by
  rw [sourceOf, List.mem_flatMap]
  exact ⟨.plain c, h, by simp [source]⟩

/-- Atoms that are cut at all hold a bar. -/
theorem bar_mem_of_segments {as s : List Atom} {t : List (List Atom)} (h : segments as = s :: t)
    (ht : t ≠ []) : Atom.plain '|' ∈ as := by
  induction as generalizing s t with
  | nil =>
      simp only [segments, List.cons.injEq] at h
      exact (ht h.2.symm).elim
  | cons a as ih =>
      by_cases hbar : a = .plain '|'
      · simp [hbar]
      · simp only [segments, hbar, if_false] at h
        split at h
        · simp only [List.cons.injEq] at h
          exact (ht h.2.symm).elim
        · rename_i u us hseg
          simp only [List.cons.injEq] at h
          rcases h with ⟨_, rfl⟩
          exact List.mem_cons_of_mem _ (ih hseg ht)

/-- Segments hold nothing but what was cut. -/
theorem mem_of_segments {as s : List Atom} {a : Atom} (hs : s ∈ segments as) (ha : a ∈ s) :
    a ∈ as := by
  induction as generalizing s with
  | nil =>
      simp only [segments, List.mem_singleton] at hs
      simp [hs] at ha
  | cons b as ih =>
      by_cases hbar : b = .plain '|'
      · simp only [segments, hbar, if_true, List.mem_cons] at hs
        rcases hs with rfl | hs
        · cases ha
        · exact List.mem_cons_of_mem _ (ih hs ha)
      · simp only [segments, hbar, if_false] at hs
        split at hs
        · simp only [List.mem_singleton] at hs
          rw [hs, List.mem_singleton] at ha
          simp [ha]
        · rename_i u us hseg
          rw [List.mem_cons] at hs
          rcases hs with rfl | hs
          · rw [List.mem_cons] at ha
            rcases ha with rfl | ha
            · simp
            · exact List.mem_cons_of_mem _ (ih (by rw [hseg]; simp) ha)
          · exact List.mem_cons_of_mem _ (ih (by rw [hseg]; simp [hs]) ha)

end Atom

/-! ## Choices -/

/-- A segment in the form of a choice holds a comma. -/
theorem comma_mem_of_isItem {s : List Atom} (h : isItem s = true) : Atom.plain ',' ∈ s := by
  unfold isItem at h
  rw [List.span_eq_takeWhile_dropWhile] at h
  split at h
  · rename_i a as b c cs heq
    simp only [Prod.mk.injEq] at heq
    have hmem : b ∈ s := by
      have hdrop : b ∈ s.dropWhile fun x => decide (x ≠ .plain ',') := by
        rw [heq.2]
        exact List.mem_cons_self
      exact (List.dropWhile_suffix _).subset hdrop
    have hhead := List.head?_dropWhile_not (fun x => decide (x ≠ Atom.plain ',')) s
    rw [heq.2] at hhead
    simp at hhead
    rwa [← hhead]
  · cases h

/-- The values of choices have no bars. -/
theorem Choice.bar_not_mem_value {items : Text} {c : Choice} (h : c ∈ Choice.ofItems items) :
    '|' ∉ c.value := by
  rw [Choice.ofItems, List.mem_map] at h
  rcases h with ⟨item, hitem, rfl⟩
  have hbar := Text.not_mem_of_mem_pieces (List.mem_filter.1 hitem).1
  unfold Choice.ofItem
  split
  · rename_i label value hcut
    intro hmem
    rw [Text.cutAt_source hcut] at hbar
    exact hbar (by simp [Text.mem_of_mem_strip hmem])
  · simp

/-- The main part of a choice holds no comma, and no bar if the value holds none. -/
theorem Choice.marks_not_mem_mainPart {c : Choice} (h : '|' ∉ c.value) :
    ',' ∉ c.mainPart ∧ '|' ∉ c.mainPart := by
  have hmain : c.mainPart ∈ Text.pieces ',' c.value := by
    unfold Choice.mainPart Choice.parts
    cases hpieces : Text.pieces ',' c.value with
    | nil =>
        exact (Text.pieces_ne_nil _ _ hpieces).elim
    | cons p ps =>
        simp
  exact ⟨Text.not_mem_of_mem_pieces hmain, fun hmem => h (Text.mem_of_mem_pieces hmain hmem).1⟩

/-! ## Heads -/

/-- The name of a kind has neither a comma nor a bar. -/
theorem kind?_source {t rest : Text} {kind : Kind} (h : kind? t = some (kind, rest)) :
    ∃ name, t = name ++ rest ∧ ',' ∉ name ∧ '|' ∉ name := by
  rw [kind?] at h
  rcases List.exists_of_findSome?_eq_some h with ⟨word, hword, hsome⟩
  rcases Option.map_eq_some_iff.1 hsome with ⟨after, hafter, heq⟩
  rw [Prod.mk.injEq] at heq
  rcases Text.afterCaseless?_source hafter with ⟨name, hname, hbase⟩
  -- letters of a name may be of any case, but marks have none
  have hmark (c : Char) (hc : Text.baseLetter c = c) (hnot : ∀ w ∈ Kind.names, c ∉ w) : c ∉ name := by
    intro hmem
    apply hnot word hword
    rw [← hbase, List.mem_map]
    exact ⟨c, hmem, hc⟩
  exact ⟨name, by rw [hname, heq.2], hmark ',' (by decide) (by decide),
    hmark '|' (by decide) (by decide)⟩

/-- A delimiter that a head writes follows a bar, in front of which there is neither comma nor bar. -/
theorem head?_source {t rest : Text} {head : Head} (h : head? t = some (head, rest)) :
    ∃ lead, t = lead ++ rest ∧ (head.delimiter = standardDelimiter ∨
      ∃ name, lead = name ++ '|' :: head.delimiter ++ [']'] ∧ ',' ∉ name ∧ '|' ∉ name) := by
  unfold head? at h
  split at h
  · rename_i u
    split at h
    · rename_i kind after hkind
      rcases kind?_source hkind with ⟨name, rfl, _⟩
      simp only [Option.some.injEq, Prod.mk.injEq] at h
      rcases h with ⟨rfl, rfl⟩
      exact ⟨'[' :: name ++ [']'], by simp, Or.inl rfl⟩
    · rename_i kind more hkind
      rcases kind?_source hkind with ⟨name, rfl, hcomma, hbar⟩
      split at h
      · rename_i delimiter after hcut
        simp only [Option.some.injEq, Prod.mk.injEq] at h
        rcases h with ⟨rfl, rfl⟩
        rw [Text.cutAt_source hcut]
        refine ⟨('[' :: name) ++ '|' :: delimiter ++ [']'], by simp, Or.inr ⟨'[' :: name, rfl, ?_, ?_⟩⟩
        · simp [hcomma]
        · simp [hbar]
      · cases h
    · cases h
  · cases h

/-! ## Marks -/

/-- What the source of a tag shows. If the tag offers choices, there are a comma and a bar; no value
holds a bar; and a delimiter that is not the standard one follows the first bar, in front of which there
is no comma. -/
structure Tag.Marked (tag : Tag) : Prop where
  marks : tag.choices ≠ [] → ',' ∈ tag.source ∧ '|' ∈ tag.source
  values : ∀ c ∈ tag.choices, '|' ∉ c.value
  delimiter : tag.delimiter = standardDelimiter ∨
    ∃ lead behind, tag.source = lead ++ '|' :: tag.delimiter ++ behind ∧ ',' ∉ lead ∧ '|' ∉ lead

/-- A tag is read with its own source and its own delimiter. -/
theorem Tag.ofAtoms?_source {head : Head} {source : Text} {as : List Atom} {tag : Tag}
    (h : Tag.ofAtoms? head source as = some tag) :
    tag.source = source ∧ tag.delimiter = head.delimiter := by
  unfold Tag.ofAtoms? at h
  split at h
  · cases h
    exact ⟨rfl, rfl⟩
  · cases h

/-- A tag with choices has a comma and a bar in its source. -/
theorem Tag.ofAtoms?_marks {head : Head} {source : Text} {as : List Atom} {tag : Tag}
    (h : Tag.ofAtoms? head source as = some tag) :
    (tag.choices ≠ [] → ',' ∈ Atom.sourceOf as ∧ '|' ∈ Atom.sourceOf as) ∧
      ∀ c ∈ tag.choices, '|' ∉ c.value := by
  unfold Tag.ofAtoms? at h
  split at h
  · rename_i q query rest hseg
    cases h
    refine ⟨?_, fun c hc => Choice.bar_not_mem_value hc⟩
    intro hchoices
    -- choices come from segments behind a bar, and the first of these has the form of a choice
    have hitems : rest.takeWhile isItem ≠ [] := by
      intro hnil
      simp [hnil, Choice.ofItems, Atom.sourceOfSegments, Text.joinWith, Text.pieces] at hchoices
    cases rest with
    | nil =>
        exact (hitems rfl).elim
    | cons s ss =>
        have hitem : isItem s = true := by
          by_contra hnot
          simp [hnot] at hitems
        have hmem : Atom.plain ',' ∈ as :=
          Atom.mem_of_segments (by rw [hseg]; simp) (comma_mem_of_isItem hitem)
        have hbar : Atom.plain '|' ∈ as := Atom.bar_mem_of_segments hseg (by simp)
        exact ⟨Atom.mem_sourceOf hmem, Atom.mem_sourceOf hbar⟩
  · cases h

/-- A tag that is read has its marks in its source. -/
theorem Tag.ofInner?_marked {source before inner behind : Text} {tag : Tag}
    (hsource : source = before ++ inner ++ behind) (hbefore : ',' ∉ before ∧ '|' ∉ before)
    (h : Tag.ofInner? source inner = some tag) : tag.source = source ∧ tag.Marked := by
  unfold Tag.ofInner? at h
  split at h
  · cases h
  · split at h
    · rename_i headed hheaded
      cases h
      unfold Tag.headed? at hheaded
      split at hheaded
      · rename_i head rest hhead
        -- a tag with a head: what stands in front of its delimiter is the beginning of the head
        rcases head?_source hhead with ⟨lead, rfl, hdelimiter⟩
        rcases Option.bind_eq_some_iff.1 hheaded with ⟨as, hall, hatoms⟩
        have hrest := Atom.all?_source hall
        rcases Tag.ofAtoms?_source hatoms with ⟨htag, hhd⟩
        rcases Tag.ofAtoms?_marks hatoms with ⟨hmarks, hvalues⟩
        refine ⟨htag, ?_, hvalues, ?_⟩
        · intro hchoices
          rw [htag, hsource, hrest]
          simp [hmarks hchoices]
        · rw [htag, hhd]
          rcases hdelimiter with hstandard | ⟨name, rfl, hcomma, hbar⟩
          · exact Or.inl hstandard
          · refine Or.inr ⟨before ++ name, ']' :: rest ++ behind, by simp [hsource], ?_, ?_⟩
            · simp [hbefore.1, hcomma]
            · simp [hbefore.2, hbar]
      · cases hheaded
    · rcases Option.bind_eq_some_iff.1 h with ⟨as, hall, hatoms⟩
      have hinner := Atom.all?_source hall
      rcases Tag.ofAtoms?_source hatoms with ⟨htag, hhd⟩
      -- without a head the delimiter is the standard one
      rcases Tag.ofAtoms?_marks hatoms with ⟨hmarks, hvalues⟩
      refine ⟨htag, ?_, hvalues, Or.inl hhd⟩
      intro hchoices
      rw [htag, hsource, hinner]
      simp [hmarks hchoices]

/-! ## Reading tags -/

/-- A tag is what its source says, which shows its marks and stands where the tag is read. -/
theorem Tag.read?_spec {t rest : Text} {tag : Tag} (h : Tag.read? t = some (tag, rest)) :
    t = tag.source ++ rest ∧ tag.Marked ∧
      ∃ inner, tag.source = '?' :: '\x7b' :: inner ++ ['\x7d'] ∧ Tag.ofInner? tag.source inner = some tag := by
  unfold Tag.read? at h
  split at h
  · rename_i as after hbraces
    rcases Option.map_eq_some_iff.1 h with ⟨read, hread, heq⟩
    rw [Prod.mk.injEq] at heq
    rcases heq with ⟨rfl, rfl⟩
    have hinner : ('?' :: '\x7b' :: Atom.sourceOf as ++ ['\x7d'] : Text) =
        ['?', '\x7b'] ++ Atom.sourceOf as ++ ['\x7d'] := rfl
    rcases Tag.ofInner?_marked hinner (by decide) hread with ⟨hsource, hmarked⟩
    refine ⟨?_, hmarked, Atom.sourceOf as, hsource, hsource ▸ hread⟩
    rw [Atom.inBraces?_source hbraces, hsource]
    simp
  · cases h

/-- A tag keeps the text it was read from, and shows in it what it says. -/
theorem Tag.read?_source {t rest : Text} {tag : Tag} (h : Tag.read? t = some (tag, rest)) :
    t = tag.source ++ rest ∧ tag.Marked :=
  ⟨(Tag.read?_spec h).1, (Tag.read?_spec h).2.1⟩

/-- The first tag of a text stands in it as it is written. -/
theorem Tag.first?_source {t before after : Text} {tag : Tag}
    (h : Tag.first? t = some (before, tag, after)) :
    t = before ++ tag.source ++ after ∧ Tag.read? (tag.source ++ after) = some (tag, after) := by
  induction t generalizing before with
  | nil =>
      cases h
  | cons c cs ih =>
      unfold Tag.first? at h
      split at h
      · rename_i read rest hread
        cases h
        have hsource := (Tag.read?_source hread).1
        exact ⟨by simpa using hsource, by rw [← hsource]; exact hread⟩
      · rcases Option.map_eq_some_iff.1 h with ⟨⟨before', tag', after'⟩, hfirst, heq⟩
        simp only [Prod.mk.injEq] at heq
        rcases heq with ⟨rfl, rfl, rfl⟩
        rcases ih hfirst with ⟨hcs, hread⟩
        exact ⟨by simp [hcs], hread⟩

/-- Tags with the same source are the same. -/
theorem Tag.eq_of_source {t t' rest rest' : Text} {tag tag' : Tag} (h : Tag.read? t = some (tag, rest))
    (h' : Tag.read? t' = some (tag', rest')) (hsource : tag.source = tag'.source) : tag = tag' := by
  obtain ⟨-, -, inner, hs, hinner⟩ := Tag.read?_spec h
  obtain ⟨-, -, inner', hs', hinner'⟩ := Tag.read?_spec h'
  have hsame : inner = inner' := by
    rw [hs, hs'] at hsource
    simpa using hsource
  rw [hsource, hsame, hinner'] at hinner
  exact (Option.some.inj hinner).symm

/-! ## Choices are not written like their tag -/

/-- Texts without commas and bars, with the delimiter of a tag between them, are not the source of the
tag. -/
theorem Tag.Marked.joinWith_ne_source {tag : Tag} (h : tag.Marked) (hchoices : tag.choices ≠ [])
    {ts : List Text} (hts : ∀ t ∈ ts, ',' ∉ t ∧ '|' ∉ t) :
    Text.joinWith tag.delimiter ts ≠ tag.source := by
  intro heq
  rcases h.marks hchoices with ⟨hcomma, hbar⟩
  -- what the texts do not hold, the delimiter must hold
  have hdelimiter {c : Char} (hnot : ∀ t ∈ ts, c ∉ t) (hc : c ∈ tag.source) : c ∈ tag.delimiter := by
    rcases Text.mem_joinWith (heq ▸ hc) with hmem | ⟨t, ht, hmem⟩
    · exact hmem
    · exact (hnot t ht hmem).elim
  have hcommad := hdelimiter (fun t ht => (hts t ht).1) hcomma
  have hbard := hdelimiter (fun t ht => (hts t ht).2) hbar
  rcases h.delimiter with hstandard | ⟨lead, behind, hsource, hlead, _⟩
  · rw [hstandard] at hbard
    revert hbard
    decide
  · cases ts with
    | nil =>
        rw [← heq] at hcomma
        cases hcomma
    | cons t ts =>
        cases ts with
        | nil =>
            rw [← heq] at hcomma
            exact (hts t (by simp)).1 hcomma
        | cons u us =>
            -- both texts up to the first comma: `t` is what stands in front of the delimiter
            have hjoined := Text.takeWhile_comma_append t (Text.joinWith tag.delimiter (u :: us))
              (hts t (by simp)).1 hcommad
            have hwritten := Text.takeWhile_comma_append (lead ++ ['|']) behind (by simp [hlead]) hcommad
            have htake : t ++ tag.delimiter.takeWhile (· ≠ ',') =
                (lead ++ ['|']) ++ tag.delimiter.takeWhile (· ≠ ',') := by
              rw [← hjoined, ← hwritten]
              congr 1
              simpa [Text.joinWith, hsource] using heq
            have hlead : t = lead ++ ['|'] := List.append_cancel_right htake
            exact (hts t (by simp)).2 (by simp [hlead])

end Prompt

end TabletopChat
