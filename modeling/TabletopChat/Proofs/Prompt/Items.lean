import TabletopChat.Proofs.Prompt.Searching

/-!
# Proofs/Prompt/Items — the choices of a tag and the items that write them

The form of a tag takes the items of its choices as atoms, so that a comma or a bar inside of a tag for
actor data is no mark. The choices are then read from the text of the items, where every bar and the first
comma of an item count. Both find the same choices where no actor data has a mark in its name. Likewise
the form takes the name of a kind in letters that are case variants of its own, but the kind is known by
the small forms of these letters, which for three of them are other letters.

- `Item`, `Item.choice`    : a label and a value as atoms, and the choice that they write
- `Item.Unmarked`          : names of actor data without marks
- `ofItems_sourceOf`       : the choices that are read from the text of items
- `Item.eq_of_sourceOf`    : items are known by their text
- `strayLetters`           : case variants whose small form is another letter
- `choices_are_items`      : the first tag of a text
-/

namespace TabletopChat

namespace Text

variable {sep : Char} {t : Text}

/-! ## Pieces -/

/-- A text without separators is one piece. -/
theorem pieces_eq_single (h : sep ∉ t) : pieces sep t = [t] := by
  induction t with
  | nil => rfl
  | cons c cs ih =>
      rw [List.mem_cons, not_or] at h
      rw [pieces, if_neg (Ne.symm h.1), ih h.2]

/-- A piece ends at the first separator. -/
theorem pieces_append (h : sep ∉ t) (rest : Text) : pieces sep (t ++ sep :: rest) = t :: pieces sep rest := by
  induction t with
  | nil => rw [List.nil_append, pieces, if_pos rfl]
  | cons c cs ih =>
      rw [List.mem_cons, not_or] at h
      rw [List.cons_append, pieces, if_neg (Ne.symm h.1), ih h.2]

/-- Texts that are joined by a separator which they do not hold are the pieces. -/
theorem pieces_joinWith {ts : List Text} (hne : ts ≠ []) (h : ∀ t ∈ ts, sep ∉ t) :
    pieces sep (joinWith [sep] ts) = ts := by
  induction ts with
  | nil => exact absurd rfl hne
  | cons t ts ih =>
      rw [List.forall_mem_cons] at h
      cases ts with
      | nil => exact pieces_eq_single h.1
      | cons u us =>
          have hjoined : joinWith [sep] (t :: u :: us) = t ++ sep :: joinWith [sep] (u :: us) := by
            simp [joinWith]
          rw [hjoined, pieces_append h.1, ih (List.cons_ne_nil u us) h.2]

/-! ## Small forms -/

/-- The case variants of ASCII letters whose small form is not the letter that they are variants of. -/
def strayLetters : List Char := [Char.ofNat 0x17F, Char.ofNat 0x130, Char.ofNat 0x131]

/-- But for three letters, the small form of a letter is the letter that it is a variant of. -/
theorem lowerChar_of_notMem {c : Char} (h : c ∉ strayLetters) : lowerChar c = [baseLetter c] := by
  have hne (n : Nat) (hn : Char.ofNat n ∈ strayLetters) : c.toNat ≠ n := by
    rintro rfl
    rw [Char.ofNat_toNat] at hn
    exact h hn
  unfold lowerChar baseLetter
  split
  · rename_i hkelvin
    rw [hkelvin]
    rfl
  · rename_i hdotted
    exact absurd hdotted (hne _ (by decide))
  · rename_i hkelvin hdotted
    split
    · rename_i hlong
      exact absurd hlong (hne _ (by decide))
    · rename_i heq
      exact absurd heq hkelvin
    · rename_i heq
      exact absurd heq hdotted
    · rename_i hdotless
      exact absurd hdotless (hne _ (by decide))
    · rfl

/-- Letters outside the stray ones have one small form, letter by letter. -/
theorem lower_of_notMem (h : ∀ c ∈ t, c ∉ strayLetters) : lower t = t.map baseLetter := by
  induction t with
  | nil => rfl
  | cons c cs ih =>
      rw [List.forall_mem_cons] at h
      have hrest : cs.flatMap lowerChar = cs.map baseLetter := ih h.2
      rw [lower, List.flatMap_cons, lowerChar_of_notMem h.1, hrest, List.map_cons, List.singleton_append]

/-- A stray letter leaves one that is not an ASCII letter. -/
theorem exists_mem_lower {c : Char} (hc : c ∈ strayLetters) (ht : c ∈ t) : ∃ d ∈ lower t, 128 ≤ d.toNat := by
  have hstray : strayLetters.all (fun c => (lowerChar c).any fun d => 128 ≤ d.toNat) = true := rfl
  obtain ⟨d, hd, hlarge⟩ := List.any_eq_true.1 (List.all_eq_true.1 hstray c hc)
  exact ⟨d, List.mem_flatMap.2 ⟨c, ht, hd⟩, of_decide_eq_true hlarge⟩

end Text

namespace Prompt

open Regex

/-! ## Kinds -/

/-- The kind of a name that is written in case variants is one of the known ones, unless stray letters
are among them. -/
theorem ofName_lower_iff {name : Text} (h : name.map Text.baseLetter ∈ Kind.names) :
    Kind.ofName (Text.lower name) ∈ [Kind.list, Kind.checkbox, Kind.radio] ↔
      ∀ c ∈ name, c ∉ Text.strayLetters := by
  constructor
  · intro hkind c hc hstray
    obtain ⟨d, hd, hlarge⟩ := Text.exists_mem_lower hstray hc
    have hascii : Kind.names.all (fun w => w.all fun d => d.toNat < 128) = true := rfl
    have hnot : Text.lower name ∉ Kind.names := fun hmem => by
      have hsmall := of_decide_eq_true (List.all_eq_true.1 (List.all_eq_true.1 hascii _ hmem) d hd)
      omega
    simp only [Kind.names, List.mem_cons, List.not_mem_nil, or_false, not_or] at hnot
    rw [Kind.ofName, if_neg hnot.1, if_neg hnot.2.1, if_neg hnot.2.2] at hkind
    simp at hkind
  · intro hnone
    rw [Text.lower_of_notMem hnone]
    have hknown : ∀ w ∈ Kind.names, Kind.ofName w ∈ [Kind.list, Kind.checkbox, Kind.radio] := by decide
    exact hknown _ h

/-! ## Items -/

/-- What writes a choice. -/
structure Item where
  label : List Atom
  value : List Atom

namespace Item

def atoms (i : Item) : List Atom := i.label ++ .plain ',' :: i.value

/-- A label without commas and a value, neither of them empty nor with bars or braces of their own. -/
structure WellFormed (i : Item) : Prop where
  label_ne_nil : i.label ≠ []
  value_ne_nil : i.value ≠ []
  label : Atom.All inLabel i.label
  value : Atom.All inSegment i.value

def choice (i : Item) : Choice :=
  ⟨Text.strip (Atom.sourceOf i.label), Text.strip (Atom.sourceOf i.value), false⟩

/-- No actor data of an item has a mark in its name that counts where it stands. -/
structure Unmarked (i : Item) : Prop where
  label : ∀ name, Atom.actor name ∈ i.label → ',' ∉ name ∧ '|' ∉ name
  value : ∀ name, Atom.actor name ∈ i.value → '|' ∉ name

def sourceOf (items : List Item) : Text := Atom.sourceOfSegments (items.map atoms)

end Item

/-- The atoms of an item are those of a segment. -/
theorem Item.WellFormed.atoms {i : Item} (h : i.WellFormed) : Atom.All inSegment i.atoms := by
  intro a ha
  rcases List.mem_append.1 ha with ha | ha
  · refine ⟨(h.label a ha).1, ?_⟩
    have hin := (h.label a ha).2
    cases a with
    | plain c => exact (Bool.and_eq_true _ _ ▸ hin : _ ∧ _).2
    | actor name => rfl
  · rcases List.mem_cons.1 ha with rfl | ha
    · exact ⟨⟨by decide, by decide⟩, by decide⟩
    · exact h.value a ha

/-- A segment in the form of a choice is an item. -/
theorem exists_item {s : List Atom} (hs : Atom.All inSegment s) (hitem : isItem s = true) :
    ∃ i : Item, i.WellFormed ∧ i.atoms = s := by
  obtain ⟨label, hlabel, ⟨-, hnot⟩ | ⟨value, rfl, hvalue, hiff⟩⟩ := segment_cases hs
  · rw [hnot] at hitem
    cases hitem
  · obtain ⟨hlabelne, hvaluene⟩ := hiff.1 hitem
    exact ⟨⟨label, value⟩, ⟨hlabelne, hvaluene, hlabel, hvalue⟩, rfl⟩

/-- Segments in the form of choices are items. -/
theorem exists_items {ss : List (List Atom)} (hss : ∀ s ∈ ss, Atom.All inSegment s ∧ isItem s = true) :
    ∃ items : List Item, (∀ i ∈ items, i.WellFormed) ∧ items.map Item.atoms = ss := by
  induction ss with
  | nil => exact ⟨[], List.forall_mem_nil _, rfl⟩
  | cons s ss ih =>
      rw [List.forall_mem_cons] at hss
      obtain ⟨i, hi, rfl⟩ := exists_item hss.1.1 hss.1.2
      obtain ⟨items, hitems, rfl⟩ := ih hss.2
      exact ⟨i :: items, List.forall_mem_cons.2 ⟨hi, hitems⟩, rfl⟩

/-- A mark that is in no class stands only inside of tags for actor data. -/
theorem notMem_sourceOf {p : Char → Bool} {c : Char} {as : List Atom} (has : Atom.All p as)
    (hp : p c = false) (hbrace : noBrace c = true) (hactors : ∀ name, Atom.actor name ∈ as → c ∉ name) :
    c ∉ Atom.sourceOf as := by
  simp only [noBrace, Bool.and_eq_true, decide_eq_true_eq] at hbrace
  intro hc
  obtain ⟨a, ha, hca⟩ := List.mem_flatMap.1 hc
  cases a with
  | plain d =>
      obtain rfl : c = d := List.mem_singleton.1 hca
      have hin : p c = true := (has _ ha).2
      rw [hp] at hin
      cases hin
  | actor name =>
      have hname := hactors name ha
      simp [Atom.source, hname, hbrace.1, hbrace.2] at hca

section Source

variable {i : Item} (h : i.WellFormed) (hu : i.Unmarked)

include h hu

theorem bar_notMem_item : '|' ∉ Atom.sourceOf i.atoms := by
  have hlabel := notMem_sourceOf h.label (c := '|') (by decide) (by decide) fun name hn => (hu.label name hn).2
  have hvalue := notMem_sourceOf h.value (c := '|') (by decide) (by decide) hu.value
  rw [Item.atoms, Atom.sourceOf_append, Atom.sourceOf_cons]
  simp [Atom.source, hlabel, hvalue]

/-- The text of an item is read as its choice. -/
theorem ofItem_sourceOf : Choice.ofItem (Atom.sourceOf i.atoms) = i.choice := by
  have hlabel := notMem_sourceOf h.label (c := ',') (by decide) (by decide) fun name hn => (hu.label name hn).1
  have hsource : Atom.sourceOf i.atoms = Atom.sourceOf i.label ++ ',' :: Atom.sourceOf i.value := by
    rw [Item.atoms, Atom.sourceOf_append, Atom.sourceOf_cons]
    rfl
  rw [hsource, Choice.ofItem, Text.cutAt_append hlabel]
  rfl

end Source

/-- The text of items is read as their choices. -/
theorem ofItems_sourceOf {items : List Item} (h : ∀ i ∈ items, i.WellFormed) (hu : ∀ i ∈ items, i.Unmarked) :
    Choice.ofItems (Item.sourceOf items) = items.map Item.choice := by
  cases items with
  | nil => rfl
  | cons i is =>
      have hpieces : Text.pieces '|' (Item.sourceOf (i :: is)) =
          (i :: is).map fun j => Atom.sourceOf j.atoms := by
        rw [Item.sourceOf, Atom.sourceOfSegments, List.map_map]
        refine Text.pieces_joinWith (List.cons_ne_nil _ _) fun t ht => ?_
        obtain ⟨j, hj, rfl⟩ := List.mem_map.1 ht
        exact bar_notMem_item (h j hj) (hu j hj)
      have hfilter : ((i :: is).map fun j => Atom.sourceOf j.atoms).filter (fun t => !t.isEmpty) =
          (i :: is).map fun j => Atom.sourceOf j.atoms := by
        refine List.filter_eq_self.2 fun t ht => ?_
        obtain ⟨j, -, rfl⟩ := List.mem_map.1 ht
        simp [Item.atoms, Atom.sourceOf_append, Atom.sourceOf_cons, Atom.source]
      rw [Choice.ofItems, hpieces, hfilter, List.map_map]
      exact List.map_congr_left fun j hj => ofItem_sourceOf (h j hj) (hu j hj)

/-! ## Items in a text -/

/-- Behind a label without commas of its own, the first comma is the mark. -/
theorem Item.eq_of_atoms {i j : Item} (hi : i.WellFormed) (hj : j.WellFormed) (h : i.atoms = j.atoms) :
    i = j := by
  -- the first comma tells the label from the value
  have hcut {k : Item} (hk : k.WellFormed) :
      k.atoms.takeWhile (fun a => decide (a ≠ .plain ',')) = k.label ∧
        k.atoms.dropWhile (fun a => decide (a ≠ .plain ',')) = .plain ',' :: k.value := by
    have hlabel : ∀ a ∈ k.label, decide (a ≠ .plain ',') = true := by
      intro a ha
      refine decide_eq_true fun hcomma => ?_
      have hin := (hk.label a ha).2
      rw [hcomma] at hin
      exact absurd hin (by decide)
    exact takeWhile_dropWhile_append hlabel (by simp)
  obtain ⟨hitake, hidrop⟩ := hcut hi
  obtain ⟨hjtake, hjdrop⟩ := hcut hj
  rw [h] at hitake hidrop
  have hlabel : i.label = j.label := hitake.symm.trans hjtake
  have hvalue : i.value = j.value := (List.cons.inj (hidrop.symm.trans hjdrop)).2
  cases i
  cases j
  rw [Item.mk.injEq]
  exact ⟨hlabel, hvalue⟩

/-- Items with the same atoms are the same. -/
theorem Item.eq_of_map_atoms {is js : List Item} (his : ∀ i ∈ is, i.WellFormed)
    (hjs : ∀ j ∈ js, j.WellFormed) (h : is.map Item.atoms = js.map Item.atoms) : is = js := by
  induction is generalizing js with
  | nil => exact (List.map_eq_nil_iff.1 h.symm).symm
  | cons i is ih =>
      cases js with
      | nil => cases h
      | cons j js =>
          rw [List.forall_mem_cons] at his hjs
          rw [List.map_cons, List.map_cons, List.cons.injEq] at h
          rw [Item.eq_of_atoms his.1 hjs.1 h.1, ih his.2 hjs.2 h.2]

/-- Items are known by the text that they are written as. -/
theorem Item.eq_of_sourceOf {is js : List Item} (his : ∀ i ∈ is, i.WellFormed)
    (hjs : ∀ j ∈ js, j.WellFormed) (h : Item.sourceOf is = Item.sourceOf js) : is = js := by
  have hsegments {ks : List Item} (hks : ∀ k ∈ ks, k.WellFormed) :
      ∀ s ∈ ks.map Item.atoms, Atom.All inSegment s := by
    intro s hs
    obtain ⟨k, hk, rfl⟩ := List.mem_map.1 hs
    exact (hks k hk).atoms
  have hread {ks : List Item} (hks : ∀ k ∈ ks, k.WellFormed) :
      Atom.all? (Item.sourceOf ks) = some (Atom.joined (ks.map Item.atoms)) := by
    rw [Item.sourceOf, ← Atom.sourceOf_joined]
    exact Atom.all?_sourceOf (Atom.written_joined (hsegments hks))
  have hjoined : Atom.joined (is.map Item.atoms) = Atom.joined (js.map Item.atoms) := by
    have hsame := hread his
    rw [h, hread hjs] at hsame
    exact (Option.some.inj hsame).symm
  -- each item has a comma, so that no items and some items are told apart
  have hnone {k : Item} {ks : List Item} : Atom.joined ((k :: ks).map Item.atoms) ≠ [] := by
    simp [Atom.joined, Item.atoms]
  cases is with
  | nil =>
      cases js with
      | nil => rfl
      | cons j js => exact absurd hjoined.symm hnone
  | cons i is =>
      cases js with
      | nil => exact absurd hjoined hnone
      | cons j js =>
          have hcut {k : Item} {ks : List Item} (hks : ∀ l ∈ k :: ks, l.WellFormed) :
              Atom.segments (Atom.joined ((k :: ks).map Item.atoms)) = (k :: ks).map Item.atoms :=
            Atom.segments_joined fun s hs => Atom.bar_not_mem_of_all (hsegments hks s hs)
          have hatoms : (i :: is).map Item.atoms = (j :: js).map Item.atoms := by
            rw [← hcut his, hjoined, hcut hjs]
          exact Item.eq_of_map_atoms his hjs hatoms

/-! ## Matches -/

/-- The atoms of a text are written ones. -/
theorem Atom.written_of_all? {t : Text} {as : List Atom} (h : Atom.all? t = some as) :
    ∀ a ∈ as, a.Written := by
  obtain ⟨bs, e, rfl, hbs, he⟩ := Atom.exists_atoms t
  rw [Atom.all?, Atom.span_append hbs he] at h
  cases e with
  | nil => cases h; exact hbs
  | cons c cs => cases h

/-- What the form of a tag takes in a span: a body, and in front of it a head or none. -/
theorem matchAll?_cases {inner : Text} {m : Match} (h : promptPattern.matchAll? (spanSource inner) = some m) :
    ∃ g as, (∀ a ∈ as, a.Written) ∧ bodyMatch (spanSource inner) g as = some m ∧
      (g = [] ∨ ∃ name delimiter, IsHead name delimiter ∧ g = headGroups name delimiter) := by
  rw [matchAll?] at h
  simp only [spanSource, run_promptPattern] at h
  rw [← spanSource, run_body_whole] at h
  split at h
  · cases h
  · rcases Option.or_eq_some_iff.1 h with hheaded | ⟨-, hplain⟩
    -- with a head or without one, what is left is a body
    · by_cases hform : ∃ name delimiter r, IsHead name delimiter ∧ inner = headSource name delimiter ++ r
      · obtain ⟨name, delimiter, r, hhead, rfl⟩ := hform
        rw [List.append_assoc, run_head hhead, run_body_whole] at hheaded
        obtain ⟨as, hall, hbody⟩ := Option.bind_eq_some_iff.1 hheaded
        rw [List.append_nil] at hbody
        exact ⟨_, as, Atom.written_of_all? hall, hbody, .inr ⟨name, delimiter, hhead, rfl⟩⟩
      · push Not at hform
        rw [headPattern_inner hform] at hheaded
        cases hheaded
    · obtain ⟨as, hall, hbody⟩ := Option.bind_eq_some_iff.1 hplain
      exact ⟨[], as, Atom.written_of_all? hall, hbody, .inl rfl⟩

/-- The first tag of a text is found in two steps, and the form takes all of its span. -/
theorem exists_match_of_first? {message before after : Text} {pos : Nat} {tag : Tag}
    (h : Tag.first? (message.drop pos) = some (before, tag, after)) :
    ∃ m inner, findTag message pos = some (pos + before.length, m) ∧ Tag.ofMatch m = tag ∧
      promptPattern.matchAll? (spanSource inner) = some m := by
  rw [first?_eq] at h
  obtain ⟨⟨gap, m, rest⟩, hleft, heq⟩ := Option.map_eq_some_iff.1 h
  cases heq
  obtain ⟨u, -, htag⟩ := Text.exists_of_leftmost hleft
  obtain ⟨⟨span, behind⟩, hspan, hform⟩ := Option.bind_eq_some_iff.1 htag
  obtain ⟨m', hm, heq⟩ := Option.map_eq_some_iff.1 hform
  cases heq
  have hopen : ['?', '\x7b'] <+: u := by
    by_contra hnot
    rw [spanPattern, not_opened hnot] at hspan
    cases hspan
  obtain ⟨v, rfl⟩ := hopen
  obtain ⟨as, e, rfl, has, he⟩ := Atom.exists_atoms v
  simp only [List.cons_append, List.nil_append, match?_spanPattern has he] at hspan
  split at hspan
  · cases hspan
    refine ⟨m, Atom.sourceOf as, ?_, rfl, hm⟩
    rw [findTag, findFrom_eq message (by simp), hleft]
    rfl
  · cases hspan

/-- The group of the choices takes these items, and perhaps a bar behind them. -/
def TakesItems (m : Match) (items : List Item) : Prop :=
  if items = [] then m.group? "options".toList = none
  else m.group? "options".toList = some (Item.sourceOf items) ∨
    m.group? "options".toList = some (Item.sourceOf items ++ ['|'])

/-- The group of the choices takes the items in front of the fallback. -/
theorem takesItems_body {items : List Item} {parts : List (List Atom)}
    (hitems : items.map Item.atoms = parts.takeWhile isItem) (source : Text) (query : List Atom) {g : Groups}
    (hnone : Entries.get? "options".toList g = none) :
    TakesItems ⟨source, bodyGroups query parts ++ g⟩ items := by
  have hgroup := group?_body source query parts g "options".toList
  rw [get?_fallbackGroups, if_neg (fun h => absurd h.2 (by decide)), Option.none_or, get?_choiceGroups,
    hnone, ← hitems] at hgroup
  unfold TakesItems
  rw [hgroup]
  cases items with
  | nil => rfl
  | cons i is =>
      rw [if_neg (List.cons_ne_nil i is), if_pos ⟨by simp, rfl⟩, Option.some_or]
      split
      · exact .inl (by rw [List.append_nil]; rfl)
      · exact .inr rfl

/-- The name of the kind in a match. -/
theorem group_listType (source : Text) (query : List Atom) (parts : List (List Atom)) {g : Groups}
    (hg : g = [] ∨ ∃ name delimiter, IsHead name delimiter ∧ g = headGroups name delimiter) :
    (⟨source, bodyGroups query parts ++ g⟩ : Match).group "list_type".toList = [] ∨
      ((⟨source, bodyGroups query parts ++ g⟩ : Match).group "list_type".toList).map Text.baseLetter ∈
        Kind.names := by
  have hquery : "query".toList ≠ "list_type".toList := by decide
  have hother := group?_other source query parts g hquery (by decide) (by decide)
  rw [Match.group, hother]
  rcases hg with rfl | ⟨name, delimiter, hhead, rfl⟩
  · exact .inl rfl
  · refine .inr ?_
    have hname : (⟨source, headGroups name delimiter⟩ : Match).group? "list_type".toList = some name := by
      cases delimiter <;> rfl
    rw [hname]
    exact hhead.name

/-! ## The first tag of a text -/

/-- The group of the choices in the form of a tag is made of items. The choices of the tag are those that
the items write, one for each in their order, if no name of actor data has a mark that counts where it
stands; and the kind is one of the known ones exactly if no stray letter is in its name. -/
theorem choices_are_items {message before after : Text} {pos : Nat} {tag : Tag}
    (h : Tag.first? (message.drop pos) = some (before, tag, after)) :
    ∃ m items, findTag message pos = some (pos + before.length, m) ∧ Tag.ofMatch m = tag ∧
      (∀ i ∈ items, i.WellFormed) ∧ TakesItems m items ∧
      ((∀ i ∈ items, i.Unmarked) → tag.choices = items.map Item.choice) ∧
      (tag.kind ∈ [Kind.list, Kind.checkbox, Kind.radio] ↔
        ∀ c ∈ m.group "list_type".toList, c ∉ Text.strayLetters) := by
  obtain ⟨m, inner, hfind, rfl, hform⟩ := exists_match_of_first? h
  obtain ⟨g, as, has, hbody, hg⟩ := matchAll?_cases hform
  -- the head of a tag holds no choices
  have hnone : Entries.get? "options".toList g = none := by
    rcases hg with rfl | ⟨name, delimiter, -, rfl⟩
    · rfl
    · cases delimiter <;> rfl
  unfold bodyMatch at hbody
  split at hbody
  · rename_i q query parts hseg
    cases hbody
    -- the segments behind the query are items, up to the first that is none
    have hsegments : ∀ s ∈ parts.takeWhile isItem, Atom.All inSegment s ∧ isItem s = true := by
      intro s hs
      have hmem : s ∈ Atom.segments as :=
        hseg ▸ List.mem_cons_of_mem _ ((List.takeWhile_prefix _).subset hs)
      exact ⟨Atom.all_inSegment has hmem, List.mem_takeWhile_imp hs⟩
    obtain ⟨items, hitems, hatoms⟩ := exists_items hsegments
    refine ⟨_, items, hfind, rfl, hitems, takesItems_body hatoms _ _ hnone, fun hunmarked => ?_, ?_⟩
    · have hchoices := group_options (spanSource inner) (q :: query) parts g hnone
      rw [← hatoms] at hchoices
      exact hchoices.trans (ofItems_sourceOf hitems hunmarked)
    -- a tag without a head is a list
    · change Kind.ofName (Text.lower (if _ = [] then Kind.list.name else _)) ∈ _ ↔ _
      rcases group_listType (spanSource inner) (q :: query) parts hg with hnil | hname
      · rw [if_pos hnil, hnil]
        exact iff_of_true (by decide) (List.forall_mem_nil _)
      · rw [if_neg (fun hnil => absurd (hnil ▸ hname) (by decide))]
        exact ofName_lower_iff hname
  · cases hbody

/-- A value with actor data, and a kind in other letters. The comma in the actor data is no mark, since
it stands in a value. -/
theorem choices_are_items_actor :
    let message := "Roll ?\x7b[RADIO]Stat|Strength,\x7b\x7bstr,mod\x7d\x7d|Luck,1d6,2\x7d now".toList
    let written : List Item :=
      [⟨"Strength".toList.map .plain, [.actor "str,mod".toList]⟩,
        ⟨"Luck".toList.map .plain, "1d6,2".toList.map .plain⟩]
    ∃ before tag after, Tag.first? (message.drop 2) = some (before, tag, after) ∧
      (∃ m, findTag message 2 = some (2 + before.length, m) ∧ Tag.ofMatch m = tag ∧ TakesItems m written) ∧
      tag.choices = [⟨"Strength".toList, "\x7b\x7bstr,mod\x7d\x7d".toList, false⟩,
        ⟨"Luck".toList, "1d6,2".toList, false⟩] ∧
      tag.kind ∈ [Kind.list, Kind.checkbox, Kind.radio] := by
  intro message written
  obtain ⟨⟨before, tag, after⟩, hfirst⟩ :=
    Option.isSome_iff_exists.1 (by decide +kernel : (Tag.first? (message.drop 2)).isSome = true)
  obtain ⟨m, items, hfind, htag, hitems, htakes, hchoices, hkind⟩ := choices_are_items hfirst
  have hgroups : (findTag message 2).map (fun x => (x.2.group? "options".toList, x.2.group "list_type".toList)) =
      some (some (Item.sourceOf written), "RADIO".toList) := by
    decide +kernel
  rw [hfind, Option.map_some, Option.some.injEq, Prod.mk.injEq] at hgroups
  have hwritten : ∀ i ∈ written, i.WellFormed :=
    List.forall_mem_cons.2 ⟨⟨by decide, by decide, by decide, by decide⟩,
      List.forall_mem_singleton.2 ⟨by decide, by decide, by decide, by decide⟩⟩
  have hunmarked : ∀ i ∈ written, i.Unmarked := by
    refine List.forall_mem_cons.2 ⟨⟨?_, ?_⟩, List.forall_mem_singleton.2 ⟨?_, ?_⟩⟩ <;>
      intro name hname <;> simp at hname
    subst hname
    decide
  -- the group of the choices is written in one way only
  have hitemsEq : items = written := by
    unfold TakesItems at htakes
    rw [hgroups.1] at htakes
    split at htakes
    · cases htakes
    · rcases htakes with hsource | hsource
      · exact Item.eq_of_sourceOf hitems hwritten (Option.some.inj hsource).symm
      · -- there is no bar behind them
        have hlast := congrArg List.getLast? (Option.some.inj hsource)
        rw [List.getLast?_concat] at hlast
        exact absurd hlast (by decide)
  subst hitemsEq
  have hletters : ∀ c ∈ m.group "list_type".toList, c ∉ Text.strayLetters := by
    rw [hgroups.2]
    simp [Text.strayLetters]
  refine ⟨before, tag, after, hfirst, ⟨m, hfind, htag, htakes⟩, ?_, hkind.2 hletters⟩
  rw [hchoices hunmarked]
  decide +kernel

/-- An item whose value is actor data with a bar in its name is read as two choices, and a comma in actor
data ends a label; a dotless letter leaves a kind without a known name. -/
theorem marks_in_actor_data :
    let choices (t : Text) := (Tag.first? t).map fun x => x.2.1.choices
    let barred : Item := ⟨[.plain 'a'], [.actor "x|y".toList]⟩
    let labelled : Item := ⟨[.actor "x,y".toList], [.plain 'z']⟩
    "?\x7bq|a,\x7b\x7bx|y\x7d\x7d\x7d".toList = "?\x7bq|".toList ++ Item.sourceOf [barred] ++ "\x7d".toList ∧
      choices "?\x7bq|a,\x7b\x7bx|y\x7d\x7d\x7d".toList =
        some [⟨"a".toList, "\x7b\x7bx".toList, false⟩, ⟨"y\x7d\x7d".toList, [], false⟩] ∧
      barred.choice = ⟨"a".toList, "\x7b\x7bx|y\x7d\x7d".toList, false⟩ ∧
      "?\x7bq|\x7b\x7bx,y\x7d\x7d,z\x7d".toList =
        "?\x7bq|".toList ++ Item.sourceOf [labelled] ++ "\x7d".toList ∧
      choices "?\x7bq|\x7b\x7bx,y\x7d\x7d,z\x7d".toList =
        some [⟨"\x7b\x7bx".toList, "y\x7d\x7d,z".toList, false⟩] ∧
      labelled.choice = ⟨"\x7b\x7bx,y\x7d\x7d".toList, "z".toList, false⟩ ∧
      (Tag.first? ("?\x7b[l".toList ++ Char.ofNat 0x131 :: "st]q|a,1\x7d".toList)).map (fun x => x.2.1.kind) =
        some (.other ('l' :: Char.ofNat 0x131 :: "st".toList)) := by
  decide +kernel

end Prompt

end TabletopChat
