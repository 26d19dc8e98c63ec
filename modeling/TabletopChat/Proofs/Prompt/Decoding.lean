import TabletopChat.Proofs.Prompt.Items

/-!
# Proofs/Prompt/Decoding — choice tags that are written out

A tag that offers choices is written with its kind and its delimiter in brackets, its query, and an item
for each choice. If no part holds a mark that ends it, such a tag is found as a whole, whatever stands
around it, and is read as what was written, blanks at the ends of a part apart.

- `ChoiceTag`, `ChoiceTag.source` : a choice tag with all of its parts, and how it is written
- `first?_append`     : in front of the first tag nothing is found
- `written_tag_is_read`    : the tag in a message
-/

namespace TabletopChat

namespace Prompt

open Regex

/-! ## Tags that are written out -/

/-- A tag that offers choices, as it is written: labels and values are not stripped yet. -/
structure ChoiceTag where
  kind : Kind
  delimiter : Text
  query : Text
  items : List (Text × Text)

namespace ChoiceTag

/-- Labels and values with a comma between them, and with a bar in front of each label. -/
def itemsSource (items : List (Text × Text)) : Text := items.flatMap fun i => '|' :: (i.1 ++ ',' :: i.2)

def source (w : ChoiceTag) : Text :=
  "?\x7b[".toList ++ w.kind.name ++ '|' :: w.delimiter ++ ']' :: w.query ++ itemsSource w.items ++ ['\x7d']

def tag (w : ChoiceTag) : Tag where
  source := w.source
  kind := w.kind
  query := Text.strip w.query
  choices := w.items.map fun i => ⟨Text.strip i.1, Text.strip i.2, false⟩
  fallback := []
  delimiter := w.delimiter

end ChoiceTag

/-- The parts of a tag hold no mark that ends them, and none of them is missing but for the delimiter. -/
structure ChoiceTag.WellFormed (w : ChoiceTag) : Prop where
  kind : w.kind = .list ∨ w.kind = .checkbox ∨ w.kind = .radio
  delimiter : ∀ c ∈ w.delimiter, noBrace c = true ∧ c ≠ ']'
  query_ne_nil : w.query ≠ []
  query : ∀ c ∈ w.query, inSegment c = true
  items_ne_nil : w.items ≠ []
  label_ne_nil : ∀ i ∈ w.items, i.1 ≠ []
  label : ∀ i ∈ w.items, ∀ c ∈ i.1, inLabel c = true
  value_ne_nil : ∀ i ∈ w.items, i.2 ≠ []
  value : ∀ i ∈ w.items, ∀ c ∈ i.2, inSegment c = true

/-- Whether a tag is well formed can be decided part by part. -/
theorem ChoiceTag.wellFormed_iff {w : ChoiceTag} : w.WellFormed ↔
    (w.kind = .list ∨ w.kind = .checkbox ∨ w.kind = .radio) ∧
      w.delimiter.all (fun c => noBrace c && c ≠ ']') = true ∧ (w.query ≠ [] ∧ w.query.all inSegment = true) ∧
      w.items ≠ [] ∧ w.items.all (fun i => i.1 ≠ [] && i.1.all inLabel && i.2 ≠ [] && i.2.all inSegment) = true := by
  simp only [List.all_eq_true, Bool.and_eq_true, decide_eq_true_eq]
  constructor
  · intro h
    exact ⟨h.kind, h.delimiter, ⟨h.query_ne_nil, h.query⟩, h.items_ne_nil, fun i hi =>
      ⟨⟨⟨h.label_ne_nil i hi, h.label i hi⟩, h.value_ne_nil i hi⟩, h.value i hi⟩⟩
  · rintro ⟨hkind, hdelimiter, ⟨hne, hquery⟩, hsome, hitems⟩
    exact {
      kind := hkind
      delimiter := hdelimiter
      query_ne_nil := hne
      query := hquery
      items_ne_nil := hsome
      label_ne_nil := fun i hi => (hitems i hi).1.1.1
      label := fun i hi => (hitems i hi).1.1.2
      value_ne_nil := fun i hi => (hitems i hi).1.2
      value := fun i hi => (hitems i hi).2 }

instance (w : ChoiceTag) : Decidable w.WellFormed := decidable_of_iff' _ ChoiceTag.wellFormed_iff

/-! ## Characters as atoms -/

theorem all_plain {p : Char → Bool} (hp : ∀ c, p c = true → noBrace c = true) {t : Text}
    (ht : ∀ c ∈ t, p c = true) : Atom.All p (t.map .plain) := by
  intro a ha
  obtain ⟨c, hc, rfl⟩ := List.mem_map.1 ha
  exact ⟨written_plain (fun d hd => hp d (ht d hd)) _ ha, ht c hc⟩

theorem noBrace_of_inSegment {c : Char} (h : inSegment c = true) : noBrace c = true :=
  (Bool.and_eq_true _ _ ▸ h).2

theorem noBrace_of_inLabel {c : Char} (h : inLabel c = true) : noBrace c = true :=
  noBrace_of_inSegment (Bool.and_eq_true _ _ ▸ h).2

def itemOf (i : Text × Text) : Item := ⟨i.1.map .plain, i.2.map .plain⟩

theorem sourceOf_itemOf (i : Text × Text) : Atom.sourceOf (itemOf i).atoms = i.1 ++ ',' :: i.2 := by
  rw [Item.atoms, Atom.sourceOf_append, Atom.sourceOf_cons, itemOf, sourceOf_plain, sourceOf_plain]
  rfl

theorem unmarked_itemOf (i : Text × Text) : (itemOf i).Unmarked := by
  constructor <;> intro name hname <;> simp [itemOf] at hname

namespace ChoiceTag

def segments (w : ChoiceTag) : List (List Atom) :=
  w.query.map .plain :: w.items.map fun i => (itemOf i).atoms

/-- The segments of a written tag are its query and its items. -/
theorem sourceOf_segments (w : ChoiceTag) : Atom.sourceOf (Atom.joined w.segments) = w.query ++ itemsSource w.items := by
  rw [segments, Atom.joined, Atom.sourceOf_append, sourceOf_plain]
  congr 1
  induction w.items with
  | nil => rfl
  | cons i is ih =>
      have hbarred := Atom.sourceOf_barred_cons (itemOf i).atoms (is.map fun j => (itemOf j).atoms) []
      rw [List.append_nil, List.append_nil, sourceOf_itemOf, ih] at hbarred
      rw [List.map_cons, hbarred]
      simp [itemsSource]

def head (w : ChoiceTag) : Text := headSource w.kind.name (some w.delimiter)

def inner (w : ChoiceTag) : Text := w.head ++ Atom.sourceOf (Atom.joined w.segments)

theorem source_eq (w : ChoiceTag) : w.source = spanSource w.inner := by
  rw [source, spanSource, inner, sourceOf_segments, head, headSource, delimiterSource]
  simp only [List.append_assoc, List.cons_append]
  rfl

end ChoiceTag

namespace ChoiceTag.WellFormed

variable {w : ChoiceTag} (h : w.WellFormed)

include h

theorem isHead : IsHead w.kind.name (some w.delimiter) := by
  refine ⟨?_, fun d hd c hc => ?_⟩
  · rcases h.kind with hkind | hkind | hkind <;> rw [hkind] <;> decide
  · obtain rfl : w.delimiter = d := Option.some.inj hd
    simpa [inDelimiter] using (h.delimiter c hc).2

theorem headOf_eq : headOf w.kind.name (some w.delimiter) = ⟨w.kind, w.delimiter⟩ := by
  have hkind : Kind.ofName (Text.lower w.kind.name) = w.kind := by
    rcases h.kind with hkind | hkind | hkind <;> rw [hkind] <;> decide
  rw [headOf, hkind, Option.getD_some]

theorem item_wellFormed {i : Text × Text} (hi : i ∈ w.items) : (itemOf i).WellFormed where
  label_ne_nil := by simpa [itemOf] using h.label_ne_nil i hi
  value_ne_nil := by simpa [itemOf] using h.value_ne_nil i hi
  label := all_plain (fun _ => noBrace_of_inLabel) (h.label i hi)
  value := all_plain (fun _ => noBrace_of_inSegment) (h.value i hi)

/-- What is written as an item has the form of one. -/
theorem isItem_itemOf {i : Text × Text} (hi : i ∈ w.items) : isItem (itemOf i).atoms = true := by
  have hwell := h.item_wellFormed hi
  refine (isItem_append fun a ha => ?_).2 ⟨hwell.label_ne_nil, hwell.value_ne_nil⟩
  have hin := (hwell.label a ha).2
  refine decide_eq_true fun hcomma => ?_
  rw [hcomma] at hin
  exact absurd hin (by decide)

theorem segments_all : ∀ s ∈ w.segments, Atom.All inSegment s := by
  intro s hs
  rcases List.mem_cons.1 hs with rfl | hs
  · exact all_plain (fun _ => noBrace_of_inSegment) h.query
  · obtain ⟨i, hi, rfl⟩ := List.mem_map.1 hs
    exact (h.item_wellFormed hi).atoms

theorem segments_eq : Atom.segments (Atom.joined w.segments) = w.segments :=
  Atom.segments_joined fun s hs => Atom.bar_not_mem_of_all (h.segments_all s hs)

/-- Behind the head, the query and the items are found. -/
theorem ofAtoms?_eq_tag :
    Tag.ofAtoms? ⟨w.kind, w.delimiter⟩ w.source (Atom.joined w.segments) = some w.tag := by
  obtain ⟨q, query, hquery⟩ := List.exists_cons_of_ne_nil h.query_ne_nil
  -- every segment behind the query is an item, so each of them is a choice
  have hitems : ∀ s ∈ w.items.map fun i => (itemOf i).atoms, isItem s = true := by
    intro s hs
    obtain ⟨i, hi, rfl⟩ := List.mem_map.1 hs
    exact h.isItem_itemOf hi
  have hchoices : Choice.ofItems (Item.sourceOf (w.items.map itemOf)) = w.tag.choices := by
    rw [ofItems_sourceOf]
    · rw [List.map_map, ChoiceTag.tag]
      refine List.map_congr_left fun i _ => ?_
      simp [Item.choice, itemOf, sourceOf_plain]
    · intro i hi
      obtain ⟨j, hj, rfl⟩ := List.mem_map.1 hi
      exact h.item_wellFormed hj
    · intro i hi
      obtain ⟨j, -, rfl⟩ := List.mem_map.1 hi
      exact unmarked_itemOf j
  rw [Item.sourceOf, List.map_map] at hchoices
  have hsegments := h.segments_eq
  rw [ChoiceTag.segments, hquery, List.map_cons] at hsegments
  rw [ofAtoms?_eq, ChoiceTag.segments, hquery, List.map_cons, hsegments]
  simp only [tagOf, List.takeWhile_eq_self_iff.2 hitems, List.dropWhile_eq_nil_iff.2 hitems]
  rw [ChoiceTag.tag] at hchoices ⊢
  simp only [Option.some.injEq, Tag.mk.injEq, true_and, and_true]
  refine ⟨?_, hchoices, rfl⟩
  rw [← List.map_cons, ← hquery, sourceOf_plain]

/-- A tag is read as what was written. -/
theorem ofInner?_eq_tag : Tag.ofInner? w.source w.inner = some w.tag := by
  have hall := Atom.all?_sourceOf (Atom.written_joined h.segments_all)
  have hheaded : Tag.headed? w.source w.inner = some w.tag := by
    rw [Tag.headed?, ChoiceTag.inner, ChoiceTag.head, head?_append h.isHead, h.headOf_eq]
    simp only [hall, Option.bind_some, h.ofAtoms?_eq_tag]
  rw [Tag.ofInner?, if_neg (by simp [ChoiceTag.inner, ChoiceTag.head, headSource]), hheaded]

/-- A tag is found where it begins, and what follows is left. -/
theorem read?_eq_tag (after : Text) : Tag.read? (w.source ++ after) = some (w.tag, after) := by
  have hhead : ∀ c ∈ w.head, noBrace c = true := by
    refine noBrace_headSource h.isHead fun d hd c hc => ?_
    obtain rfl : w.delimiter = d := Option.some.inj hd
    exact (h.delimiter c hc).1
  have hatoms : ∀ a ∈ w.head.map Atom.plain ++ Atom.joined w.segments, a.Written := fun a ha =>
    (List.mem_append.1 ha).elim (written_plain hhead a) (Atom.written_joined h.segments_all a)
  have hinner : Atom.sourceOf (w.head.map Atom.plain ++ Atom.joined w.segments) = w.inner := by
    rw [Atom.sourceOf_append, sourceOf_plain, ChoiceTag.inner]
  have hbraces := inBraces?_append (e := '\x7d' :: after) hatoms (by simp [Atom.first?])
  have hsource : w.source ++ after = '?' :: '\x7b' :: (w.inner ++ '\x7d' :: after) := by
    simp [ChoiceTag.source_eq, spanSource]
  rw [hinner] at hbraces
  rw [Tag.read?, hsource, hbraces]
  simp only [List.head?_cons, if_true, List.tail_cons, hinner]
  have hread := h.ofInner?_eq_tag
  rw [ChoiceTag.source_eq, spanSource] at hread
  change Option.map _ (Tag.ofInner? ('?' :: '\x7b' :: (w.inner ++ ['\x7d'])) w.inner) = _
  rw [hread]
  rfl

end ChoiceTag.WellFormed

/-! ## Messages -/

/-- No tag is read where none opens. -/
theorem read?_eq_none {t : Text} (h : ¬ ['?', '\x7b'] <+: t) : Tag.read? t = none := by
  unfold Tag.read?
  split
  · rename_i as rest hbraces
    refine absurd ?_ h
    rw [Atom.inBraces?_source hbraces]
    exact ⟨Atom.sourceOf as ++ '\x7d' :: rest, by simp⟩
  · rfl

/-- Where no tag begins, none is found. -/
theorem first?_append {before t : Text} (hbefore : ¬ ['?', '\x7b'] <:+: before) (ht : t.head? ≠ some '\x7b') :
    Tag.first? (before ++ t) = (Tag.first? t).map fun x => (before ++ x.1, x.2) := by
  induction before with
  | nil =>
      rw [List.nil_append]
      cases Tag.first? t <;> rfl
  | cons c cs ih =>
      have hopen : ¬ ['?', '\x7b'] <+: c :: (cs ++ t) := by
        rintro ⟨u, hu⟩
        obtain ⟨rfl, hrest⟩ := List.cons.inj hu
        cases cs with
        | nil => exact ht (by rw [← List.nil_append t, ← hrest]; rfl)
        | cons d ds =>
            obtain ⟨rfl, -⟩ := List.cons.inj hrest
            exact hbefore ⟨[], ds, rfl⟩
      rw [List.cons_append, Tag.first?, read?_eq_none hopen,
        ih fun hlater => hbefore (hlater.trans (List.suffix_cons c cs).isInfix)]
      cases Tag.first? t <;> rfl

/-- A choice tag that is written out is the first tag of a message in front of which no tag begins. It is
found as a whole, by its form as well, and read as what was written: the kind and the delimiter as they
are, the query, the labels and the values without blanks at their ends. -/
theorem written_tag_is_read {w : ChoiceTag} (h : w.WellFormed) {before : Text}
    (hbefore : ¬ ['?', '\x7b'] <:+: before) (after : Text) :
    Tag.first? (before ++ w.source ++ after) = some (before, w.tag, after) ∧
      ∃ m, findTag (before ++ w.source ++ after) 0 = some (before.length, m) ∧
        m.source = w.source ∧ Tag.ofMatch m = w.tag := by
  have hread := h.read?_eq_tag after
  have hopen : w.source ++ after = '?' :: '\x7b' :: (w.inner ++ ['\x7d'] ++ after) := by
    rw [ChoiceTag.source_eq, spanSource]
    rfl
  have hfirst : Tag.first? (before ++ w.source ++ after) = some (before, w.tag, after) := by
    rw [List.append_assoc, first?_append hbefore (by rw [hopen]; simp)]
    rw [hopen] at hread ⊢
    rw [Tag.first?, hread, Option.map_some, List.append_nil]
  have hdrop : Tag.first? ((before ++ w.source ++ after).drop 0) = some (before, w.tag, after) := hfirst
  obtain ⟨m, -, hfind, htag, -⟩ := exists_match_of_first? hdrop
  rw [Nat.zero_add] at hfind
  exact ⟨hfirst, m, hfind, congrArg Tag.source htag, htag⟩

/-- A delimiter with a bar, a query with brackets and blanks, and a value with commas. -/
theorem written_tag_is_read_checkbox :
    let w : ChoiceTag := ⟨.checkbox, " | ".toList, " [Pick] ".toList,
      [("a".toList, " 1,2 ".toList), (" b]".toList, "[[1d6]]".toList)]⟩
    let before := "Go?".toList
    w.WellFormed ∧ ¬ ['?', '\x7b'] <:+: before ∧
      Tag.first? (before ++ w.source ++ " ?\x7bq\x7d".toList) =
        some (before, w.tag, " ?\x7bq\x7d".toList) := by
  intro w before
  have hw : w.WellFormed := by decide
  have hbefore : ¬ ['?', '\x7b'] <:+: before := by decide
  exact ⟨hw, hbefore, (written_tag_is_read hw hbefore _).1⟩

end Prompt

end TabletopChat
