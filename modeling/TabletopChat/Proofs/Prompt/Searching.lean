import TabletopChat.Proofs.Prompt.Questions

/-!
# Proofs/Prompt/Searching — the first tag that asks a question

A prompt tag can be found in two steps, first a span of atoms between braces and then its form inside of
the span, or in one step, as the leftmost match of its form. What can tell the two apart is the delimiter
that a head writes: it is anything up to a bracket, braces included. Where no delimiter holds a brace,
both find the same tags.

- `headPattern`, `promptPattern` : the form of a tag
- `Tag.ofMatch`     : the tag that a match writes
- `tagAt?`, `findTag` : the search in two steps
- `first?_eq`       : the first tag is found in two steps
- `two_step_search_agrees` : it is the leftmost match
-/

namespace TabletopChat

namespace Prompt

open Regex

variable {β : Type} {k : Follow β} {g : Groups} {t rest : Text}

/-! ## Kinds -/

def caseless (w : Text) : Regex := .row (w.map fun c => .char fun d => Text.baseLetter d = c)

/-- A word is taken in letters of either case. -/
theorem takes_caseless (w : Text) : (caseless w).Takes (Text.afterCaseless? w) := by
  induction w with
  | nil => exact fun _ _ _ => rfl
  | cons c w ih =>
    intro β k t g
    have hrun : (caseless (c :: w)).run k t g =
        (char fun d => decide (Text.baseLetter d = c)).run ((caseless w).run k) t g := rfl
    rw [hrun, takes_char]
    cases t with
    | nil => rfl
    | cons d ds =>
      by_cases hd : Text.baseLetter d = c
      · simp only [oneOf, hd, decide_true, if_true, Option.bind_some, Text.afterCaseless?]
        exact ih k ds g
      · simp [oneOf, hd, Text.afterCaseless?]

theorem head?_of_afterCaseless? {w : Text} (hw : w ≠ []) (h : Text.afterCaseless? w t = some rest) :
    t.head?.map Text.baseLetter = w.head? := by
  rcases w with _ | ⟨c, w⟩
  · exact absurd rfl hw
  · rcases t with _ | ⟨d, ds⟩
    · cases h
    · by_cases hd : Text.baseLetter d = c
      · simp [hd]
      · simp [Text.afterCaseless?, hd] at h

/-- The names of two kinds begin with different letters, so no text begins with both. -/
theorem afterCaseless?_unique {w w' rest' : Text} (hw : w ∈ Kind.names) (hw' : w' ∈ Kind.names)
    (h : Text.afterCaseless? w t = some rest) (h' : Text.afterCaseless? w' t = some rest') : w = w' := by
  have hletters : ∀ w ∈ Kind.names, w ≠ [] ∧ ∀ w' ∈ Kind.names, w.head? = w'.head? → w = w' := by decide
  refine (hletters w hw).2 w' hw' ?_
  rw [← head?_of_afterCaseless? (hletters w hw).1 h, head?_of_afterCaseless? (hletters w' hw').1 h']

theorem take_of_afterCaseless? {w : Text} (h : Text.afterCaseless? w t = some rest) :
    t.take (t.length - rest.length) = t.take w.length := by
  rcases Text.afterCaseless?_source h with ⟨name, rfl, hname⟩
  have hlength : w.length = name.length := by rw [← hname, List.length_map]
  rw [List.length_append, Nat.add_sub_cancel, hlength]

theorem afterCaseless?_append (name rest : Text) :
    Text.afterCaseless? (name.map Text.baseLetter) (name ++ rest) = some rest := by
  induction name with
  | nil => rfl
  | cons c cs ih => simp [Text.afterCaseless?, ih]

def kindPart : Regex :=
  .group "list_type".toList
    (.either (caseless Kind.list.name) (.either (caseless Kind.checkbox.name) (caseless Kind.radio.name)))

def kindName? (t : Text) : Option (Text × Text) :=
  Kind.names.findSome? fun w => (Text.afterCaseless? w t).map fun rest => (t.take w.length, rest)

theorem kind?_eq (t : Text) :
    kind? t = (kindName? t).map fun x => (Kind.ofName (Text.lower x.1), x.2) := by
  simp only [kind?, kindName?, Kind.names, List.findSome?_cons, List.findSome?_nil]
  cases Text.afterCaseless? Kind.list.name t <;> cases Text.afterCaseless? Kind.checkbox.name t <;>
    cases Text.afterCaseless? Kind.radio.name t <;> rfl

/-- The name of a kind is written in case variants of its letters. -/
theorem kindName?_source {name : Text} (h : kindName? t = some (name, rest)) :
    t = name ++ rest ∧ name.map Text.baseLetter ∈ Kind.names := by
  rcases List.exists_of_findSome?_eq_some h with ⟨w, hw, hsome⟩
  rcases Option.map_eq_some_iff.1 hsome with ⟨after, hafter, heq⟩
  rcases Text.afterCaseless?_source hafter with ⟨written, rfl, hbase⟩
  cases heq
  have hlength : w.length = written.length := by rw [← hbase, List.length_map]
  rw [hlength, List.take_left, hbase]
  exact ⟨rfl, hw⟩

/-- A name of a kind is read back, whatever follows. -/
theorem kindName?_append {name : Text} (hname : name.map Text.baseLetter ∈ Kind.names) (rest : Text) :
    kindName? (name ++ rest) = some (name, rest) := by
  have hafter := afterCaseless?_append name rest
  cases hfound : kindName? (name ++ rest) with
  | none =>
    have hnone := List.findSome?_eq_none_iff.1 hfound _ hname
    rw [hafter] at hnone
    cases hnone
  | some x =>
    rcases List.exists_of_findSome?_eq_some hfound with ⟨w, hw, hsome⟩
    rcases Option.map_eq_some_iff.1 hsome with ⟨after, hafter', heq⟩
    cases afterCaseless?_unique hname hw hafter hafter'
    rw [hafter] at hafter'
    cases hafter'
    rw [← heq, List.length_map, List.take_left]

/-- The kind of a tag is the name that the text begins with. -/
theorem run_kindPart :
    kindPart.run k t g = (kindName? t).bind fun x => k x.2 (("list_type".toList, x.1) :: g) := by
  rw [kindPart, run_group, run_either, run_either, takes_caseless, takes_caseless, takes_caseless]
  simp only [kindName?, Kind.names, List.findSome?_cons, List.findSome?_nil]
  -- if the text begins with one name, it does not begin with the others
  have hother {w r : Text} (w' : Text) (hw : w ∈ Kind.names) (hw' : w' ∈ Kind.names) (hne : w ≠ w')
      (h : Text.afterCaseless? w t = some r) : Text.afterCaseless? w' t = none := by
    cases h' : Text.afterCaseless? w' t with
    | none => rfl
    | some r' => exact absurd (afterCaseless?_unique hw hw' h h') hne
  cases hlist : Text.afterCaseless? Kind.list.name t with
  | some r =>
    rw [hother Kind.checkbox.name (by decide) (by decide) (by decide) hlist,
      hother Kind.radio.name (by decide) (by decide) (by decide) hlist]
    simp only [Option.bind_some, Option.bind_none, Option.or_none, Option.map_some,
      take_of_afterCaseless? hlist]
  | none =>
    cases hcheck : Text.afterCaseless? Kind.checkbox.name t with
    | some r =>
      rw [hother Kind.radio.name (by decide) (by decide) (by decide) hcheck]
      simp only [Option.bind_some, Option.bind_none, Option.or_none, Option.none_or, Option.map_some,
        Option.map_none, take_of_afterCaseless? hcheck]
    | none =>
      cases hradio : Text.afterCaseless? Kind.radio.name t with
      | some r =>
        simp only [Option.bind_some, Option.bind_none, Option.none_or, Option.map_some, Option.map_none,
          take_of_afterCaseless? hradio]
      | none => rfl

/-! ## Heads -/

/-- What a head may write between its choices: anything but a closing bracket. -/
def inDelimiter (c : Char) : Bool := c ≠ ']'

def delimiterPart : Regex :=
  .maybe (.group "has_delimiter".toList
    (.row [.sign '|', .group "delimiter".toList (.many (.char inDelimiter))]))

def headPattern : Regex := .row [.sign '[', kindPart, delimiterPart, .sign ']']

/-- The name of a kind, and a delimiter if there is one. -/
structure IsHead (name : Text) (delimiter : Option Text) : Prop where
  name : name.map Text.baseLetter ∈ Kind.names
  delimiter : ∀ d ∈ delimiter, ∀ c ∈ d, inDelimiter c = true

def delimiterSource : Option Text → Text
  | none => []
  | some d => '|' :: d

def headSource (name : Text) (delimiter : Option Text) : Text :=
  '[' :: (name ++ (delimiterSource delimiter ++ [']']))

def delimiterGroups : Option Text → Groups
  | none => []
  | some d => [("has_delimiter".toList, '|' :: d), ("delimiter".toList, d)]

def headGroups (name : Text) (delimiter : Option Text) : Groups :=
  delimiterGroups delimiter ++ [("list_type".toList, name)]

def headOf (name : Text) (delimiter : Option Text) : Head :=
  ⟨Kind.ofName (Text.lower name), delimiter.getD standardDelimiter⟩

/-- A delimiter is taken up to its bracket. -/
theorem run_delimiter {delimiter : Option Text} (h : ∀ d ∈ delimiter, ∀ c ∈ d, inDelimiter c = true) :
    delimiterPart.run ((sign ']').run k) (delimiterSource delimiter ++ ']' :: rest) g =
      k rest (delimiterGroups delimiter ++ g) := by
  rw [delimiterPart, run_maybe, run_group, run_row_cons, run_row_cons, run_row_nil]
  cases delimiter with
  | none =>
    have hsource : delimiterSource none ++ ']' :: rest = ']' :: rest := rfl
    rw [hsource, run_sign_of_ne (by simp), run_sign_cons, Option.none_or]
    rfl
  | some d =>
    have hsource : delimiterSource (some d) ++ ']' :: rest = '|' :: (d ++ ']' :: rest) := rfl
    have hclose : (sign ']').run k ('|' :: (d ++ ']' :: rest)) g = none := run_sign_of_ne (by simp)
    -- the groups are told by how much of the text is left
    have htake (u : Text) :
        (u ++ ']' :: rest).take ((u ++ ']' :: rest).length - (']' :: rest).length) = u := by
      rw [List.length_append, Nat.add_sub_cancel, List.take_left]
    rw [hsource, hclose, Option.or_none, run_sign_cons, run_group, run_many_append]
    · rw [run_sign_cons, htake d, ← List.cons_append, htake ('|' :: d)]
      rfl
    · exact fun t rest h hf => (fitsOnly_sign ']' k).stuck_oneOf (by simp [inDelimiter]) t rest _ hf
    · exact h d rfl
    · simp [inDelimiter]

/-- Without a bracket there is no delimiter. -/
theorem run_delimiter_of_not (h : ∀ delimiter rest, (∀ d ∈ delimiter, ∀ c ∈ d, inDelimiter c = true) →
      t ≠ delimiterSource delimiter ++ ']' :: rest) :
    delimiterPart.run ((sign ']').run k) t g = none := by
  rw [delimiterPart, run_maybe, run_group, run_row_cons, run_row_cons, run_row_nil]
  -- without a delimiter the bracket closes at once
  have hclose : (sign ']').run k t g = none := by
    apply run_sign_of_ne
    intro hhead
    rcases List.head?_eq_some_iff.1 hhead with ⟨rest, rfl⟩
    exact h none rest (by simp) rfl
  rw [hclose, Option.or_none]
  -- with one it closes behind the delimiter
  by_cases hbar : t.head? = some '|'
  · rcases List.head?_eq_some_iff.1 hbar with ⟨u, rfl⟩
    rcases exists_cut inDelimiter u with ⟨d, tail, rfl, hd, htail⟩
    rw [run_sign_cons, run_group, run_many_append
      (fun t rest h hf => (fitsOnly_sign ']' k).stuck_oneOf (by simp [inDelimiter]) t rest _ hf) hd htail]
    apply run_sign_of_ne
    intro hhead
    rcases List.head?_eq_some_iff.1 hhead with ⟨rest, rfl⟩
    exact h (some d) rest (by simpa using hd) rfl
  · exact run_sign_of_ne hbar

/-- The form of the head takes a head that is written. -/
theorem run_head {name : Text} {delimiter : Option Text} (h : IsHead name delimiter) :
    headPattern.run k (headSource name delimiter ++ rest) g = k rest (headGroups name delimiter ++ g) := by
  have hsource : headSource name delimiter ++ rest =
      '[' :: (name ++ (delimiterSource delimiter ++ ']' :: rest)) := by simp [headSource]
  rw [headPattern, run_row_cons, hsource, run_sign_cons, run_row_cons, run_kindPart,
    kindName?_append h.name, Option.bind_some, run_row_cons, run_row_cons, run_row_nil,
    run_delimiter h.delimiter]
  simp [headGroups]

/-- Where no head is written, the form takes none. -/
theorem run_head_of_not (h : ∀ name delimiter rest, IsHead name delimiter →
    t ≠ headSource name delimiter ++ rest) : headPattern.run k t g = none := by
  rw [headPattern, run_row_cons]
  by_cases hopen : t.head? = some '['
  · rcases List.head?_eq_some_iff.1 hopen with ⟨u, rfl⟩
    rw [run_sign_cons, run_row_cons, run_kindPart]
    cases hkind : kindName? u with
    | none => rfl
    | some x =>
      rcases x with ⟨name, rest⟩
      rcases kindName?_source hkind with ⟨rfl, hname⟩
      rw [Option.bind_some, run_row_cons, run_row_cons, run_row_nil]
      apply run_delimiter_of_not
      rintro delimiter rest' hdelimiter rfl
      exact h name delimiter rest' ⟨hname, hdelimiter⟩ (by simp [headSource])
  · exact run_sign_of_ne hopen

/-- A written head is read back. -/
theorem head?_append {name : Text} {delimiter : Option Text} (h : IsHead name delimiter) :
    head? (headSource name delimiter ++ rest) = some (headOf name delimiter, rest) := by
  have hkind (u : Text) : kind? (name ++ u) = some (Kind.ofName (Text.lower name), u) := by
    rw [kind?_eq, kindName?_append h.name]
    rfl
  cases delimiter with
  | none =>
    have hsource : headSource name none ++ rest = '[' :: (name ++ ']' :: rest) := by
      simp [headSource, delimiterSource]
    rw [hsource, head?, hkind]
    rfl
  | some d =>
    have hsource : headSource name (some d) ++ rest = '[' :: (name ++ '|' :: (d ++ ']' :: rest)) := by
      simp [headSource, delimiterSource]
    have hd : ']' ∉ d := fun hmem => by simpa [inDelimiter] using h.delimiter d rfl _ hmem
    rw [hsource, head?, hkind]
    simp only [Text.cutAt_append hd]
    rfl

/-- Where no head is written, none is read. -/
theorem head?_of_not (h : ∀ name delimiter rest, IsHead name delimiter →
    t ≠ headSource name delimiter ++ rest) : head? t = none := by
  unfold head?
  split
  · rename_i u
    rw [kind?_eq]
    cases hkind : kindName? u with
    | none => rfl
    | some x =>
      rcases x with ⟨name, rest⟩
      rcases kindName?_source hkind with ⟨rfl, hname⟩
      simp only [Option.map_some]
      split
      · rename_i kind rest' heq
        cases heq
        exact absurd (by simp [headSource, delimiterSource]) (h name none rest' ⟨hname, by simp⟩)
      · rename_i kind more heq
        cases heq
        -- a bracket opens a delimiter, and there is no head if it is not closed
        rcases Text.cutAt_cases ']' more with ⟨-, hcut⟩ | ⟨d, behind, rfl, hd, hcut⟩
        · rw [hcut]
        · have hdelimiter : ∀ c ∈ d, inDelimiter c = true := fun c hc => by
            have hne : c ≠ ']' := fun heq => hd (heq ▸ hc)
            simpa [inDelimiter] using hne
          exact absurd (by simp [headSource, delimiterSource])
            (h name (some d) behind ⟨hname, by simpa using hdelimiter⟩)
      · rfl
  · rfl

/-! ## Whole tags -/

def promptPattern : Regex :=
  .row [.word ['?', '\x7b'], .notAhead fun c => c = ':', .maybe headPattern, bodyPattern]

def spanPattern : Regex := .row [.word ['?', '\x7b'], .many (atomOf noBrace), .sign '\x7d']

def Tag.ofMatch (m : Match) : Tag where
  source := m.source
  kind := Kind.ofName
    (Text.lower (if m.group "list_type".toList = [] then Kind.list.name else m.group "list_type".toList))
  query := Text.strip (m.group "query".toList)
  choices := Choice.ofItems (m.group "options".toList)
  fallback := Text.strip (m.group "default".toList)
  delimiter :=
    if (m.group? "has_delimiter".toList).isSome then m.group "delimiter".toList else standardDelimiter

theorem run_promptPattern (u : Text) :
    promptPattern.run k ('?' :: '\x7b' :: u) g =
      if u.head?.any fun c => c = ':' then none
      else (headPattern.run (bodyPattern.run k) u g).or (bodyPattern.run k u g) :=
  run_word_append (k := (row [.notAhead fun c => c = ':', .maybe headPattern, bodyPattern]).run k) ['?', '\x7b']

/-- A bar behind the last choice adds no choice. -/
theorem ofItems_append_bar (items : Text) : Choice.ofItems (items ++ ['|']) = Choice.ofItems items := by
  have hpieces : Text.pieces '|' (items ++ ['|']) = Text.pieces '|' items ++ [[]] := by
    induction items with
    | nil => rfl
    | cons c cs ih =>
      rw [List.cons_append, Text.pieces, Text.pieces]
      by_cases hc : c = '|'
      · simp [hc, ih]
      · simp only [hc, if_false, ih]
        cases hcs : Text.pieces '|' cs with
        | nil => exact absurd hcs (Text.pieces_ne_nil _ _)
        | cons p ps => rfl
  simp [Choice.ofItems, hpieces]

def tagOf (source : Text) (head : Head) (query : List Atom) (parts : List (List Atom)) : Tag where
  source := source
  kind := head.kind
  query := Text.strip (Atom.sourceOf query)
  choices := Choice.ofItems (Atom.sourceOfSegments (parts.takeWhile isItem))
  fallback := Text.strip (Atom.sourceOfSegments (parts.dropWhile isItem))
  delimiter := head.delimiter

theorem ofAtoms?_eq (head : Head) (source : Text) (as : List Atom) :
    Tag.ofAtoms? head source as =
      match Atom.segments as with
      | (q :: query) :: parts => some (tagOf source head (q :: query) parts)
      | _ => none := rfl

/-- A lookup in two lists of entries is in the first, and only then in the second. -/
theorem get?_append {α : Type} (name : Text) (es fs : Entries α) :
    Entries.get? name (es ++ fs) = (Entries.get? name es).or (Entries.get? name fs) := by
  induction es with
  | nil => rfl
  | cons e es ih =>
    rcases e with ⟨l, v⟩
    by_cases hl : l = name <;> simp [Entries.get?, hl, ih]

theorem get?_fallbackGroups (name : Text) (others : List (List Atom)) :
    Entries.get? name (fallbackGroups others) =
      if Atom.joined others ≠ [] ∧ "default".toList = name then some (Atom.sourceOfSegments others)
      else none := by
  unfold fallbackGroups
  generalize "default".toList = key
  by_cases h : Atom.joined others = [] <;> simp [Entries.get?, h]

theorem get?_choiceGroups (name : Text) (items others : List (List Atom)) :
    Entries.get? name (choiceGroups items others) =
      if items ≠ [] ∧ "options".toList = name then
        some (Atom.sourceOfSegments items ++ if others = [] then [] else ['|'])
      else none := by
  unfold choiceGroups
  generalize "options".toList = key
  by_cases h : items = [] <;> simp [Entries.get?, h]

section Groups

variable (source : Text) (query : List Atom) (parts : List (List Atom)) (h : Groups)

/-- What a group has taken in a body behind a head with the groups `h`. -/
theorem group?_body (name : Text) : (⟨source, bodyGroups query parts ++ h⟩ : Match).group? name =
    (Entries.get? name (fallbackGroups (parts.dropWhile isItem))).or
      ((Entries.get? name (choiceGroups (parts.takeWhile isItem) (parts.dropWhile isItem))).or
        ((Entries.get? name [("query".toList, Atom.sourceOf query)]).or (Entries.get? name h))) := by
  rw [Match.group?, bodyGroups, List.append_assoc, List.append_assoc, get?_append, get?_append, get?_append]

theorem group_query : (⟨source, bodyGroups query parts ++ h⟩ : Match).group "query".toList =
    Atom.sourceOf query := by
  simp [Match.group, group?_body, get?_fallbackGroups, get?_choiceGroups, Entries.get?]

/-- The group of the fallback takes the segments behind the choices. -/
theorem group_default (hnone : Entries.get? "default".toList h = none) :
    (⟨source, bodyGroups query parts ++ h⟩ : Match).group "default".toList =
      Atom.sourceOfSegments (parts.dropWhile isItem) := by
  by_cases hnil : Atom.joined (parts.dropWhile isItem) = []
  · -- nothing is left for the fallback
    have hsource : Atom.sourceOfSegments (parts.dropWhile isItem) = [] := by
      rw [← Atom.sourceOf_joined, hnil]
      rfl
    rw [Match.group, group?_body, get?_fallbackGroups, get?_choiceGroups, hnone, hsource]
    simp [hnil, Entries.get?]
  · simp [Match.group, group?_body, get?_fallbackGroups, hnil]

/-- The choices are read from their group. -/
theorem group_options (hnone : Entries.get? "options".toList h = none) :
    Choice.ofItems ((⟨source, bodyGroups query parts ++ h⟩ : Match).group "options".toList) =
      Choice.ofItems (Atom.sourceOfSegments (parts.takeWhile isItem)) := by
  rw [Match.group, group?_body, get?_fallbackGroups, get?_choiceGroups, hnone]
  by_cases hnil : parts.takeWhile isItem = []
  · simp [hnil, Entries.get?, Atom.sourceOfSegments, Text.joinWith]
  · by_cases hothers : parts.dropWhile isItem = []
    · simp [hnil, hothers]
    · simp [hnil, hothers, ofItems_append_bar]

theorem group?_other {name : Text} (hquery : "query".toList ≠ name) (hdefault : "default".toList ≠ name)
    (hoptions : "options".toList ≠ name) :
    (⟨source, bodyGroups query parts ++ h⟩ : Match).group? name = (⟨source, h⟩ : Match).group? name := by
  rw [group?_body, get?_fallbackGroups, get?_choiceGroups, Match.group?]
  simp only [hdefault, hoptions, and_false, if_false, Option.none_or, Entries.get?, hquery]

/-- The tag that the groups of a body write, behind a head with the groups `h`. -/
theorem ofMatch_body {head : Head} (hoptions : Entries.get? "options".toList h = none)
    (hdefault : Entries.get? "default".toList h = none)
    (hkind : (Tag.ofMatch ⟨source, h⟩).kind = head.kind)
    (hdelimiter : (Tag.ofMatch ⟨source, h⟩).delimiter = head.delimiter) :
    Tag.ofMatch ⟨source, bodyGroups query parts ++ h⟩ = tagOf source head query parts := by
  have hother {name : Text} (hname : name ∈ ["list_type".toList, "has_delimiter".toList, "delimiter".toList]) :
      (⟨source, bodyGroups query parts ++ h⟩ : Match).group? name = (⟨source, h⟩ : Match).group? name := by
    have hnames : ∀ name ∈ ["list_type".toList, "has_delimiter".toList, "delimiter".toList],
        "query".toList ≠ name ∧ "default".toList ≠ name ∧ "options".toList ≠ name := by decide
    rcases hnames name hname with ⟨hq, hd, ho⟩
    exact group?_other source query parts h hq hd ho
  have hlist : (⟨source, bodyGroups query parts ++ h⟩ : Match).group "list_type".toList =
      (⟨source, h⟩ : Match).group "list_type".toList := congrArg (fun x => x.getD []) (hother (by simp))
  have hgroup : (⟨source, bodyGroups query parts ++ h⟩ : Match).group "delimiter".toList =
      (⟨source, h⟩ : Match).group "delimiter".toList := congrArg (fun x => x.getD []) (hother (by simp))
  rw [tagOf, ← hkind, ← hdelimiter]
  simp only [Tag.ofMatch, group_query, group_default _ _ _ _ hdefault, group_options _ _ _ _ hoptions,
    hlist, hgroup, hother (List.mem_cons_of_mem _ List.mem_cons_self)]

end Groups

/-- Without a head, a tag has the standard one. -/
theorem ofMatch_plain (source : Text) (query : List Atom) (parts : List (List Atom)) :
    Tag.ofMatch ⟨source, bodyGroups query parts ++ []⟩ = tagOf source standardHead query parts :=
  ofMatch_body source query parts [] rfl rfl rfl rfl

/-- The groups of a match with a head give the tag. -/
theorem ofMatch_headed {name : Text} {delimiter : Option Text} (h : IsHead name delimiter) (source : Text)
    (query : List Atom) (parts : List (List Atom)) :
    Tag.ofMatch ⟨source, bodyGroups query parts ++ (headGroups name delimiter ++ [])⟩ =
      tagOf source (headOf name delimiter) query parts := by
  have hname : name ≠ [] := fun hnil => absurd (hnil ▸ h.name) (by decide)
  cases delimiter with
  | none =>
    refine ofMatch_body source query parts _ rfl rfl ?_ rfl
    change Kind.ofName (Text.lower (if name = [] then Kind.list.name else name)) = _
    rw [if_neg hname]
    rfl
  | some d =>
    refine ofMatch_body source query parts _ rfl rfl ?_ rfl
    change Kind.ofName (Text.lower (if name = [] then Kind.list.name else name)) = _
    rw [if_neg hname]
    rfl

/-! ## The form inside of a span -/

def spanSource (inner : Text) : Text := '?' :: '\x7b' :: (inner ++ ['\x7d'])

/-- The match of a body with these atoms, behind a head with the groups `g`. -/
def bodyMatch (source : Text) (g : Groups) (as : List Atom) : Option Match :=
  match Atom.segments as with
  | (q :: query) :: parts => some ⟨source, bodyGroups (q :: query) parts ++ g⟩
  | _ => none

theorem bodyMatch_plain (source : Text) (as : List Atom) :
    (bodyMatch source [] as).map Tag.ofMatch = Tag.ofAtoms? standardHead source as := by
  rw [ofAtoms?_eq, bodyMatch]
  split
  · rw [Option.map_some, ofMatch_plain]
  · rfl

theorem bodyMatch_headed {name : Text} {delimiter : Option Text} (h : IsHead name delimiter) (source : Text)
    (as : List Atom) :
    (bodyMatch source (headGroups name delimiter ++ []) as).map Tag.ofMatch =
      Tag.ofAtoms? (headOf name delimiter) source as := by
  rw [ofAtoms?_eq, bodyMatch]
  split
  · rw [Option.map_some, ofMatch_headed h]
  · rfl

/-- A body that takes a text up to the closing brace at its end consists of the atoms of the text. -/
theorem run_body_whole (source r : Text) (g : Groups) :
    bodyPattern.run (fun rest h => if rest = [] then some ⟨source, h⟩ else none) (r ++ ['\x7d']) g =
      (Atom.all? r).bind (bodyMatch source g) := by
  have hend : Atom.first? ['\x7d'] = none := by simp [Atom.first?]
  rcases Atom.exists_atoms r with ⟨as, e, rfl, has, he⟩
  have hspan := Atom.span_append has he
  cases e with
  | nil =>
    have hall : Atom.all? (Atom.sourceOf as ++ []) = some as := by rw [Atom.all?, hspan]
    rw [hall, List.append_nil, run_body has (fun h => ⟨_, if_pos rfl⟩), Option.bind_some, bodyMatch]
    rfl
  | cons c cs =>
    have hall : Atom.all? (Atom.sourceOf as ++ c :: cs) = none := by rw [Atom.all?, hspan]
    rw [hall, Option.bind_none]
    rcases Atom.exists_atoms (Atom.sourceOf as ++ c :: cs ++ ['\x7d']) with ⟨bs, e, hsource, hbs, he'⟩
    rw [hsource]
    refine run_body_of_unclosed hbs he' fun h => ?_
    by_cases hclose : e.head? = some '\x7d'
    · rcases List.head?_eq_some_iff.1 hclose with ⟨rest, rfl⟩
      rw [run_sign_cons, if_neg]
      rintro rfl
      -- otherwise the text consists of atoms
      have hbs' : Atom.sourceOf as ++ c :: cs = Atom.sourceOf bs ++ [] := by
        rw [List.append_nil]
        exact List.append_cancel_right hsource
      rw [hbs', Atom.span_append hbs rfl] at hspan
      cases hspan
    · exact run_sign_of_ne hclose

/-- A text without a head is none for the pattern either. -/
theorem headPattern_inner {inner : Text} (h : ∀ name delimiter rest, IsHead name delimiter →
    inner ≠ headSource name delimiter ++ rest) : headPattern.run k (inner ++ ['\x7d']) g = none := by
  apply run_head_of_not
  intro name delimiter rest hhead heq
  -- a head ends with a bracket, so the brace does not belong to it
  rcases List.eq_nil_or_concat rest with rfl | ⟨r, c, rfl⟩
  · have hlast := congrArg List.getLast? heq
    simp [headSource, List.getLast?_append, List.getLast?_cons] at hlast
  · rw [List.concat_eq_append, ← List.append_assoc] at heq
    exact h name delimiter r hhead (List.append_inj' heq rfl).1

/-- The form inside of a span is what the reader of tags reads there. -/
theorem matchAll?_spanSource (inner : Text) :
    (promptPattern.matchAll? (spanSource inner)).map Tag.ofMatch = Tag.ofInner? (spanSource inner) inner := by
  have hcolon : ((inner ++ ['\x7d']).head?.any fun c => decide (c = ':')) = true ↔ inner.head? = some ':' := by
    cases inner <;> simp
  have hor : Tag.ofInner? (spanSource inner) inner =
      if inner.head? = some ':' then none
      else (Tag.headed? (spanSource inner) inner).or
        ((Atom.all? inner).bind (Tag.ofAtoms? standardHead (spanSource inner))) := by
    unfold Tag.ofInner?
    cases Tag.headed? (spanSource inner) inner <;> rfl
  have hplain : ((Atom.all? inner).bind (bodyMatch (spanSource inner) [])).map Tag.ofMatch =
      (Atom.all? inner).bind (Tag.ofAtoms? standardHead (spanSource inner)) := by
    rw [Option.map_bind]
    exact congrArg _ (funext (bodyMatch_plain _))
  rw [hor, matchAll?]
  simp only [spanSource, run_promptPattern]
  rw [← spanSource, run_body_whole]
  by_cases hhead : inner.head? = some ':'
  · rw [if_pos (hcolon.2 hhead), if_pos hhead]
    rfl
  · rw [if_neg (fun h => hhead (hcolon.1 h)), if_neg hhead, Option.map_or, hplain]
    congr 1
    -- a head is read in one way only, so that both readers find it or neither does
    by_cases hform : ∃ name delimiter r, IsHead name delimiter ∧ inner = headSource name delimiter ++ r
    · rcases hform with ⟨name, delimiter, r, h, rfl⟩
      rw [Tag.headed?, head?_append h, List.append_assoc, run_head h, run_body_whole, Option.map_bind]
      exact congrArg _ (funext (bodyMatch_headed h _))
    · push Not at hform
      rw [headPattern_inner hform, Tag.headed?, head?_of_not hform]
      rfl

/-! ## Tags at the beginning of a text -/

/-- The tag at the beginning of a text, found in two steps: a span, and its form. -/
def tagAt? (t : Text) : Option (Match × Text) :=
  (spanPattern.match? t).bind fun x => (promptPattern.matchAll? x.1.source).map fun m => (m, x.2)

theorem not_opened {t : Text} (h : ¬ ['?', '\x7b'] <+: t) (as : List Regex) :
    (row (.word ['?', '\x7b'] :: as)).match? t = none := by
  rw [match?, run_row_cons, run_word_of_not_begins h]

variable {as : List Atom} {e : Text}

/-- A span is taken up to its closing brace. -/
theorem match?_spanPattern (has : ∀ a ∈ as, a.Written) (he : Atom.first? e = none) :
    spanPattern.match? ('?' :: '\x7b' :: (Atom.sourceOf as ++ e)) =
      if e.head? = some '\x7d' then some (⟨spanSource (Atom.sourceOf as), []⟩, e.tail) else none := by
  have hrun (k : Follow (Match × Text)) :
      spanPattern.run k ('?' :: '\x7b' :: (Atom.sourceOf as ++ e)) [] = (sign '\x7d').run k e [] :=
    (run_word_append (k := (row [.many (atomOf noBrace), .sign '\x7d']).run k) ['?', '\x7b']).trans
      (run_many_atoms braceless_noBrace (stuck_after_close (fitsOnly_sign _ _) _) (Atom.all_noBrace has)
        (Atom.after?_eq_none he))
  rw [match?, hrun]
  by_cases hclose : e.head? = some '\x7d'
  · rcases List.head?_eq_some_iff.1 hclose with ⟨rest, rfl⟩
    have hsource : '?' :: '\x7b' :: (Atom.sourceOf as ++ '\x7d' :: rest) =
        spanSource (Atom.sourceOf as) ++ rest := by simp [spanSource]
    rw [if_pos hclose, run_sign_cons, hsource, List.length_append, Nat.add_sub_cancel, List.take_left]
    rfl
  · rw [if_neg hclose, run_sign_of_ne hclose]

/-- The atoms in braces are those in front of the closing brace. -/
theorem inBraces?_append (has : ∀ a ∈ as, a.Written) (he : Atom.first? e = none) :
    Atom.inBraces? ('?' :: '\x7b' :: (Atom.sourceOf as ++ e)) =
      if e.head? = some '\x7d' then some (as, e.tail) else none := by
  simp only [Atom.inBraces?, Atom.span_append has he]
  split
  · rename_i heq
    cases heq
    rfl
  · rename_i hne
    rw [if_neg]
    intro hclose
    rcases List.head?_eq_some_iff.1 hclose with ⟨rest, rfl⟩
    exact hne as rest rfl

theorem inBraces?_of_not_opened {t : Text} (h : ¬ ['?', '\x7b'] <+: t) : Atom.inBraces? t = none := by
  cases hread : Atom.inBraces? t with
  | none => rfl
  | some x => exact absurd ⟨_, (Atom.inBraces?_source hread).symm⟩ h

/-- The reader of tags finds them in two steps. -/
theorem read?_eq (t : Text) : Tag.read? t = (tagAt? t).map fun x => (Tag.ofMatch x.1, x.2) := by
  by_cases hopen : ['?', '\x7b'] <+: t
  · rcases hopen with ⟨u, rfl⟩
    rcases Atom.exists_atoms u with ⟨as, e, rfl, has, he⟩
    have hmatch := matchAll?_spanSource (Atom.sourceOf as)
    simp only [tagAt?, List.cons_append, List.nil_append, match?_spanPattern has he, Tag.read?,
      inBraces?_append has he]
    by_cases hclose : e.head? = some '\x7d'
    · have hsource : '?' :: '\x7b' :: (Atom.sourceOf as ++ ['\x7d']) = spanSource (Atom.sourceOf as) := rfl
      simp only [hclose, if_true, Option.bind_some, hsource, ← hmatch, Option.map_map]
      rfl
    · simp only [hclose, if_false]
      rfl
  · rw [tagAt?, spanPattern, not_opened hopen, Tag.read?, inBraces?_of_not_opened hopen]
    rfl

/-! ## Delimiters without braces -/

/-- No head, wherever it could be read in a message, writes a delimiter with a brace. -/
def BracelessDelimiters (message : Text) : Prop :=
  ∀ before name delimiter after,
    message = before ++ '?' :: '\x7b' :: '[' :: name ++ '|' :: delimiter ++ ']' :: after →
    name.map Text.baseLetter ∈ Kind.names → ']' ∉ delimiter → '\x7b' ∉ delimiter ∧ '\x7d' ∉ delimiter

theorem BracelessDelimiters.of_append {before t : Text} (h : BracelessDelimiters (before ++ t)) :
    BracelessDelimiters t := by
  intro before' name delimiter after hmessage hname hdelimiter
  exact h (before ++ before') name delimiter after (by simp [hmessage]) hname hdelimiter

/-- A head whose delimiter has no brace has none. -/
theorem noBrace_headSource {name : Text} {delimiter : Option Text} (h : IsHead name delimiter)
    (hdelimiter : ∀ d ∈ delimiter, ∀ c ∈ d, noBrace c = true) :
    ∀ c ∈ headSource name delimiter, noBrace c = true := by
  have hname : ∀ c ∈ name, noBrace c = true := by
    have hnames : (Kind.names.all fun w => w.all noBrace) = true := by decide
    intro c hc
    by_contra hbrace
    have hbase := List.all_eq_true.1 (List.all_eq_true.1 hnames _ h.name) _ (List.mem_map_of_mem hc)
    simp only [noBrace, Bool.and_eq_true, decide_eq_true_eq, not_and_or, not_not] at hbrace
    rcases hbrace with rfl | rfl
    · exact absurd hbase (by decide)
    · exact absurd hbase (by decide)
  intro c hc
  simp only [headSource, List.mem_cons, List.mem_append, List.not_mem_nil, or_false] at hc
  rcases hc with rfl | hc | hc | rfl
  · decide
  · exact hname c hc
  · cases delimiter with
    | none => cases hc
    | some d =>
      rcases List.mem_cons.1 hc with rfl | hc
      · decide
      · exact hdelimiter d rfl c hc
  · decide

/-- A head without braces consists of atoms, so behind it the atoms end where they end in the whole
text. -/
theorem exists_atoms_behind {source r : Text} (hsource : ∀ c ∈ source, noBrace c = true)
    (has : ∀ a ∈ as, a.Written) (he : Atom.first? e = none) (h : Atom.sourceOf as ++ e = source ++ r) :
    ∃ bs, (∀ b ∈ bs, b.Written) ∧ r = Atom.sourceOf bs ++ e ∧
      Atom.sourceOf as = source ++ Atom.sourceOf bs := by
  rcases Atom.exists_atoms r with ⟨bs, e', rfl, hbs, he'⟩
  have hwritten : ∀ a ∈ source.map Atom.plain ++ bs, a.Written := fun a ha =>
    (List.mem_append.1 ha).elim (written_plain hsource a) (hbs a)
  have hboth : Atom.sourceOf as ++ e = Atom.sourceOf (source.map Atom.plain ++ bs) ++ e' := by
    rw [h, Atom.sourceOf_append, sourceOf_plain, List.append_assoc]
  have hspan := Atom.span_append has he
  rw [hboth, Atom.span_append hwritten he'] at hspan
  cases hspan
  exact ⟨bs, hbs, rfl, by rw [Atom.sourceOf_append, sourceOf_plain]⟩

/-- The heads of a text whose delimiters have no braces. -/
theorem BracelessDelimiters.noBrace_head {u : Text} (h : BracelessDelimiters ('?' :: '\x7b' :: u))
    {name r : Text} {delimiter : Option Text} (hhead : IsHead name delimiter)
    (hu : u = headSource name delimiter ++ r) : ∀ c ∈ headSource name delimiter, noBrace c = true := by
  refine noBrace_headSource hhead fun d hd c hc => ?_
  cases Option.mem_def.1 hd
  have hbracket : ']' ∉ d := fun hmem => by simpa [inDelimiter] using hhead.delimiter d rfl _ hmem
  have hbraces := h [] name d r (by simp [hu, headSource, delimiterSource]) hhead.name hbracket
  have hopen : c ≠ '\x7b' := fun heq => hbraces.1 (heq ▸ hc)
  have hclose : c ≠ '\x7d' := fun heq => hbraces.2 (heq ▸ hc)
  simp [noBrace, hopen, hclose]

/-- What follows the form of a tag in a search: the text up to there is the match. -/
def found (source rest : Text) : Follow (Match × Text) :=
  fun r g => some (⟨(source ++ rest).take ((source ++ rest).length - r.length), g⟩, r)

def filled (source : Text) : Follow Match := fun r g => if r = [] then some ⟨source, g⟩ else none

/-- The body of a tag takes the same in a text and in a span alone. -/
theorem run_body_found (source rest : Text) (has : ∀ a ∈ as, a.Written) (g : Groups) :
    bodyPattern.run (found source rest) (Atom.sourceOf as ++ '\x7d' :: rest) g =
      (bodyPattern.run (filled source) (Atom.sourceOf as ++ ['\x7d']) g).map fun m => (m, rest) := by
  have hfound (h : Groups) : found source rest rest h = some (⟨source, h⟩, rest) := by
    rw [found, List.length_append, Nat.add_sub_cancel, List.take_left]
  have hfilled (h : Groups) : filled source [] h = some ⟨source, h⟩ := if_pos rfl
  rw [run_body has fun h => ⟨_, hfound h⟩, run_body has fun h => ⟨_, hfilled h⟩]
  rcases Atom.segments as with _ | ⟨_ | ⟨q, query⟩, parts⟩
  · rfl
  · rfl
  · simp only [hfound, hfilled, Option.map_some]

/-- So does a whole tag whose delimiter has no brace. -/
theorem match?_of_closed {rest : Text} (has : ∀ a ∈ as, a.Written)
    (h : BracelessDelimiters (spanSource (Atom.sourceOf as) ++ rest)) :
    promptPattern.match? (spanSource (Atom.sourceOf as) ++ rest) =
      (promptPattern.matchAll? (spanSource (Atom.sourceOf as))).map fun m => (m, rest) := by
  have he : Atom.first? ('\x7d' :: rest) = none := by simp [Atom.first?]
  have htext : spanSource (Atom.sourceOf as) ++ rest =
      '?' :: '\x7b' :: (Atom.sourceOf as ++ '\x7d' :: rest) := by simp [spanSource]
  have hcolon : (Atom.sourceOf as ++ '\x7d' :: rest).head?.any (fun c => decide (c = ':')) =
      (Atom.sourceOf as ++ ['\x7d']).head?.any fun c => decide (c = ':') := by
    cases Atom.sourceOf as <;> rfl
  change promptPattern.run (found (spanSource (Atom.sourceOf as)) rest) (spanSource (Atom.sourceOf as) ++ rest) [] =
    (promptPattern.run (filled (spanSource (Atom.sourceOf as))) (spanSource (Atom.sourceOf as)) []).map _
  generalize hsource : spanSource (Atom.sourceOf as) = source at h htext ⊢
  rw [htext, run_promptPattern, hcolon, ← hsource, spanSource, run_promptPattern]
  split
  · rfl
  · rw [Option.map_or, ← run_body_found _ rest has]
    congr 1
    -- a head ends in front of the closing brace, since its delimiter has none
    by_cases hform : ∃ name delimiter r, IsHead name delimiter ∧
        Atom.sourceOf as ++ '\x7d' :: rest = headSource name delimiter ++ r
    · rcases hform with ⟨name, delimiter, r, hhead, hu⟩
      rw [htext] at h
      rcases exists_atoms_behind (h.noBrace_head hhead hu) has he hu with ⟨bs, hbs, rfl, hinner⟩
      rw [hu, run_head hhead, run_body_found _ rest hbs, hinner, List.append_assoc, run_head hhead]
    · push Not at hform
      rw [run_head_of_not hform, headPattern_inner]
      · rfl
      · rintro name delimiter r hhead hinner
        exact hform name delimiter (r ++ '\x7d' :: rest) hhead (by rw [hinner, List.append_assoc])

/-- Without braces in delimiters, the form alone finds at the beginning of a text what the two steps
find. -/
theorem match?_eq_tagAt? {t : Text} (h : BracelessDelimiters t) : promptPattern.match? t = tagAt? t := by
  by_cases hopen : ['?', '\x7b'] <+: t
  · rcases hopen with ⟨u, rfl⟩
    rcases Atom.exists_atoms u with ⟨as, e, rfl, has, he⟩
    rw [match?, tagAt?]
    simp only [List.cons_append, List.nil_append, match?_spanPattern has he] at h ⊢
    by_cases hclose : e.head? = some '\x7d'
    · rcases List.head?_eq_some_iff.1 hclose with ⟨rest, rfl⟩
      have htext : '?' :: '\x7b' :: (Atom.sourceOf as ++ '\x7d' :: rest) =
          spanSource (Atom.sourceOf as) ++ rest := by simp [spanSource]
      rw [htext] at h ⊢
      rw [if_pos hclose]
      exact match?_of_closed has h
    · -- without a closing brace there is no body, with or without a head
      rw [if_neg hclose, run_promptPattern, run_body_of_unclosed has he fun h => run_sign_of_ne hclose]
      have hhead (k : Follow (Match × Text)) :
          headPattern.run (bodyPattern.run k) (Atom.sourceOf as ++ e) [] = none := by
        by_cases hform : ∃ name delimiter r, IsHead name delimiter ∧
            Atom.sourceOf as ++ e = headSource name delimiter ++ r
        · rcases hform with ⟨name, delimiter, r, hhead, hu⟩
          rcases exists_atoms_behind (h.noBrace_head hhead hu) has he hu with ⟨bs, hbs, rfl, -⟩
          rw [hu, run_head hhead, run_body_of_unclosed hbs he fun h => run_sign_of_ne hclose]
        · push Not at hform
          exact run_head_of_not hform
      rw [hhead, Option.none_or, ite_self]
      rfl
  · rw [tagAt?, promptPattern, spanPattern, not_opened hopen, not_opened hopen]
    rfl

/-! ## Searches -/

/-- The first tag of a message from position `pos` on, after at most `fuel` spans: where it begins, and
its match. A span that has not the form of a tag is left behind its opening brace. -/
def findFrom (message : Text) : Nat → Nat → Option (Nat × Match)
  | 0, _ => none
  | fuel + 1, pos =>
    match spanPattern.search (message.drop pos) with
    | none => none
    | some (gap, span, _) =>
      match promptPattern.matchAll? span.source with
      | some m => some (pos + gap.length, m)
      | none => findFrom message fuel (pos + gap.length + 2)

/-- The first tag of a message from a position on, found in two steps. -/
def findTag (message : Text) (pos : Nat) : Option (Nat × Match) := findFrom message message.length pos

theorem tagAt?_of_not_opened {t : Text} (h : ¬ ['?', '\x7b'] <+: t) : tagAt? t = none := by
  rw [tagAt?, spanPattern, not_opened h]
  rfl

/-- Spans that have not the form of a tag are skipped until there is one that has. -/
theorem findFrom_eq (message : Text) {fuel pos : Nat} (hfuel : (message.drop pos).length ≤ fuel) :
    findFrom message fuel pos =
      (Text.leftmost tagAt? (message.drop pos)).map fun x => (pos + x.1.length, x.2.1) := by
  have hspan : ∀ u, spanPattern.match? u = none → tagAt? u = none := fun u hu => by
    rw [tagAt?, hu]
    rfl
  induction fuel generalizing pos with
  | zero =>
    rw [List.length_eq_zero_iff.1 (Nat.le_zero.1 hfuel)]
    rfl
  | succ fuel ih =>
    rw [findFrom]
    cases hsearch : spanPattern.search (message.drop pos) with
    | none => rw [Text.leftmost_eq_none hspan hsearch]; rfl
    | some x =>
      rcases x with ⟨gap, span, rest⟩
      rcases Text.leftmost_narrow hspan hsearch with ⟨u, hu, hmatch, hleft⟩
      have htag : tagAt? u = (promptPattern.matchAll? span.source).map fun m => (m, rest) := by
        rw [tagAt?, hmatch]
        rfl
      cases hform : promptPattern.matchAll? span.source with
      | some m =>
        rw [hform] at htag
        rw [hleft, Text.leftmost_of_some htag]
        simp [hform]
      | none =>
        rw [hform] at htag
        -- the span begins with two characters, and at the second no tag begins
        have hopen : ['?', '\x7b'] <+: u := by
          by_contra hnot
          rw [spanPattern, not_opened hnot] at hmatch
          cases hmatch
        rcases hopen with ⟨v, rfl⟩
        rw [List.cons_append, List.cons_append, List.nil_append] at hu htag hleft
        have hbrace : tagAt? ('\x7b' :: v) = none := tagAt?_of_not_opened (by simp)
        have hdrop : message.drop (pos + gap.length + 2) = v := by
          rw [Nat.add_assoc, ← List.drop_drop, hu]
          simp [List.drop_append]
        have hlength : (message.drop (pos + gap.length + 2)).length ≤ fuel := by
          have htotal := congrArg List.length hu
          simp only [List.length_append, List.length_cons] at htotal
          rw [hdrop]
          omega
        rw [hleft, Text.leftmost_of_none htag, Text.leftmost_of_none hbrace]
        simp only [hform]
        rw [ih hlength, hdrop]
        simp only [Option.map_map]
        congr 1
        funext x
        simp only [Function.comp_apply, List.length_append, List.length_cons, Prod.mk.injEq, and_true]
        omega

/-- The first tag of a text is the one that is found in two steps. -/
theorem first?_eq (t : Text) :
    Tag.first? t = (Text.leftmost tagAt? t).map fun x => (x.1, Tag.ofMatch x.2.1, x.2.2) := by
  have hfirst : Tag.first? t = Text.leftmost Tag.read? t := by
    induction t with
    | nil => rfl
    | cons c cs ih =>
      rw [Tag.first?, Text.leftmost, ih]
      cases Tag.read? (c :: cs) <;> rfl
  rw [hfirst]
  exact Text.leftmost_congr Tag.ofMatch fun u _ => read?_eq u

/-- Without braces in delimiters, the leftmost match of the form is what the two steps find. -/
theorem search_promptPattern {t : Text} (h : BracelessDelimiters t) :
    promptPattern.search t = Text.leftmost tagAt? t := by
  have hends (u : Text) (hu : u <:+ t) : promptPattern.match? u = (tagAt? u).map fun x => (x.1, x.2) := by
    rcases hu with ⟨before, rfl⟩
    rw [match?_eq_tagAt? h.of_append]
    exact Option.map_id'.symm
  rw [search, Text.leftmost_congr id hends]
  exact Option.map_id'

/-- The search in two steps is right: from every position of a message in which no delimiter holds a brace
it finds the leftmost match of the form of a tag, with the same groups, or nothing if there is none. The
first tag that is answered is the tag of this match. -/
theorem two_step_search_agrees (message : Text) (h : BracelessDelimiters message) (pos : Nat) :
    findTag message pos =
        (promptPattern.search (message.drop pos)).map (fun x => (pos + x.1.length, x.2.1)) ∧
      Tag.first? (message.drop pos) =
        (promptPattern.search (message.drop pos)).map fun x => (x.1, Tag.ofMatch x.2.1, x.2.2) := by
  have hrest : BracelessDelimiters (message.drop pos) := by
    rw [← List.take_append_drop pos message] at h
    exact h.of_append
  rw [search_promptPattern hrest]
  exact ⟨findFrom_eq message (by simp), first?_eq _⟩

def checkboxMessage : Text := "Go ?\x7b[CheckBox|; ]Pick|a,1|b,2|c\x7d now".toList

theorem braceless_checkboxMessage : BracelessDelimiters checkboxMessage := by
  intro before name delimiter after h _ _
  -- there is one bracket, so the delimiter ends in front of it
  have hbracket : ']' ∉ before ++ '?' :: '\x7b' :: '[' :: name ++ '|' :: delimiter := by
    have hcount := congrArg (List.count ']') h
    have hone : checkboxMessage.count ']' = 1 := by decide
    rw [hone, List.count_append, List.count_cons_self] at hcount
    exact List.count_eq_zero.1 (by omega)
  have hfront : checkboxMessage.takeWhile (fun c => decide (c ≠ ']')) =
      before ++ '?' :: '\x7b' :: '[' :: name ++ '|' :: delimiter := by
    rw [h]
    refine (takeWhile_dropWhile_append (fun c hc => ?_) (by simp)).1
    exact decide_eq_true fun heq => hbracket (heq ▸ hc)
  constructor
  · -- the only opening brace is that of the tag
    have hcount := congrArg (List.count '\x7b') hfront
    have hone : (checkboxMessage.takeWhile fun c => decide (c ≠ ']')).count '\x7b' = 1 := by decide
    rw [hone] at hcount
    simp only [List.count_append, List.count_cons] at hcount
    refine List.count_eq_zero.1 ?_
    simp at hcount
    omega
  · have hnone : '\x7d' ∉ checkboxMessage.takeWhile fun c => decide (c ≠ ']') := by decide
    rw [hfront] at hnone
    exact fun hmem => hnone (by simp [hmem])

theorem two_step_search_agrees_checkbox :
    BracelessDelimiters checkboxMessage ∧
      (findTag checkboxMessage 2 =
          (promptPattern.search (checkboxMessage.drop 2)).map (fun x => (2 + x.1.length, x.2.1)) ∧
        Tag.first? (checkboxMessage.drop 2) =
          (promptPattern.search (checkboxMessage.drop 2)).map fun x => (x.1, Tag.ofMatch x.2.1, x.2.2)) ∧
      (findTag checkboxMessage 2).map Prod.fst = some 3 :=
  ⟨braceless_checkboxMessage, two_step_search_agrees checkboxMessage braceless_checkboxMessage 2, by decide +kernel⟩

end Prompt

end TabletopChat
