import TabletopChat.Proofs.Evaluation.Concatenation

/-!
# Proofs/Evaluation/NestedRoll — a roll between the texts of another one

A roll that is written inside of another one is read as it is read by itself, because until it ends one more roll is
open than it needs. So it is evaluated first, and its result stands between the texts around it.

- `Stack.within`       : a stack in another open roll
- `Several`            : what is left if something follows a roll
- `read_within`        : reading a roll inside of another one
- `evaluateNodes_around` : a roll between two texts is one roll
-/

namespace TabletopChat

namespace Markup

/-! ## Stacks in an open roll -/

/-- A stack in one more open roll, whose inside is what was the top level. -/
def Stack.within (kind : Kind) (opener : Span) (s : Stack) : Stack :=
  ⟨[], s.frames ++ [⟨kind, opener, s.outer⟩]⟩

section Stacks

variable {s : Stack} {base : Kind} {opener span : Span}

theorem Stack.within_modify (f : List Node → List Node) :
    (s.within base opener).modify f = (s.modify f).within base opener := by
  rcases s with ⟨outer, - | ⟨fr, frs⟩⟩ <;> rfl

/-- A delimiter inside of a roll that is open in the stack itself. -/
theorem Stack.within_read (h : s.frames ≠ []) (d : Delimiter) :
    (s.within base opener).read ⟨.delimiter d, span⟩ = (s.read ⟨.delimiter d, span⟩).within base opener := by
  have htakes := s.takes_read ⟨.delimiter d, span⟩
  generalize s.read ⟨.delimiter d, span⟩ = s' at htakes ⊢
  cases htakes with
  | opens kind => exact Stack.read_opener _ kind span
  | @closes outer fr frs _ hstack =>
      subst hstack
      rw [Stack.read_closer]
      -- what the roll becomes is added to the next one, or to the top level
      cases frs <;> simp [Stack.close?, Stack.within, Stack.modify]
  | @unaccepted kind _ hhead =>
      have hwithin : ∀ fr ∈ (s.within base opener).frames.head?, fr.kind ≠ kind := by
        rwa [Stack.within, List.head?_append_of_ne_nil _ h]
      rw [Stack.read_closer, Stack.close?_eq_none_iff_frames.2 hwithin, Option.getD_none, Stack.within_modify]

theorem Stack.outer_modify {f : List Node → List Node} (h : s.frames ≠ []) : (s.modify f).outer = s.outer := by
  rcases s with ⟨outer, - | ⟨fr, frs⟩⟩
  · exact absurd rfl h
  · rfl

theorem Stack.frames_modify {f : List Node → List Node} : (s.modify f).frames = [] ↔ s.frames = [] := by
  rcases s with ⟨outer, - | ⟨fr, frs⟩⟩ <;> simp [Stack.modify]

/-- A delimiter leaves the top level as it is, unless it ends the last open roll. -/
theorem Stack.read_cases (h : s.frames ≠ []) (d : Delimiter) (span : Span) :
    ((s.read ⟨.delimiter d, span⟩).frames ≠ [] ∧ (s.read ⟨.delimiter d, span⟩).outer = s.outer) ∨
      ∃ fr : Frame, s.read ⟨.delimiter d, span⟩ = ⟨fr.node true span.finish :: s.outer, []⟩ := by
  have htakes := s.takes_read ⟨.delimiter d, span⟩
  generalize s.read ⟨.delimiter d, span⟩ = s' at htakes ⊢
  cases htakes with
  | opens kind => exact .inl ⟨List.cons_ne_nil _ _, rfl⟩
  | @closes outer fr frs _ hstack =>
      subst hstack
      cases frs with
      | nil => exact .inr ⟨fr, rfl⟩
      | cons _ _ => exact .inl ⟨List.cons_ne_nil _ _, rfl⟩
  | unaccepted => exact .inl ⟨Stack.frames_modify.not.2 h, Stack.outer_modify h⟩

end Stacks

/-! ## Something behind a roll -/

/-- There is something on the top level already, and more is there or will be when the open rolls end. -/
def Several (s : Stack) : Prop := s.outer ≠ [] ∧ 2 ≤ s.outer.length + s.frames.length

theorem length_le_pushText (t : Text) (span : Span) (ns : List Node) : ns.length ≤ (pushText t span ns).length := by
  unfold pushText
  split
  · exact Nat.le_refl _
  · exact Nat.le_succ _

namespace Several

variable {s : Stack}

/-- More nodes on the innermost level leave something on the top level. -/
theorem modify {f : List Node → List Node} (h : Several s) (hf : ∀ ns, ns.length ≤ (f ns).length) :
    Several (s.modify f) := by
  rcases s with ⟨outer, - | ⟨fr, frs⟩⟩
  · have hle := hf outer
    have hpos := List.length_pos_iff.2 h.1
    refine ⟨List.length_pos_iff.1 ?_, ?_⟩
    · exact Nat.lt_of_lt_of_le hpos hle
    · have htwo := h.2
      simp only [Stack.modify, List.length_nil] at htwo ⊢
      omega
  · exact h

/-- A stack with several parts keeps them when a delimiter is read. -/
theorem read (h : Several s) (d : Delimiter) (span : Span) : Several (s.read ⟨.delimiter d, span⟩) := by
  have htakes := s.takes_read ⟨.delimiter d, span⟩
  generalize s.read ⟨.delimiter d, span⟩ = s' at htakes ⊢
  cases htakes with
  | opens kind => exact ⟨h.1, Nat.le_succ_of_le h.2⟩
  | @closes outer fr frs _ hstack =>
      subst hstack
      cases frs with
      | nil => exact ⟨List.cons_ne_nil _ _, Nat.add_le_add_right (List.length_pos_iff.2 h.1) 1⟩
      | cons fr' frs =>
          have hpos : 0 < outer.length := List.length_pos_iff.2 h.1
          refine ⟨h.1, ?_⟩
          simp only [Stack.modify, List.length_cons]
          omega
  | unaccepted => exact h.modify (length_le_pushText _ _)

end Several

namespace Cursor

variable {inlineMath : Bool} {k : Cursor}

theorem along_several (inlineMath : Bool) : Along inlineMath fun k _ => Several k.stack :=
  ⟨fun _ h => h.modify (length_le_pushText _ _), fun _ h => h.read _ _⟩

/-- Behind a roll there is no roll that is alone. -/
theorem several_of_read {fr : Frame} {p : Position} {t : Text} (hstack : k.stack = ⟨[fr.node true p], []⟩)
    (ht : t ≠ []) :
    Several (k.read inlineMath t).stack := by
  have htext (u : Text) (span : Span) : Several (k.stack.modify (pushText u span)) := by
    rw [hstack]
    exact ⟨List.cons_ne_nil _ _, Nat.le_refl 2⟩
  rcases t with - | ⟨c, - | ⟨d, cs⟩⟩
  · exact absurd rfl ht
  · exact htext [c] _
  · rw [Cursor.read]
    split
    · rename_i e hpair
      refine (along_several inlineMath).read ?_
      rcases e.eq_opener_or_closer with ⟨kind, rfl | rfl⟩
      · show Several (k.stack.read _)
        rw [Stack.read_opener, hstack]
        exact ⟨List.cons_ne_nil _ _, Nat.le_refl 2⟩
      · show Several (k.stack.read _)
        rw [Stack.read_closer, hstack]
        exact ⟨List.cons_ne_nil _ _, Nat.le_refl 2⟩
    · exact (along_several inlineMath).read (htext [c] _)

def within (base : Kind) (opener : Span) (k : Cursor) : Cursor :=
  ⟨k.mode, k.stack.within base opener, k.reached⟩

theorem within_text (base : Kind) (opener : Span) (k : Cursor) (t : Text) :
    (k.within base opener).text t = (k.text t).within base opener := by
  simp only [text, within, Stack.within_modify]

theorem within_delimiter (base : Kind) (opener : Span) (h : k.stack.frames ≠ []) (d : Delimiter) :
    (k.within base opener).delimiter d = (k.delimiter d).within base opener := by
  simp only [delimiter, within, Stack.within_read h]

end Cursor

end Markup

namespace Evaluation

open Markup

variable {roller : Roller} {x : Step Text} {inlineMath : Bool}

theorem Follows.frames_eq_nil {s s' : Stack} (h : Follows roller x s s') : s.frames = [] ↔ s'.frames = [] := by
  rcases s with ⟨outer, frames⟩
  rcases s' with ⟨outer', frames'⟩
  cases h.frames <;> simp

/-- If nothing but one roll is read from a text by itself, then inside of another roll it is read alike. By induction on
how it is read by itself. -/
theorem read_within {k k' : Cursor} {t : Text} {n : Node} (base : Kind) (opener : Span) (hmode : k.mode = k'.mode)
    (h : Follows roller x k.stack k'.stack) (hframes : k'.stack.frames ≠ []) (houter : k'.stack.outer = [])
    (hend : (k'.read inlineMath t).stack = ⟨[n], []⟩) (more : Text) :
    (k.within base opener).read inlineMath (t ++ more) =
      ((k.read inlineMath t).within base opener).read inlineMath more := by
  have hopen {k k' : Cursor} (h : Follows roller x k.stack k'.stack) (hframes : k'.stack.frames ≠ []) :
      k.stack.frames ≠ [] := fun hnil => hframes (h.frames_eq_nil.1 hnil)
  fun_induction Cursor.read inlineMath k' t generalizing k with
  | case1 k' => exact absurd (congrArg Stack.frames hend) hframes
  | case2 k' c => exact absurd (congrArg Stack.frames hend) fun hnil => hframes (Stack.frames_modify.1 hnil)
  | case3 k' c d cs e hpair ih =>
      have hpair' : Delimiter.ofPair? inlineMath k.mode c d = some e := hmode ▸ hpair
      have hmode' : (k.delimiter e).mode = (k'.delimiter e).mode := congrArg (Mode.after · e) hmode
      rw [List.cons_append, List.cons_append, Cursor.read_of_ofPair? (k := k.within base opener) hpair',
        Cursor.read_of_ofPair? hpair',
        Cursor.within_delimiter base opener (hopen h hframes)]
      -- a roll stays open, or the outermost one ends: then nothing is left of the text, for it would be another node
      obtain ⟨hmore, hsame⟩ | ⟨fr, hlast⟩ := Stack.read_cases hframes e
        ⟨k'.reached, k'.reached.after e.source⟩
      · exact ih hmode' (h.readDelimiter e _ _) hmore (hsame.trans houter) hend
      · have hcs : cs = [] := by
          by_contra hne
          have hseveral : Several ((k'.delimiter e).read inlineMath cs).stack :=
            Cursor.several_of_read (hlast.trans (by rw [houter])) hne
          rw [hend] at hseveral
          exact absurd hseveral.2 (by simp)
        rw [hcs]
        rfl
  | case4 k' c d cs hpair ih =>
      have hbegins (ds : Text) : ¬Begins inlineMath k.mode (c :: d :: ds) :=
        not_begins_of_ofPair? (hmode ▸ hpair) ds
      rw [List.cons_append, List.cons_append, Cursor.read_of_not_begins (k := k.within base opener) (hbegins _),
        Cursor.read_of_not_begins (hbegins _), Cursor.within_text]
      exact ih hmode (h.modify (writes_pushText _ _) (writes_pushText _ _))
        (fun hnil => hframes (Stack.frames_modify.1 hnil)) ((Stack.outer_modify hframes).trans houter) hend

/-! ## Texts around a roll -/

/-- A text in which nothing is special. -/
def Unmarked (t : Text) : Prop := ∀ c ∈ t, c ∉ ['[', ']', '<', '>']

def asRoll (t : Text) : Text := '[' :: '[' :: (t ++ [']', ']'])

/-- No delimiter begins in an unmarked text. -/
theorem Unmarked.not_begins {c : Char} {cs : Text} (h : Unmarked (c :: cs)) (m : Mode) (ds : Text) :
    ¬Begins inlineMath m (c :: ds) := by
  rintro ⟨x, y, zs, e, heq, hpair⟩
  cases heq
  have hsource := Delimiter.source_of_ofPair? hpair
  refine h c List.mem_cons_self ?_
  cases e <;> cases hsource <;> simp

theorem Writes.then {y z : Step Text} {f g : List Node → List Node} (hf : Writes roller y f) (hg : Writes roller z g) :
    Writes roller (joined y z) fun ns => g (f ns) := by
  intro ns
  rw [hg, hf, joined_assoc]

/-- A text in which nothing is special is written where it stands, whatever follows it. -/
theorem read_unmarked (roller : Roller) (inlineMath : Bool) {t : Text} (ht : Unmarked t) (k : Cursor) :
    ∃ f p, Writes roller (pure t) f ∧ ∀ more,
      k.read inlineMath (t ++ more) = (⟨k.mode, k.stack.modify f, p⟩ : Cursor).read inlineMath more := by
  induction t generalizing k with
  | nil =>
      refine ⟨id, k.reached, fun ns => (joined_nil _).symm, fun more => ?_⟩
      rcases k with ⟨mode, ⟨outer, - | ⟨fr, frs⟩⟩, reached⟩ <;> rfl
  | cons c cs ih =>
      obtain ⟨f, p, hf, hread⟩ := ih (fun d hd => ht d (.tail _ hd)) (k.text [c])
      have hhead : Writes roller (pure [c]) (pushText [c] ⟨k.reached, k.reached.after [c]⟩) := writes_pushText _ _
      have hboth := hhead.then hf
      rw [joined_pure, List.singleton_append] at hboth
      refine ⟨_, p, hboth, fun more => ?_⟩
      rw [List.cons_append, Cursor.read_of_not_begins (ht.not_begins k.mode _), hread more]
      simp only [Cursor.text, Stack.modify_modify]

/-- Reading goes on in the same mode, whatever was read before. -/
theorem mode_read {k k' : Cursor} (h : k.mode = k'.mode) (t : Text) :
    (k.read inlineMath t).mode = (k'.read inlineMath t).mode := by
  fun_induction Cursor.read inlineMath k t generalizing k' with
  | case1 k => exact h
  | case2 k c => exact h
  | case3 k c d cs e hpair ih =>
      rw [Cursor.read_of_ofPair? (h ▸ hpair)]
      exact ih (congrArg (Mode.after · e) h)
  | case4 k c d cs hpair ih =>
      rw [Cursor.read_of_not_begins (not_begins_of_ofPair? (h ▸ hpair) cs)]
      exact ih h

/-- The last of the nodes is not closed if rolls are open at the end. -/
theorem finishFrames_cons (p : Position) (outer late : List Node) (fr : Frame) (frs : List Frame) :
    ∃ kind ns span, finishFrames p outer late (fr :: frs) = outer.reverse ++ [.roll kind false ns span] := by
  induction frs generalizing fr late with
  | nil => exact ⟨_, _, _, List.reverse_cons⟩
  | cons fr' frs ih => exact ih _ fr'

/-- If a message is nothing but a closed roll, then nothing else is read. -/
theorem stack_of_children {p : Position} {s : Stack} {kind : Kind} {ns : List Node} {span : Span}
    (h : finishFrames p s.outer [] s.frames = [.roll kind true ns span]) : s = ⟨[.roll kind true ns span], []⟩ := by
  rcases s with ⟨outer, - | ⟨fr, frs⟩⟩
  · rw [← List.reverse_reverse outer]
    exact congrArg (fun ns => (⟨ns.reverse, []⟩ : Stack)) h
  · obtain ⟨kind', ns', span', heq⟩ := finishFrames_cons p outer [] fr frs
    have hlast := congrArg List.getLast? (heq.symm.trans h)
    simp at hlast

def opened : Cursor := ⟨.ordinary, ⟨[], []⟩, Position.start.after Delimiter.rollOpen.source⟩

def openedSpan : Span := ⟨.start, opened.reached⟩

/-- A message that is a roll, from what is read inside of it. -/
theorem children_asRoll (inlineMath : Bool) {t : Text} {k : Cursor} (hmode : k.mode = .ordinary)
    (hframes : k.stack.frames = [])
    (h : ∀ more, (opened.within .roll openedSpan).read inlineMath (t ++ more) =
      (k.within .roll openedSpan).read inlineMath more) :
    ∃ span, (parse inlineMath (asRoll t)).children = [.roll .roll true k.stack.outer.reverse span] := by
  rcases k with ⟨mode, ⟨outer, frames⟩, reached⟩
  obtain rfl : mode = .ordinary := hmode
  obtain rfl : frames = [] := hframes
  have hread : Cursor.start.read inlineMath (asRoll t) =
      ((⟨.ordinary, ⟨outer, []⟩, reached⟩ : Cursor).within .roll openedSpan).read inlineMath [']', ']'] :=
    (Cursor.read_of_ofPair? (e := .rollOpen) rfl _).trans (h [']', ']'])
  refine ⟨⟨.start, reached.after Delimiter.rollClose.source⟩, ?_⟩
  rw [parse_eq, hread]
  rfl

/-- A text as a roll. -/
theorem evaluateNodes_unmarked (roller : Roller) (inlineMath : Bool) {t : Text} (ht : Unmarked t) :
    ∃ ns span, (parse inlineMath (asRoll t)).children = [.roll .roll true ns span] ∧
      evaluateNodes roller ns = pure t := by
  obtain ⟨f, q, hf, hread⟩ := read_unmarked roller inlineMath ht (opened.within .roll openedSpan)
  obtain ⟨span, hchildren⟩ := children_asRoll inlineMath (k := ⟨.ordinary, ⟨f [], []⟩, q⟩) rfl rfl hread
  refine ⟨_, span, hchildren, ?_⟩
  rw [hf]
  simp [evaluateNodes]

/-- A roll between two texts is one roll. Its text is that of the first, the result of the roll, and that of the
second. -/
theorem evaluateNodes_around (roller : Roller) {p e s : Text} (hp : Unmarked p) (hs : Unmarked s) {inner : List Node}
    {span : Span} (h : (parse inlineMath (asRoll e)).children = [.roll .roll true inner span]) :
    ∃ ns span', (parse inlineMath (asRoll (p ++ (asRoll e ++ s)))).children = [.roll .roll true ns span'] ∧
      evaluateNodes roller ns =
        joined (joined (pure p) (evaluateNode roller (.roll .roll true inner span))) (pure s) := by
  -- the roll by itself
  let k' := Cursor.start.delimiter .rollOpen
  have hown : Cursor.start.read inlineMath (asRoll e) = k'.read inlineMath (e ++ [']', ']']) :=
    Cursor.read_of_ofPair? rfl _
  have hend : (k'.read inlineMath (e ++ [']', ']'])).stack = ⟨[.roll .roll true inner span], []⟩ := by
    rw [parse_eq] at h
    rw [← hown]
    exact stack_of_children h
  have hordinary : (k'.read inlineMath (e ++ [']', ']'])).mode = .ordinary := by
    rw [← hown]
    exact ordinary_of_frames ((Cursor.along_inStep inlineMath).read Cursor.inStep_start) (by rw [hown, hend])
  -- the same behind the first text
  obtain ⟨f, q, hf, hreadp⟩ := read_unmarked roller inlineMath hp (opened.within .roll openedSpan)
  let k : Cursor := ⟨.ordinary, ⟨f [], []⟩, q⟩
  have hbegin : Follows roller (pure p) k.stack Cursor.start.stack := by
    refine ⟨?_, .nil⟩
    show evaluateNodes roller (f []).reverse = _
    rw [hf]
    simp [evaluateNodes, Cursor.start]
  have hfollows : Follows roller (pure p) (k.delimiter .rollOpen).stack k'.stack := hbegin.readDelimiter .rollOpen _ _
  have hsame : (k.delimiter .rollOpen).mode = k'.mode := rfl
  have hin := read_within .roll openedSpan hsame hfollows (List.cons_ne_nil _ _) rfl hend
  have hends := follows_read inlineMath hsame hfollows (e ++ [']', ']'])
  rw [hend] at hends
  let j := (k.delimiter .rollOpen).read inlineMath (e ++ [']', ']'])
  have hframes : j.stack.frames = [] := hends.frames_eq_nil.2 rfl
  have hmode : j.mode = .ordinary := (mode_read hsame _).trans hordinary
  -- and the second text
  obtain ⟨g, r, hg, hreads⟩ := read_unmarked roller inlineMath hs (j.within .roll openedSpan)
  have hstack : (j.within .roll openedSpan).stack.modify g =
      Stack.within .roll openedSpan ⟨g j.stack.outer, []⟩ := by
    show (j.stack.within .roll openedSpan).modify g = _
    rw [Stack.within_modify, Stack.modify, hframes]
  rw [hstack] at hreads
  obtain ⟨span', hchildren⟩ := children_asRoll inlineMath (t := p ++ (asRoll e ++ s))
    (k := ⟨j.mode, ⟨g j.stack.outer, []⟩, r⟩) hmode rfl (fun more => by
      rw [List.append_assoc, hreadp]
      refine Eq.trans ?_ (hreads more)
      rw [← hin]
      show (k.within .roll openedSpan).read inlineMath ('[' :: '[' :: (e ++ [']', ']'] ++ s ++ more)) = _
      rw [Cursor.read_of_ofPair? (e := .rollOpen) rfl, List.append_assoc]
      rfl)
  refine ⟨_, span', hchildren, ?_⟩
  rw [hg, hends.outer]
  simp [evaluateNodes_singleton]

end Evaluation

end TabletopChat
