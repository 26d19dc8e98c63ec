import TabletopChat.Proofs.Markup.Cursor

/-!
# Proofs/Markup/NormalForm — what the tree of a message looks like

Whatever is wrong with the delimiters of a message, its tree has a normal form. Text is never empty and
never cut in two, and holds no delimiter that would be read where it stands; inline math holds at most
one text. Rolls without their closing delimiter reach the end of the message, so that they stand one
inside the other along the right edge of the tree.

- `Level`, `Neat`        : nodes side by side, and what they look like
- `rightEdge`            : from the last node down to the last leaf
- `NormalForm`           : what the tree looks like
- `Cursor.Keeps`         : what every step of reading a message keeps
- `Edged`                : nodes whose unclosed rolls stand on the right edge
- `parse_normalForm`     : every tree
-/

namespace TabletopChat

namespace Markup

/-! ## The normal form -/

/-- Nodes side by side on the top level, or inside of a roll of a kind. -/
inductive Level (top : List Node) : Option Kind → List Node → Prop
  | top : Level top none top
  | inside {kind : Kind} {closed : Bool} {children : List Node} {span : Span} :
      Occurs (.roll kind closed children span) top → Level top (some kind) children

/-- The delimiters that no text holds on the top level, or inside of a roll of a kind. -/
def Barred : Option Kind → Delimiter → Prop
  | none, d => d = .rollOpen
  | some .roll, d => d = .rollOpen ∨ d = .rollClose
  | some .math, _ => False

structure Neat (within : Option Kind) (ns : List Node) : Prop where
  /-- no text is empty -/
  nonempty : ∀ span, .text [] span ∉ ns
  /-- no text follows another -/
  apart : ns.IsChain fun n m => ¬(n.isText = true ∧ m.isText = true)
  /-- no text holds a delimiter that is barred -/
  free : ∀ t span, .text t span ∈ ns → ∀ d, Barred within d → ¬d.source <:+: t
  /-- inline math holds nothing but one text -/
  alone : within = some .math → ns = [] ∨ ∃ t span, ns = [.text t span]

mutual

/-- A node, its last child, and so on down to a node without children. -/
def Node.rightEdge : Node → List Node
  | .text t span => [.text t span]
  | .roll kind closed children span => .roll kind closed children span :: rightEdge children

def rightEdge : List Node → List Node
  | [] => []
  | n :: ns => if ns.isEmpty then n.rightEdge else rightEdge ns

end

/-- The normal form of a tree. -/
structure NormalForm (m : Message) : Prop where
  neat : ∀ within ns, Level m.children within ns → Neat within ns
  /-- an unclosed roll is the last node on its level -/
  last : ∀ within ns, Level m.children within ns →
    ∀ before n behind, ns = before ++ n :: behind → ¬n.Closed → behind = []
  /-- a roll with an unclosed roll inside of it is unclosed itself -/
  around : ∀ kind closed children span, Occurs (.roll kind closed children span) m.children →
    (∃ n, Occurs n children ∧ ¬n.Closed) → closed = false
  /-- the unclosed rolls are where the right edge begins -/
  edge : ∃ unclosed rest, rightEdge m.children = unclosed ++ rest ∧ (∀ n ∈ unclosed, ¬n.Closed) ∧
    (∀ n ∈ rest, n.Closed) ∧ ∀ n, Occurs n m.children → ¬n.Closed → n ∈ unclosed

/-! ## Nodes with all that is below them -/

/-- Nodes that stand side by side as they should, and all that is below them does. -/
structure Tidy (within : Option Kind) (ns : List Node) : Prop where
  here : Neat within ns
  below : ∀ kind closed children span, Occurs (.roll kind closed children span) ns →
    Neat (some kind) children

variable {within : Option Kind} {ns : List Node}

theorem Tidy.nil (within : Option Kind) : Tidy within [] :=
  ⟨⟨by simp, .nil, by simp, fun _ => .inl rfl⟩, fun _ _ _ _ h => absurd h (not_occurs_nil _)⟩

/-- The nodes behind the first one are tidy. -/
theorem Tidy.tail {n : Node} (h : Tidy within (n :: ns)) : Tidy within ns := by
  refine ⟨⟨?_, h.here.apart.tail, ?_, ?_⟩, ?_⟩
  · exact fun span hmem => h.here.nonempty span (List.mem_cons_of_mem n hmem)
  · exact fun t span hmem => h.here.free t span (List.mem_cons_of_mem n hmem)
  · intro hwithin
    rcases h.here.alone hwithin with hnil | ⟨t, span, hone⟩
    · cases hnil
    · cases hone
      exact .inl rfl
  · exact fun kind closed children span hn => h.below kind closed children span (occurs_cons.2 (.inr hn))

/-- A text in front of nodes that do not begin with one. -/
theorem Tidy.text (h : Tidy within ns) {t : Text} (ht : t ≠ []) (span : Span)
    (hfree : ∀ d, Barred within d → ¬d.source <:+: t) (hhead : ∀ n ∈ ns.head?, n.isText = false)
    (halone : within = some .math → ns = []) : Tidy within (.text t span :: ns) := by
  refine ⟨⟨?_, h.here.apart.cons ?_, ?_, ?_⟩, ?_⟩
  · intro s hmem
    rcases List.mem_cons.1 hmem with heq | hmem
    · cases heq
      exact ht rfl
    · exact h.here.nonempty s hmem
  · intro n hn hboth
    rw [hhead n hn] at hboth
    cases hboth.2
  · intro u s hmem
    rcases List.mem_cons.1 hmem with heq | hmem
    · cases heq
      exact hfree
    · exact h.here.free u s hmem
  · intro hwithin
    rw [halone hwithin]
    exact .inr ⟨t, span, rfl⟩
  · intro kind closed children s hn
    rw [occurs_cons, occurs_text] at hn
    rcases hn with heq | hn
    · cases heq
    · exact h.below kind closed children s hn

/-- A roll in front of nodes, but not in inline math. -/
theorem Tidy.roll (h : Tidy within ns) (hwithin : within ≠ some .math) {kind : Kind}
    {children : List Node} (hchildren : Tidy (some kind) children) (closed : Bool) (span : Span) :
    Tidy within (.roll kind closed children span :: ns) := by
  refine ⟨⟨?_, h.here.apart.cons ?_, ?_, fun heq => absurd heq hwithin⟩, ?_⟩
  · exact fun s hmem => h.here.nonempty s (by simpa using hmem)
  · rintro n - ⟨htext, -⟩
    cases htext
  · exact fun t s hmem => h.here.free t s (by simpa using hmem)
  · intro kind' closed' children' s hn
    rw [occurs_cons, occurs_roll] at hn
    rcases hn with (heq | hn) | hn
    · cases heq
      exact hchildren.here
    · exact hchildren.below kind' closed' children' s hn
    · exact h.below kind' closed' children' s hn

/-- Nodes are tidy in the other order, too. -/
theorem Tidy.reverse (h : Tidy within ns) : Tidy within ns.reverse := by
  refine ⟨⟨?_, ?_, ?_, ?_⟩, ?_⟩
  · exact fun span hmem => h.here.nonempty span (List.mem_reverse.1 hmem)
  · exact List.isChain_reverse.2 (h.here.apart.imp fun n m hnm hmn => hnm hmn.symm)
  · exact fun t span hmem => h.here.free t span (List.mem_reverse.1 hmem)
  · intro hwithin
    rcases h.here.alone hwithin with rfl | ⟨t, span, rfl⟩
    · exact .inl rfl
    · exact .inr ⟨t, span, rfl⟩
  · exact fun kind closed children span hn => h.below kind closed children span (occurs_reverse.1 hn)

/-! ## The text that is being read -/

/-- The text that nodes (last one first) end with, which a text behind them joins. -/
def openText : List Node → Text
  | .text t _ :: _ => t
  | _ => []

theorem openText_pushText (t : Text) (span : Span) (ns : List Node) :
    openText (pushText t span ns) = openText ns ++ t := by
  rcases ns with - | ⟨⟨u, s⟩ | ⟨kind, closed, children, s⟩, ns⟩ <;> rfl

/-- A text behind nodes, if what it makes of the text in front of it holds nothing that is barred. -/
theorem Tidy.pushText (h : Tidy within ns) {t : Text} (ht : t ≠ []) (span : Span)
    (hfree : ∀ d, Barred within d → ¬d.source <:+: openText ns ++ t) :
    Tidy within (pushText t span ns) := by
  rcases ns with - | ⟨⟨u, s⟩ | ⟨kind, closed, children, s⟩, ns⟩
  · exact h.text ht span hfree (by simp) fun _ => rfl
  · refine h.tail.text (by simp [ht]) _ hfree ?_ ?_
    · -- what the longer text follows is what the shorter one followed
      intro n hn
      have hapart := (List.isChain_cons.1 h.here.apart).1 n hn
      cases htext : n.isText with
      | false => rfl
      | true => exact absurd ⟨rfl, htext⟩ hapart
    · intro hwithin
      rcases h.here.alone hwithin with hnil | ⟨v, r, hone⟩
      · cases hnil
      · cases hone
        rfl
  · refine h.text ht span hfree ?_ ?_
    · intro n hn
      cases hn
      rfl
    · intro hwithin
      rcases h.here.alone hwithin with hnil | ⟨v, r, hone⟩
      · cases hnil
      · cases hone

/-! ## Stacks -/

namespace Stack

/-- Where the next node will stand: on the top level, or inside of the innermost open roll. -/
def level (s : Stack) : Option Kind := s.frames.head?.map Frame.kind

/-- The nodes there so far, last one first. -/
def current (s : Stack) : List Node :=
  match s.frames with
  | [] => s.outer
  | fr :: _ => fr.inner

structure Tidy (s : Stack) : Prop where
  outer : Markup.Tidy none s.outer
  frames : ∀ fr ∈ s.frames, Markup.Tidy (some fr.kind) fr.inner

variable {s s' : Stack}

@[simp] theorem level_modify (f : List Node → List Node) (s : Stack) :
    (s.modify f).level = s.level := by
  rcases s with ⟨outer, - | ⟨fr, frs⟩⟩ <;> rfl

@[simp] theorem current_modify (f : List Node → List Node) (s : Stack) :
    (s.modify f).current = f s.current := by
  rcases s with ⟨outer, - | ⟨fr, frs⟩⟩ <;> rfl

theorem Tidy.current (h : s.Tidy) : Markup.Tidy s.level s.current := by
  rcases s with ⟨outer, - | ⟨fr, frs⟩⟩
  · exact h.outer
  · exact h.frames fr (List.mem_cons_self ..)

/-- Changing the nodes of the innermost open roll keeps a stack tidy. -/
theorem Tidy.modify (h : s.Tidy) {f : List Node → List Node}
    (hf : Markup.Tidy s.level (f s.current)) : (s.modify f).Tidy := by
  rcases s with ⟨outer, - | ⟨fr, frs⟩⟩
  · exact ⟨hf, by simp [Stack.modify]⟩
  · refine ⟨h.outer, fun fr' hfr' => ?_⟩
    rcases List.mem_cons.1 hfr' with rfl | hmem
    · exact hf
    · exact h.frames fr' (List.mem_cons_of_mem _ hmem)

theorem Tidy.push (h : s.Tidy) (kind : Kind) (span : Span) : (s.push kind span).Tidy := by
  refine ⟨h.outer, fun fr hfr => ?_⟩
  rcases List.mem_cons.1 hfr with rfl | hmem
  · exact .nil _
  · exact h.frames fr hmem

/-- A roll that ends is a node on the level around it, which is not inline math. -/
theorem Tidy.close (h : s.Tidy) {d : Delimiter} {p : Position} (hclose : s.close? d p = some s')
    (hlevel : s'.level ≠ some .math) : s'.Tidy ∧ openText s'.current = [] := by
  obtain ⟨outer, fr, frs, rfl, -, rfl⟩ := exists_of_close hclose
  have hrest : Stack.Tidy ⟨outer, frs⟩ :=
    ⟨h.outer, fun fr' hmem => h.frames fr' (List.mem_cons_of_mem _ hmem)⟩
  rw [level_modify] at hlevel
  refine ⟨hrest.modify (hrest.current.roll hlevel ?_ true _), by rw [current_modify]; rfl⟩
  exact (h.frames fr (List.mem_cons_self ..)).reverse

theorem head?_opened (s : Stack) : s.opened.head?.map Opened.kind = s.level := by
  rcases s with ⟨outer, - | ⟨fr, frs⟩⟩ <;> rfl

/-- A closing delimiter that is barred is one that the innermost open roll accepts. -/
theorem not_barred_of_unaccepted {kind : Kind} (h : ∀ o ∈ s.opened.head?, o.kind ≠ kind) :
    ¬Barred s.level kind.closer := by
  rcases s with ⟨outer, - | ⟨⟨own, opener, inner⟩, frs⟩⟩
  · cases kind <;> simp [Stack.level, Barred, Kind.closer]
  · have hkind : own ≠ kind := h _ rfl
    cases own <;> cases kind <;> simp_all [Stack.level, Barred, Kind.closer]

end Stack

/-! ## Reading -/

/-- A pair in a text is in the text without its last character, or at its end. -/
theorem infix_pair_concat {x y c d : Char} {t : Text} (h : [x, y] <:+: t ++ [c] ++ [d]) :
    [x, y] <:+: t ++ [c] ∨ [x, y] = [c, d] := by
  rcases List.infix_concat_iff.1 h with hsuffix | hfound
  · rcases hsuffix with ⟨u, hu⟩
    have hsplit : u ++ [x, y] = t ++ [c, d] := by simpa using hu
    exact .inr (List.append_inj' hsplit rfl).2
  · exact .inl hfound

theorem Delimiter.exists_source (d : Delimiter) : ∃ c, d.source = [c, c] := by
  cases d <;> exact ⟨_, rfl⟩

theorem Delimiter.source_injective : Function.Injective Delimiter.source := by
  intro d e h
  cases d <;> cases e <;> first | rfl | cases h

namespace Cursor

variable {inlineMath : Bool} {k : Cursor}

/-- What is read so far stands as it should, and with the next character the text that is being read
holds nothing that is barred. -/
structure Keeps (k : Cursor) (rest : Text) : Prop where
  inStep : k.InStep
  tidy : k.stack.Tidy
  awaits : ∀ d, Barred k.stack.level d → ¬d.source <:+: openText k.stack.current ++ rest.take 1

/-- A single character is no delimiter. -/
theorem not_infix_take_one (d : Delimiter) (t : Text) : ¬d.source <:+: [] ++ t.take 1 := by
  intro hfound
  rcases d.exists_source with ⟨c, hsource⟩
  have hlength := hfound.length_le
  simp only [hsource, List.nil_append, List.length_cons, List.length_nil, List.length_take] at hlength
  omega

theorem keeps_start (source : Text) : start.Keeps source :=
  ⟨inStep_start, ⟨.nil _, by simp [start]⟩, fun d _ => not_infix_take_one d source⟩

/-- A character is read with which, and with the next one, nothing comes about that is barred. -/
theorem Keeps.text {c : Char} {cs : Text} (h : k.Keeps (c :: cs))
    (hnext : ∀ x ∈ cs.head?, ∀ d, Barred k.stack.level d → d.source ≠ [c, x]) :
    (k.text [c]).Keeps cs := by
  have hfree (d : Delimiter) (hd : Barred k.stack.level d) :
      ¬d.source <:+: openText k.stack.current ++ [c] := h.awaits d hd
  refine ⟨h.inStep.text [c], ?_, ?_⟩
  · exact h.tidy.modify (h.tidy.current.pushText (List.cons_ne_nil c []) _ hfree)
  · intro d hd hfound
    simp only [Cursor.text, Stack.level_modify, Stack.current_modify, openText_pushText] at hd hfound
    cases cs with
    | nil => exact hfree d hd (by simpa using hfound)
    | cons x cs =>
        rcases d.exists_source with ⟨y, hsource⟩
        rw [hsource] at hfound
        rcases infix_pair_concat hfound with hbefore | hpair
        · exact hfree d hd (hsource ▸ hbefore)
        · exact hnext x rfl d hd (hsource.trans hpair)

theorem InStep.level_ne_math (h : k.InStep) (hmode : k.mode = .ordinary) : k.stack.level ≠ some .math := by
  rw [← Stack.head?_opened]
  intro hlevel
  rcases Option.map_eq_some_iff.1 hlevel with ⟨o, ho, hkind⟩
  exact h.ne_math_of_ordinary hmode o ho hkind

theorem InStep.level_eq_math (h : k.InStep) (hmode : k.mode = .math) : k.stack.level = some .math := by
  rw [← Stack.head?_opened]
  simp only [InStep, hmode] at h
  rcases h with ⟨o, os, hopened, hkind, -⟩
  rw [hopened, List.head?_cons, Option.map_some, hkind]

/-- Where no delimiter begins, none comes about that is barred. -/
theorem source_ne_of_not_begins (h : k.InStep) {c x : Char} {cs : Text}
    (hbegins : ¬Begins inlineMath k.mode (c :: x :: cs)) {d : Delimiter} (hd : Barred k.stack.level d) :
    d.source ≠ [c, x] := by
  intro hsource
  cases hmode : k.mode with
  | math =>
      -- no delimiter is barred in inline math
      rw [h.level_eq_math hmode] at hd
      exact hd
  | ordinary =>
      rw [hmode] at hbegins
      have hactive : d.IsActive inlineMath := by
        have hlevel := h.level_ne_math hmode
        match hwithin : k.stack.level with
        | none =>
            rw [hwithin] at hd
            obtain rfl : d = .rollOpen := hd
            trivial
        | some .roll =>
            rw [hwithin] at hd
            rcases hd with rfl | rfl <;> trivial
        | some .math => exact absurd hwithin hlevel
      exact hbegins (begins_ordinary_of_active hactive (hsource ▸ List.prefix_append [c, x] cs))

/-- A closing delimiter that is not accepted is text. -/
theorem Keeps.unaccepted {kind : Kind} {rest : Text} (h : k.Keeps (kind.closer.source ++ rest))
    (hmode : k.mode = .ordinary) (hkind : ∀ o ∈ k.stack.opened.head?, o.kind ≠ kind) :
    (k.delimiter kind.closer).Keeps rest := by
  rcases kind.closer.exists_source with ⟨c, hsource⟩
  have hother {x : Char} {d : Delimiter} (hd : Barred k.stack.level d) : d.source ≠ [c, x] := by
    intro heq
    rcases d.exists_source with ⟨y, hy⟩
    rw [hy] at heq
    cases heq
    rw [Delimiter.source_injective (hy.trans hsource.symm)] at hd
    exact Stack.not_barred_of_unaccepted hkind hd
  rw [delimiter_unaccepted hmode hkind, hsource]
  rw [hsource] at h
  have htext : k.text [c, c] = (k.text [c]).text [c] := (text_text [c] [c] k).symm
  rw [htext]
  refine (h.text fun x _ d hd => hother hd).text fun x _ d hd => hother (?_ : Barred k.stack.level d)
  simpa [Cursor.text] using hd

/-- A delimiter leaves what is kept about the text behind it. -/
theorem Keeps.delimiter {c d : Char} {e : Delimiter} {cs : Text}
    (hpair : Delimiter.ofPair? inlineMath k.mode c d = some e) (h : k.Keeps (c :: d :: cs)) :
    (k.delimiter e).Keeps cs := by
  have hstep := h.inStep.delimiter hpair
  rcases e.eq_opener_or_closer with ⟨kind, rfl | rfl⟩
  · -- a roll begins, in which there is no text yet
    refine ⟨hstep, ?_, ?_⟩
    · simpa only [Cursor.delimiter, Stack.read_opener] using h.tidy.push kind _
    · simp only [Cursor.delimiter, Stack.read_opener]
      exact fun b _ => not_infix_take_one b cs
  -- a closing delimiter that is not accepted stays text; inside of inline math its own is always accepted
  · by_cases hkind : ∀ o ∈ k.stack.opened.head?, o.kind ≠ kind
    · have hmode : k.mode = .ordinary := by
        cases hmode : k.mode with
        | ordinary => rfl
        | math =>
            have hmath : kind.closer = Kind.closer .math := eq_mathClose_of_ofPair? (hmode ▸ hpair)
            rw [Kind.closer_inj] at hmath
            subst hmath
            have hlevel := h.inStep.level_eq_math hmode
            rw [← Stack.head?_opened] at hlevel
            rcases Option.map_eq_some_iff.1 hlevel with ⟨o, ho, howns⟩
            exact absurd howns (hkind o ho)
      have hsource := Delimiter.source_of_ofPair? hpair
      exact Keeps.unaccepted (hsource ▸ h) hmode hkind
    · -- the innermost roll ends, and becomes a node on the level around it
      obtain ⟨s', hclose⟩ : ∃ s', k.stack.close? kind.closer
          (k.reached.after kind.closer.source) = some s' := by
        rw [← Option.ne_none_iff_exists', Ne, Stack.close?_eq_none_iff]
        exact hkind
      have hstack : (k.delimiter kind.closer).stack = s' := by
        simp only [Cursor.delimiter, Stack.read_closer, hclose, Option.getD_some]
      have hmode : (k.delimiter kind.closer).mode = .ordinary := by
        cases hmode : k.mode <;> cases kind <;>
          simp_all [Cursor.delimiter, Mode.after, Kind.closer, Delimiter.ofPair?]
      rcases h.tidy.close hclose (hstack ▸ hstep.level_ne_math hmode) with ⟨htidy, hopen⟩
      refine ⟨hstep, hstack ▸ htidy, fun b _ => ?_⟩
      rw [hstack, hopen]
      exact not_infix_take_one b cs

theorem along_keeps (inlineMath : Bool) : Along inlineMath Keeps where
  text := fun {k c cs} hbegins h => h.text fun x hx d hd => by
    obtain ⟨es, rfl⟩ := List.head?_eq_some_iff.1 hx
    exact source_ne_of_not_begins h.inStep hbegins hd
  delimiter := Keeps.delimiter

end Cursor

/-! ## The right edge -/

/-- Nodes that are closed, with all that is below them, except for a roll behind them that is not
closed, if there is one, and for what is on the right edge below it. -/
inductive Edged : List Node → Prop
  | closed {ns : List Node} : AllClosed ns → Edged ns
  | unclosed {ns children : List Node} (kind : Kind) (span : Span) :
      AllClosed ns → Edged children → Edged (ns ++ [.roll kind false children span])

theorem rightEdge_concat (ns : List Node) (n : Node) : rightEdge (ns ++ [n]) = n.rightEdge := by
  induction ns with
  | nil => simp [rightEdge]
  | cons m ns ih => simpa [rightEdge] using ih

mutual

/-- A node on the right edge is among the nodes below. -/
theorem Node.occurs_of_mem_rightEdge {m : Node} (n : Node) (h : m ∈ n.rightEdge) : Occurs m [n] := by
  cases n with
  | text t span =>
      simp only [Node.rightEdge] at h
      exact .here h
  | roll kind closed children span =>
      simp only [Node.rightEdge, List.mem_cons] at h
      exact occurs_roll.2 (h.imp_right (occurs_of_mem_rightEdge children))

/-- A node at the right edge occurs among the nodes. -/
theorem occurs_of_mem_rightEdge {m : Node} (ns : List Node) (h : m ∈ rightEdge ns) : Occurs m ns := by
  cases ns with
  | nil => cases h
  | cons n ns =>
      rw [occurs_cons]
      simp only [rightEdge] at h
      split at h
      · exact .inl (Node.occurs_of_mem_rightEdge n h)
      · exact .inr (occurs_of_mem_rightEdge ns h)

end

namespace Edged

variable {kind : Kind} {closed : Bool} {children : List Node} {span : Span}

/-- A roll below closed nodes is closed, with all that is below it; otherwise it may be on the edge. -/
theorem inside (h : Edged ns) (hroll : Occurs (.roll kind closed children span) ns) :
    Edged children ∧ (closed = true → AllClosed children) := by
  induction h with
  | closed hall =>
      have hchildren : AllClosed children := fun n hn => hall n (hroll.trans hn)
      exact ⟨.closed hchildren, fun _ => hchildren⟩
  | unclosed own s hall hlast ih =>
      rw [occurs_append, occurs_roll] at hroll
      rcases hroll with hbefore | heq | hinside
      · have hchildren : AllClosed children := fun n hn => hall n (hbefore.trans hn)
        exact ⟨.closed hchildren, fun _ => hchildren⟩
      · cases heq
        exact ⟨hlast, nofun⟩
      · exact ih hinside

theorem level (h : Edged ns) {within : Option Kind} {ms : List Node} (hlevel : Level ns within ms) :
    Edged ms := by
  cases hlevel with
  | top => exact h
  | inside hroll => exact (h.inside hroll).1

/-- Only the last node may be unclosed. -/
theorem last (h : Edged ns) {before behind : List Node} {n : Node} (hns : ns = before ++ n :: behind)
    (hn : ¬n.Closed) : behind = [] := by
  cases h with
  | closed hall => exact absurd (hall n (.here (by simp [hns]))) hn
  | @unclosed ms children kind span hall hlast =>
      rcases List.eq_nil_or_concat behind with rfl | ⟨behind', m, rfl⟩
      · rfl
      · -- the node would stand among those that are closed
        have hinit : ms = before ++ n :: behind' := by
          have hsplit : ms ++ [.roll kind false children span] = (before ++ n :: behind') ++ [m] := by
            simpa using hns
          exact (List.append_inj' hsplit rfl).1
        exact absurd (hall n (.here (by simp [hinit]))) hn

/-- The unclosed nodes are where the right edge begins. -/
theorem edge (h : Edged ns) :
    ∃ unclosed rest, rightEdge ns = unclosed ++ rest ∧ (∀ n ∈ unclosed, ¬n.Closed) ∧
      (∀ n ∈ rest, n.Closed) ∧ ∀ n, Occurs n ns → ¬n.Closed → n ∈ unclosed := by
  induction h with
  | @closed ns hall =>
      refine ⟨[], rightEdge ns, rfl, by simp, ?_, fun n hn hopen => absurd (hall n hn) hopen⟩
      exact fun n hn => hall n (occurs_of_mem_rightEdge ns hn)
  | @unclosed ns children kind span hall hlast ih =>
      rcases ih with ⟨unclosed, rest, hedge, hunclosed, hrest, hmem⟩
      refine ⟨.roll kind false children span :: unclosed, rest, ?_, ?_, hrest, ?_⟩
      · rw [rightEdge_concat, Node.rightEdge, hedge, List.cons_append]
      · intro n hn
        rcases List.mem_cons.1 hn with rfl | hn
        · exact Bool.false_ne_true
        · exact hunclosed n hn
      · intro n hn hopen
        rw [occurs_append, occurs_roll] at hn
        rcases hn with hbefore | rfl | hinside
        · exact absurd (hall n hbefore) hopen
        · exact List.mem_cons_self ..
        · exact List.mem_cons_of_mem _ (hmem n hinside hopen)

end Edged

/-! ## The end of a message -/

/-- What the roll that ended last at the end of a message looks like, if there is one. -/
def Trailing (late : List Node) : Prop :=
  late = [] ∨ ∃ kind children span, late = [.roll kind false children span] ∧
    Tidy (some kind) children ∧ Edged children

/-- The roll that ended last becomes the last node on the level around it. -/
theorem Trailing.attach {late : List Node} (h : Trailing late) (htidy : Tidy within ns)
    (hclosed : AllClosed ns) (hlevel : late ≠ [] → within ≠ some .math) :
    Tidy within (late ++ ns).reverse ∧ Edged (late ++ ns).reverse := by
  rcases h with rfl | ⟨kind, children, span, rfl, hchildren, hedged⟩
  · exact ⟨htidy.reverse, .closed hclosed.reverse⟩
  · refine ⟨(htidy.roll (hlevel (List.cons_ne_nil _ _)) hchildren false span).reverse, ?_⟩
    rw [List.singleton_append, List.reverse_cons]
    exact .unclosed kind span hclosed.reverse hedged

/-- All rolls that are open at the end become nodes on the right edge. -/
theorem finishFrames_edged {outer late : List Node} {frames : List Frame} (finish : Position)
    (htidy : Stack.Tidy ⟨outer, frames⟩) (hclosed : Stack.Closed ⟨outer, frames⟩) (hlate : Trailing late)
    (hfirst : late ≠ [] → ∀ fr ∈ frames, fr.kind = .roll)
    (hrest : ∀ fr ∈ frames.tail, fr.kind = .roll) :
    Tidy none (finishFrames finish outer late frames) ∧
      Edged (finishFrames finish outer late frames) := by
  -- the innermost roll ends first, and is what ended last for the roll around it
  induction frames generalizing late with
  | nil => exact hlate.attach htidy.outer hclosed.outer fun _ => nofun
  | cons fr frs ih =>
      have hmem : fr ∈ fr :: frs := List.mem_cons_self ..
      have hlevel (hne : late ≠ []) : some fr.kind ≠ some Kind.math := by
        rw [hfirst hne fr hmem]
        nofun
      rcases hlate.attach (htidy.frames fr hmem) (hclosed.frames fr hmem) hlevel with ⟨hinner, hedged⟩
      have hsub (fr' : Frame) (hfr' : fr' ∈ frs) : fr' ∈ fr :: frs := List.mem_cons_of_mem _ hfr'
      refine ih ⟨htidy.outer, fun fr' hfr' => htidy.frames fr' (hsub fr' hfr')⟩
        ⟨hclosed.outer, fun fr' hfr' => hclosed.frames fr' (hsub fr' hfr')⟩
        (.inr ⟨_, _, _, rfl, hinner, hedged⟩) (fun _ => hrest) ?_
      exact fun fr' hfr' => hrest fr' (List.mem_of_mem_tail hfr')

namespace Cursor

variable {k : Cursor}

/-- Inline math is open only inside of all other rolls. -/
theorem InStep.roll_of_mem_tail (h : k.InStep) : ∀ fr ∈ k.stack.frames.tail, fr.kind = .roll := by
  have htail : ∀ o ∈ k.stack.opened.tail, o.kind = .roll := by
    cases hmode : k.mode with
    | ordinary =>
        simp only [InStep, hmode] at h
        exact fun o ho => h o (List.mem_of_mem_tail ho)
    | math =>
        simp only [InStep, hmode] at h
        rcases h with ⟨o, os, hopened, -, hos⟩
        rwa [hopened]
  intro fr hfr
  rw [Stack.opened, ← List.map_tail] at htail
  exact htail _ (List.mem_map_of_mem (f := fun fr : Frame => (⟨fr.kind, fr.opener⟩ : Opened)) hfr)

theorem along_closed (inlineMath : Bool) : Along inlineMath fun k _ => k.stack.Closed where
  text := fun _ h => h.modify fun _ hns => hns.pushText _ _
  delimiter := fun _ h => h.takes (Stack.takes_read _ _)

end Cursor

/-! ## Messages -/

/-- Every message has a tree in normal form, whatever is wrong with its delimiters. -/
theorem parse_normalForm (inlineMath : Bool) (source : Text) : NormalForm (parse inlineMath source) := by
  have hkeeps : (Cursor.start.read inlineMath source).Keeps [] :=
    (Cursor.along_keeps inlineMath).read (Cursor.keeps_start source)
  have hclosed : (Cursor.start.read inlineMath source).stack.Closed :=
    (Cursor.along_closed inlineMath).read (Stack.Reached.start).closed
  rcases finishFrames_edged (Position.start.after source) hkeeps.tidy hclosed (.inl rfl)
    (absurd rfl) hkeeps.inStep.roll_of_mem_tail with ⟨htidy, hedged⟩
  rw [parse_eq]
  exact {
    neat := by
      intro within ns hlevel
      cases hlevel with
      | top => exact htidy.here
      | inside hroll => exact htidy.below _ _ _ _ hroll
    last := fun within ns hlevel before n behind hns hn => (hedged.level hlevel).last hns hn
    around := by
      rintro kind closed children span hroll ⟨n, hn, hopen⟩
      cases closed with
      | false => rfl
      | true => exact absurd ((hedged.inside hroll).2 rfl n hn) hopen
    edge := hedged.edge }

end Markup

end TabletopChat
