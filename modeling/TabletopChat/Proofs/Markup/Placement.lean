import TabletopChat.Proofs.Markup.OpenRolls

/-!
# Proofs/Markup/Placement — every node covers the stretch it was read from

The tree of a message loses nothing and moves nothing: each node, at any depth, is written like the
stretch of the message that it covers, and the children of a node fill what lies between its delimiters.

- `slice`, `Tile`, `Occurs`, `Node.Filled` : stretches of a text, nodes side by side, nodes at any depth
- `Node.At`, `AllAt`      : nodes that lie where their source puts them
- `Stack.Reads`           : what the stack of open rolls keeps about the text read so far
- `parse_covers_source`   : the tree of a message, node by node
-/

namespace TabletopChat

namespace Markup

/-! ## Stretches and nodes in them -/

def slice (source : Text) (s : Span) : Text := (source.take s.finish.offset).drop s.start.offset

/-- Nodes that fill the way from one place to another: each begins where the one before it ends. -/
def Tile : Position → List Node → Position → Prop
  | p, [], q => p = q
  | p, n :: ns, q => n.span.start = p ∧ Tile n.span.finish ns q

/-- A node is among some nodes or at any depth below one of them. -/
inductive Occurs (n : Node) : List Node → Prop
  | here {ns : List Node} : n ∈ ns → Occurs n ns
  | inside {kind : Kind} {closed : Bool} {children ns : List Node} {span : Span} :
      Node.roll kind closed children span ∈ ns → Occurs n children → Occurs n ns

/-- The children of a roll fill the way from behind its opening delimiter to its closing delimiter, or
to its end where it has none. -/
def Node.Filled : Node → Prop
  | .text _ _ => True
  | .roll kind closed children span =>
    ∃ q, Tile (span.start.after kind.opener.source) children q ∧
      q.after (if closed then kind.closer.source else []) = span.finish

/-! ## Nodes in their places -/

mutual

/-- A node that begins at a place, with all that is below it where its source puts it. -/
def Node.At (p : Position) : Node → Prop
  | .text t span => span = ⟨p, p.after t⟩
  | .roll kind closed children span =>
    span = ⟨p, p.after (Node.roll kind closed children span).source⟩ ∧
      AllAt (p.after kind.opener.source) children

/-- Neighbouring nodes, the first of which begins at a place. -/
def AllAt (p : Position) : List Node → Prop
  | [] => True
  | n :: ns => n.At p ∧ AllAt (p.after n.source) ns

end

/-- The source of two lists of nodes is the source of both, one after the other. -/
theorem sourceOf_append (ns ms : List Node) : sourceOf (ns ++ ms) = sourceOf ns ++ sourceOf ms := by
  induction ns with
  | nil =>
      rfl
  | cons n ns ih =>
      simp [sourceOf, ih]

/-- Nodes are at a place if the first ones are and the others follow them. -/
theorem allAt_append (p : Position) (ns ms : List Node) :
    AllAt p (ns ++ ms) ↔ AllAt p ns ∧ AllAt (p.after (sourceOf ns)) ms := by
  induction ns generalizing p with
  | nil =>
      simp [AllAt, sourceOf]
  | cons n ns ih =>
      simp [AllAt, sourceOf, ih, Position.after_append, and_assoc]

/-- A node that is at a place ends where its source does. -/
theorem Node.At.span_eq {p : Position} {n : Node} (h : n.At p) : n.span = ⟨p, p.after n.source⟩ := by
  cases n with
  | text t span =>
      simpa [Node.At, Node.span, Node.source] using h
  | roll kind closed children span =>
      simp only [Node.At] at h
      exact h.1

/-- Nodes at a place tile the stretch of their sources. -/
theorem AllAt.tile {p : Position} {ns : List Node} (h : AllAt p ns) :
    Tile p ns (p.after (sourceOf ns)) := by
  induction ns generalizing p with
  | nil =>
      rfl
  | cons n ns ih =>
      simp only [AllAt] at h
      have hspan := h.1.span_eq
      refine ⟨by rw [hspan], ?_⟩
      have htail := ih h.2
      simpa [hspan, sourceOf, Position.after_append] using htail

/-- A roll at a place is filled by its children. -/
theorem Node.At.filled {p : Position} {n : Node} (h : n.At p) : n.Filled := by
  cases n with
  | text t span =>
      trivial
  | roll kind closed children span =>
      simp only [Node.At] at h
      rcases h with ⟨hspan, hchildren⟩
      rw [hspan]
      refine ⟨_, hchildren.tile, ?_⟩
      simp [Node.source, Position.after_append]

theorem not_occurs_nil (n : Node) : ¬Occurs n [] := by
  rintro (h | ⟨h, -⟩) <;> cases h

theorem Occurs.mono {n : Node} {ns ms : List Node} (h : Occurs n ns) (hsub : ns ⊆ ms) : Occurs n ms := by
  cases h with
  | here hmem => exact .here (hsub hmem)
  | inside hmem hbelow => exact .inside (hsub hmem) hbelow

/-- What is below a roll is below what the roll is below. -/
theorem Occurs.trans {n : Node} {kind : Kind} {closed : Bool} {children ns : List Node} {span : Span}
    (h : Occurs (.roll kind closed children span) ns) (hn : Occurs n children) : Occurs n ns := by
  induction h with
  | here hmem => exact .inside hmem hn
  | inside hmem _ ih => exact .inside hmem ih

/-- A node among several is in the first or in the others. -/
theorem occurs_cons {n m : Node} {ns : List Node} : Occurs n (m :: ns) ↔ Occurs n [m] ∨ Occurs n ns := by
  constructor
  · rintro (hmem | ⟨hmem, hbelow⟩)
    · rcases List.mem_cons.1 hmem with rfl | hmem
      · exact .inl (.here (List.mem_singleton_self _))
      · exact .inr (.here hmem)
    · rcases List.mem_cons.1 hmem with heq | hmem
      · exact .inl (.inside (List.mem_singleton.2 heq) hbelow)
      · exact .inr (.inside hmem hbelow)
  · rintro (h | h)
    · exact h.mono (by simp)
    · exact h.mono (List.subset_cons_self m ns)

/-- The only node in a text is the text. -/
theorem occurs_text {n : Node} {t : Text} {span : Span} :
    Occurs n [.text t span] ↔ n = .text t span := by
  constructor
  · rintro (hmem | ⟨hmem, -⟩)
    · exact List.mem_singleton.1 hmem
    · cases List.mem_singleton.1 hmem
  · rintro rfl
    exact .here (List.mem_singleton_self _)

/-- A node at a roll is the roll or below it. -/
theorem occurs_roll {n : Node} {kind : Kind} {closed : Bool} {children : List Node} {span : Span} :
    Occurs n [.roll kind closed children span] ↔
      n = .roll kind closed children span ∨ Occurs n children := by
  constructor
  · rintro (hmem | ⟨hmem, hbelow⟩)
    · exact .inl (List.mem_singleton.1 hmem)
    · cases List.mem_singleton.1 hmem
      exact .inr hbelow
  · rintro (rfl | h)
    · exact .here (List.mem_singleton_self _)
    · exact .inside (List.mem_singleton_self _) h

theorem occurs_append {n : Node} {ns ms : List Node} :
    Occurs n (ns ++ ms) ↔ Occurs n ns ∨ Occurs n ms := by
  induction ns with
  | nil => simp [not_occurs_nil]
  | cons m ns ih => rw [List.cons_append, occurs_cons, ih, ← or_assoc, ← occurs_cons]

theorem occurs_reverse {n : Node} {ns : List Node} : Occurs n ns.reverse ↔ Occurs n ns :=
  ⟨fun h => h.mono (List.reverse_subset.2 (List.Subset.refl _)),
    fun h => h.mono (List.subset_reverse.2 (List.Subset.refl _))⟩

/-- A node at any depth stands in the source of the whole, and begins where its source begins. -/
theorem Occurs.placed {n : Node} {ns : List Node} (hn : Occurs n ns) :
    ∀ {p : Position}, AllAt p ns →
      ∃ before behind, sourceOf ns = before ++ n.source ++ behind ∧ n.At (p.after before) := by
  -- each roll on the way down puts its opening delimiter in front and its closing one behind
  induction hn with
  | here hmem =>
      intro p h
      rcases List.append_of_mem hmem with ⟨ms, ks, rfl⟩
      rw [allAt_append] at h
      simp only [AllAt] at h
      exact ⟨sourceOf ms, sourceOf ks, by simp [sourceOf_append, sourceOf], h.2.1⟩
  | @inside kind closed children ns span hmem _ ih =>
      intro p h
      rcases List.append_of_mem hmem with ⟨ms, ks, rfl⟩
      rw [allAt_append] at h
      simp only [AllAt, Node.At] at h
      rcases ih h.2.1.2 with ⟨before, behind, hsource, hat⟩
      refine ⟨sourceOf ms ++ kind.opener.source ++ before,
        behind ++ (if closed then kind.closer.source else []) ++ sourceOf ks, ?_, ?_⟩
      · simp [sourceOf_append, sourceOf, Node.source, hsource]
      · simpa [Position.after_append] using hat

/-- The slice of a stretch is the text in it. -/
theorem slice_append (before t behind : Text) :
    slice (before ++ t ++ behind)
      ⟨Position.start.after before, (Position.start.after before).after t⟩ = t := by
  have htake : (before ++ t ++ behind).take (before.length + t.length) = before ++ t := by
    rw [← List.length_append, List.take_left']
    rfl
  simp only [slice, Position.offset_after, Position.start, Nat.zero_add, htake]
  exact List.drop_left' rfl

/-! ## What the stack keeps -/

/-- The text that open rolls were read from, the innermost first. -/
def framesSource : List Frame → Text
  | [] => []
  | fr :: frs => framesSource frs ++ fr.kind.opener.source ++ sourceOf fr.inner.reverse

/-- Open rolls that lie where their source puts them, when the outermost begins at a place. -/
def FramesAt (p : Position) : List Frame → Prop
  | [] => True
  | fr :: frs =>
    let q := p.after (framesSource frs)
    FramesAt p frs ∧ fr.opener = ⟨q, q.after fr.kind.opener.source⟩ ∧
      AllAt (q.after fr.kind.opener.source) fr.inner.reverse

/-- The stack holds what was read from a text, every node and every open roll in its place. -/
structure Stack.Reads (s : Stack) (t : Text) : Prop where
  source : sourceOf s.outer.reverse ++ framesSource s.frames = t
  outer : AllAt .start s.outer.reverse
  frames : FramesAt (Position.start.after (sourceOf s.outer.reverse)) s.frames

/-- A change that adds a text, read at a place, to nodes that end at this place. -/
def Adds (f : List Node → List Node) (q : Position) (t : Text) : Prop :=
  ∀ p ns, p.after (sourceOf ns.reverse) = q → AllAt p ns.reverse →
    AllAt p (f ns).reverse ∧ sourceOf (f ns).reverse = sourceOf ns.reverse ++ t

theorem adds_node {n : Node} {q : Position} (h : n.At q) : Adds (n :: ·) q n.source := by
  intro p ns hq hns
  simp [allAt_append, sourceOf_append, AllAt, sourceOf, hns, hq, h]

/-- Adding text adds it to what is read. -/
theorem adds_pushText (t : Text) (q : Position) : Adds (pushText t ⟨q, q.after t⟩) q t := by
  intro p ns hq hns
  have hnew : (Node.text t ⟨q, q.after t⟩).At q := rfl
  unfold pushText
  split
  · -- the text joins the one in front of it, which keeps its beginning
    simp only [List.reverse_cons, allAt_append, sourceOf_append, AllAt, sourceOf, Node.At,
      Node.source, and_true, List.append_nil, Position.after_append] at hns hq ⊢
    rcases hns with ⟨hms, hspan⟩
    subst hq
    simp [hms, hspan]
  · exact adds_node hnew p ns hq hns

namespace Stack

/-- Adding nodes for a text adds the text to what was read. -/
theorem Reads.modify {s : Stack} {t u : Text} {f : List Node → List Node} (h : s.Reads t)
    (hf : Adds f (Position.start.after t) u) : (s.modify f).Reads (t ++ u) := by
  rcases s with ⟨outer, frames⟩
  rcases h with ⟨hsource, houter, hframes⟩
  cases frames with
  | nil =>
      have hsource : sourceOf outer.reverse = t := by simpa [framesSource] using hsource
      rcases hf .start outer (by rw [hsource]) houter with ⟨hat, hadd⟩
      exact ⟨by simp [Stack.modify, framesSource, hadd, hsource], hat, trivial⟩
  | cons fr frs =>
      -- only the innermost open roll changes, at its end
      rcases hframes with ⟨hfrs, hopener, hinner⟩
      have hend : (((Position.start.after (sourceOf outer.reverse)).after (framesSource frs)).after
          fr.kind.opener.source).after (sourceOf fr.inner.reverse) = Position.start.after t := by
        simp [← hsource, framesSource, Position.after_append]
      rcases hf _ fr.inner hend hinner with ⟨hat, hadd⟩
      refine ⟨?_, houter, hfrs, hopener, hat⟩
      simp [Stack.modify, framesSource, hadd, ← hsource]

/-- Opening a roll reads its opener. -/
theorem Reads.push {s : Stack} {t : Text} (h : s.Reads t) (kind : Kind) :
    let q := Position.start.after t
    (s.push kind ⟨q, q.after kind.opener.source⟩).Reads (t ++ kind.opener.source) := by
  rcases h with ⟨hsource, houter, hframes⟩
  refine ⟨?_, houter, hframes, ?_, trivial⟩
  · simp [Stack.push, framesSource, sourceOf, ← hsource]
  · simp [Stack.push, ← hsource, Position.after_append]

/-- The innermost open roll ends, with or without its closing delimiter. -/
theorem Reads.finish {outer : List Node} {fr : Frame} {frs : List Frame} {t : Text}
    (h : Stack.Reads ⟨outer, fr :: frs⟩ t) (closed : Bool) :
    let c := if closed then fr.kind.closer.source else []
    (Stack.modify (fr.node closed (Position.start.after (t ++ c)) :: ·) ⟨outer, frs⟩).Reads
      (t ++ c) := by
  intro c
  rcases h with ⟨hsource, houter, hfrs, hopener, hinner⟩
  -- without the roll the stack holds what was read before it; then the roll is a node like any other
  have hrest : Stack.Reads ⟨outer, frs⟩ (sourceOf outer.reverse ++ framesSource frs) :=
    ⟨rfl, houter, hfrs⟩
  have hnode : (fr.node closed (Position.start.after (t ++ c))).source =
      fr.kind.opener.source ++ sourceOf fr.inner.reverse ++ c := rfl
  have ht : t ++ c = sourceOf outer.reverse ++ framesSource frs ++
      (fr.node closed (Position.start.after (t ++ c))).source := by
    rw [hnode, ← hsource]
    simp [framesSource]
  have hat : (fr.node closed (Position.start.after (t ++ c))).At
      (Position.start.after (sourceOf outer.reverse ++ framesSource frs)) := by
    refine ⟨?_, by simpa [Position.after_append] using hinner⟩
    have hfinish := congrArg Position.start.after ht
    rw [Position.after_append] at hfinish
    simp only [hopener, Position.after_append] at hfinish ⊢
    rw [hfinish]
    rfl
  have hreads := hrest.modify (adds_node hat)
  rwa [← ht] at hreads

/-- However a token is taken, if it stands where the text before it ends. -/
theorem Reads.takes {s s' : Stack} {t : Text} {l : Lexeme} (h : s.Reads t)
    (htakes : s.Takes ⟨l, ⟨Position.start.after t, (Position.start.after t).after l.source⟩⟩ s') :
    s'.Reads (t ++ l.source) := by
  cases htakes with
  | finish => simpa [Lexeme.source] using h
  | text u => exact h.modify (adds_pushText u _)
  | opens kind => exact h.push kind
  | closes _ hstack =>
      subst hstack
      have hends := h.finish true
      simp only [if_true, Position.after_append] at hends
      exact hends
  | unaccepted => exact h.modify (adds_pushText _ _)

/-- Reading lexemes adds their sources to what was read. -/
theorem Reads.readAll {s : Stack} {t : Text} (h : s.Reads t) (ls : List Lexeme) :
    ((place (Position.start.after t) ls).foldl Stack.read s).Reads
      (t ++ ls.flatMap Lexeme.source) := by
  induction ls generalizing s t with
  | nil =>
      simpa [place] using h
  | cons l ls ih =>
      have hnext := ih (h.takes (l := l) (s.takes_read _))
      simpa [place, Position.after_append] using hnext

/-- All open rolls end with the message; `late` holds the one that ended last. -/
theorem Reads.finishFrames {outer late : List Node} {frames : List Frame} {t : Text}
    (h : (Stack.modify (late ++ ·) ⟨outer, frames⟩).Reads t) :
    let ns := Markup.finishFrames (Position.start.after t) outer late frames
    AllAt .start ns ∧ sourceOf ns = t := by
  induction frames generalizing late with
  | nil =>
      exact ⟨h.outer, by simpa [Stack.modify, framesSource, Markup.finishFrames] using h.source⟩
  | cons fr frs ih =>
      have hends := h.finish false
      simp only [Bool.false_eq_true, if_false, List.append_nil] at hends
      exact ih hends

end Stack

/-! ## Messages -/

/-- The nodes of a message lie where their source puts them, and their source is the message. -/
theorem parse_children (inlineMath : Bool) (source : Text) :
    AllAt .start (parse inlineMath source).children ∧
      sourceOf (parse inlineMath source).children = source := by
  have hempty : Stack.Reads ⟨[], []⟩ [] := ⟨rfl, trivial, trivial⟩
  have hreads := hempty.readAll (lexemes inlineMath .ordinary source ++ [.finish])
  have hsource : (lexemes inlineMath .ordinary source ++ [Lexeme.finish]).flatMap Lexeme.source =
      source := by
    simp [flatMap_source_lexemes, Lexeme.source]
  rw [List.nil_append, hsource] at hreads
  have hmodify (s : Stack) : Stack.modify ([] ++ ·) s = s := by
    rcases s with ⟨outer, frames⟩
    cases frames <;> rfl
  rw [← hmodify (List.foldl _ _ _)] at hreads
  exact hreads.finishFrames

/-- The tree of a message is written like the message, and so is every node of the tree like the
stretch it covers; the nodes of the top level fill the message, and those below a roll fill what lies
between its delimiters. -/
theorem parse_covers_source (inlineMath : Bool) (source : Text) :
    (parse inlineMath source).source = source ∧
      slice source (parse inlineMath source).span = source ∧
      Tile (parse inlineMath source).span.start (parse inlineMath source).children
        (parse inlineMath source).span.finish ∧
      ∀ n, Occurs n (parse inlineMath source).children →
        n.source = slice source n.span ∧ n.span.finish = n.span.start.after n.source ∧ n.Filled := by
  rcases parse_children inlineMath source with ⟨hat, hsource⟩
  have hspan : (parse inlineMath source).span = ⟨.start, Position.start.after source⟩ := rfl
  refine ⟨hsource, ?_, ?_, ?_⟩
  · have hslice := slice_append [] source []
    simpa [hspan] using hslice
  · have htile := hat.tile
    rwa [hsource] at htile
  · intro n hn
    rcases hn.placed hat with ⟨before, behind, hsplit, hplace⟩
    have hslice := slice_append before n.source behind
    rw [← hsplit, hsource, ← hplace.span_eq] at hslice
    exact ⟨hslice.symm, by simp [hplace.span_eq], hplace.filled⟩

end Markup

end TabletopChat
