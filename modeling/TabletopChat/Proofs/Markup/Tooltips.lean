import TabletopChat.Proofs.Markup.NormalForm

/-!
# Proofs/Markup/Tooltips — the source that is shown for a roll

The source that is shown for a roll is made by leaving out of its inner source all pairs of opening
brackets, and then all pairs of closing brackets. Of the opening brackets this leaves out exactly the
delimiters, because a delimiter is read wherever two opening brackets stand side by side. But where a
delimiter is left out, texts of different rolls meet, and closing brackets at their ends make pairs, which
are then left out as well. This is all in which the source that is shown differs from the texts below the
roll.

- `Text.dropPairs`       : a text without the pairs of a character
- `writtenOf`, `textsOf` : nodes with delimiters that are written in another way, and their texts
- `Interchangeable`      : texts that are the same but for pairs
- `Cursor.Bracketed`     : what every step of reading a message keeps
- `tooltip_drops_pairs`  : the source that is shown for a roll
-/

namespace TabletopChat

/-! ## Pairs of a character -/

namespace Text

/-- A text without the pairs of a character, found from left to right. -/
def dropPairs (c : Char) : Text → Text
  | [] => []
  | [x] => [x]
  | x :: y :: t => if x = c ∧ y = c then dropPairs c t else x :: dropPairs c (y :: t)

/-- Replacing a pair by nothing is dropping pairs. -/
theorem replaceAll_pair (c : Char) (t : Text) : replaceAll [c, c] [] t = dropPairs c t := by
  have hfrom : replaceFrom [c, c] [] 0 t = dropPairs c t := by
    fun_induction dropPairs c t with
    | case1 => rfl
    | case2 x => simp [replaceFrom, startsWith]
    | case3 x y t hpair ih =>
      have hstart : startsWith [c, c] (x :: y :: t) = true := by simp [startsWith, hpair]
      rw [replaceFrom, hstart, ← ih]
      rfl
    | case4 x y t hpair ih =>
      have hstart : ¬startsWith [c, c] (x :: y :: t) = true := by
        rw [startsWith, List.isPrefixOf_iff_prefix]
        rintro ⟨u, hu⟩
        cases hu
        exact hpair ⟨rfl, rfl⟩
      rw [replaceFrom, if_neg hstart, ih]
  rw [replaceAll, if_neg (List.cons_ne_nil _ _), hfrom]

/-- A pair makes no difference, wherever it stands. -/
theorem dropPairs_append_pair (c : Char) (a b : Text) :
    dropPairs c (a ++ c :: c :: b) = dropPairs c (a ++ b) := by
  fun_induction dropPairs c a with
  | case1 => simp [dropPairs]
  | case2 x =>
    by_cases hx : x = c
    · simp [dropPairs, hx]
    · cases b <;> simp [dropPairs, hx]
  | case3 x y a hpair ih => simpa [dropPairs, hpair] using ih
  | case4 x y a hpair ih => simpa [dropPairs, hpair] using ih

/-- Dropping pairs never makes a text longer. -/
theorem length_dropPairs_le (c : Char) (t : Text) : (dropPairs c t).length ≤ t.length := by
  fun_induction dropPairs c t with
  | case1 => exact le_rfl
  | case2 x => exact le_rfl
  | case3 x y t hpair ih =>
    simp only [List.length_cons]
    omega
  | case4 x y t hpair ih => simpa using ih

/-- Nothing is left out exactly where there is no pair. -/
theorem dropPairs_eq_self_iff {c : Char} {t : Text} : dropPairs c t = t ↔ ¬[c, c] <:+: t := by
  constructor
  · rintro h ⟨a, b, rfl⟩
    have hshorter := length_dropPairs_le c (a ++ b)
    have hsplit : a ++ [c, c] ++ b = a ++ c :: c :: b := by simp
    rw [← dropPairs_append_pair, ← hsplit, h] at hshorter
    simp only [List.length_append, List.length_cons] at hshorter
    omega
  · intro h
    fun_induction dropPairs c t with
    | case1 => rfl
    | case2 x => rfl
    | case3 x y t hpair ih =>
      obtain ⟨rfl, rfl⟩ := hpair
      exact absurd (List.prefix_append [y, y] t).isInfix h
    | case4 x y t hpair ih =>
      rw [ih fun hfound => h (hfound.trans (List.suffix_cons x (y :: t)).isInfix)]

/-- Another character does not make a pair. -/
theorem not_pair_concat {c x : Char} {t : Text} (h : ¬[c, c] <:+: t) (hx : x ≠ c) :
    ¬[c, c] <:+: t ++ [x] := by
  intro hfound
  rcases List.infix_concat_iff.1 hfound with ⟨u, hu⟩ | hfound
  · have hsplit : (u ++ [c]) ++ [c] = t ++ [x] := by simpa using hu
    cases (List.append_inj' hsplit rfl).2
    exact hx rfl
  · exact h hfound

/-- What makes no pair with one character more makes none with any one character. -/
theorem not_pair_take {c : Char} {t : Text} (h : ¬[c, c] <:+: t ++ [c]) (u : Text) :
    ¬[c, c] <:+: t ++ u.take 1 := by
  have hbefore : ¬[c, c] <:+: t := fun hfound => h (hfound.trans (List.prefix_append _ _).isInfix)
  cases u with
  | nil => simpa using hbefore
  | cons x u =>
      by_cases hx : x = c
      · subst hx
        simpa using h
      · simpa using not_pair_concat hbefore hx

/-- Nor does anything behind another character. -/
theorem not_pair_across {c x : Char} {t : Text} (h : ¬[c, c] <:+: t) (hx : x ≠ c) (u : Text) :
    ¬[c, c] <:+: t ++ [x, x] ++ u.take 1 := by
  have hboth : ¬[c, c] <:+: t ++ [x] ++ [x] := not_pair_concat (not_pair_concat h hx) hx
  cases u with
  | nil => simpa using hboth
  | cons y u =>
      have hsplit : t ++ [x, x] ++ (y :: u).take 1 = (t ++ [x]) ++ [x] ++ [y] := by simp
      rw [hsplit]
      intro hfound
      rcases Markup.infix_pair_concat hfound with hfound | hpair
      · exact hboth hfound
      · exact hx (List.cons.inj hpair).1.symm

end Text

namespace Markup

/-! ## Delimiters written in another way -/

mutual

/-- What a node is written like if its delimiters, and those below it, are written in a certain way. -/
def Node.written (p : Delimiter → Text) : Node → Text
  | .text t _ => t
  | .roll kind closed children _ =>
    p kind.opener ++ writtenOf p children ++ (if closed then p kind.closer else [])

def writtenOf (p : Delimiter → Text) : List Node → Text
  | [] => []
  | n :: ns => n.written p ++ writtenOf p ns

end

mutual

def Node.texts : Node → List Text
  | .text t _ => [t]
  | .roll _ _ children _ => textsOf children

def textsOf : List Node → List Text
  | [] => []
  | n :: ns => n.texts ++ textsOf ns

end

mutual

theorem Node.written_source (n : Node) : n.written Delimiter.source = n.source := by
  cases n with
  | text t span => rfl
  | roll kind closed children span => rw [Node.written, Node.source, writtenOf_source children]

/-- With their own delimiters nodes are written like what they were read from. -/
theorem writtenOf_source (ns : List Node) : writtenOf Delimiter.source ns = sourceOf ns := by
  cases ns with
  | nil => rfl
  | cons n ns => rw [writtenOf, sourceOf, n.written_source, writtenOf_source ns]

end

mutual

theorem Node.written_nil (n : Node) : n.written (fun _ => []) = n.texts.flatten := by
  cases n with
  | text t span => simp [Node.written, Node.texts]
  | roll kind closed children span => simp [Node.written, Node.texts, writtenOf_nil children]

/-- Without delimiters only the texts are left. -/
theorem writtenOf_nil (ns : List Node) : writtenOf (fun _ => []) ns = (textsOf ns).flatten := by
  cases ns with
  | nil => rfl
  | cons n ns => rw [writtenOf, textsOf, List.flatten_append, n.written_nil, writtenOf_nil ns]

end

variable {p : Delimiter → Text}

theorem writtenOf_append (ns ms : List Node) :
    writtenOf p (ns ++ ms) = writtenOf p ns ++ writtenOf p ms := by
  induction ns with
  | nil => rfl
  | cons n ns ih => simp [writtenOf, ih]

/-- What is written for the children of a roll is a part of what is written for the whole. -/
theorem Occurs.written_infix {kind : Kind} {closed : Bool} {children ns : List Node} {span : Span}
    (h : Occurs (.roll kind closed children span) ns) : writtenOf p children <:+: writtenOf p ns := by
  have hroll {kind : Kind} {closed : Bool} {children ns : List Node} {span : Span}
      (hmem : Node.roll kind closed children span ∈ ns) : writtenOf p children <:+: writtenOf p ns := by
    obtain ⟨before, behind, rfl⟩ := List.append_of_mem hmem
    refine ⟨writtenOf p before ++ p kind.opener,
      (if closed then p kind.closer else []) ++ writtenOf p behind, ?_⟩
    simp [writtenOf_append, writtenOf, Node.written]
  induction h with
  | here hmem => exact hroll hmem
  | inside hmem _ ih => exact ih.trans (hroll hmem)

/-! ## Texts that are the same but for pairs -/

/-- Texts that make no difference to each other where the pairs of a character are left out. -/
def Interchangeable (c : Char) (t u : Text) : Prop :=
  ∀ a b, Text.dropPairs c (a ++ t ++ b) = Text.dropPairs c (a ++ u ++ b)

namespace Interchangeable

variable {c : Char} {t u v w : Text}

theorem refl (c : Char) (t : Text) : Interchangeable c t t := fun _ _ => rfl

/-- Two texts that can be interchanged, one behind the other. -/
theorem append (h : Interchangeable c t u) (h' : Interchangeable c v w) :
    Interchangeable c (t ++ v) (u ++ w) := by
  intro a b
  have hfirst := h a (v ++ b)
  have hsecond := h' (a ++ u) b
  simp only [List.append_assoc] at hfirst hsecond ⊢
  rw [hfirst, hsecond]

theorem pair (c : Char) : Interchangeable c [c, c] [] := by
  intro a b
  simpa using Text.dropPairs_append_pair c a b

theorem dropPairs_eq (h : Interchangeable c t u) : Text.dropPairs c t = Text.dropPairs c u := by
  simpa using h [] []

end Interchangeable

def Node.InBrackets : Node → Prop
  | .text _ _ => True
  | .roll kind _ _ _ => kind = .roll

variable {q : Delimiter → Text} {c : Char}

mutual

/-- What rolls are written like does not matter where brackets can be interchanged. -/
theorem Node.interchangeable (hopen : Interchangeable c (p .rollOpen) (q .rollOpen))
    (hclose : Interchangeable c (p .rollClose) (q .rollClose)) (n : Node)
    (h : ∀ m, Occurs m [n] → m.InBrackets) : Interchangeable c (n.written p) (n.written q) := by
  cases n with
  | text t span => exact .refl c t
  | roll kind closed children span =>
      obtain rfl : kind = .roll := h _ (.here (List.mem_singleton_self _))
      have hchildren := interchangeableOf hopen hclose children fun m hm => h m (occurs_roll.2 (.inr hm))
      refine (hopen.append hchildren).append ?_
      cases closed with
      | false => exact .refl c []
      | true => exact hclose

/-- Nodes whose delimiters are written in two ways that make no difference to each other. -/
theorem interchangeableOf (hopen : Interchangeable c (p .rollOpen) (q .rollOpen))
    (hclose : Interchangeable c (p .rollClose) (q .rollClose)) (ns : List Node)
    (h : ∀ m, Occurs m ns → m.InBrackets) : Interchangeable c (writtenOf p ns) (writtenOf q ns) := by
  cases ns with
  | nil => exact .refl c []
  | cons n ns =>
      exact (n.interchangeable hopen hclose fun m hm => h m (occurs_cons.2 (.inl hm))).append
        (interchangeableOf hopen hclose ns fun m hm => h m (occurs_cons.2 (.inr hm)))

end

/-! ## What the stack is written like -/

def framesWritten (p : Delimiter → Text) : List Frame → Text
  | [] => []
  | fr :: frs => framesWritten p frs ++ p fr.kind.opener ++ writtenOf p fr.inner.reverse

theorem writtenOf_pushText (t : Text) (span : Span) (ns : List Node) :
    writtenOf p (pushText t span ns).reverse = writtenOf p ns.reverse ++ t := by
  unfold pushText
  split <;> simp [writtenOf_append, writtenOf, Node.written]

namespace Stack

/-- What the nodes and the open rolls read so far are written like. -/
def written (p : Delimiter → Text) (s : Stack) : Text :=
  writtenOf p s.outer.reverse ++ framesWritten p s.frames

theorem written_modify {f : List Node → List Node} {t : Text}
    (hf : ∀ ns, writtenOf p (f ns).reverse = writtenOf p ns.reverse ++ t) (s : Stack) :
    (s.modify f).written p = s.written p ++ t := by
  rcases s with ⟨outer, - | ⟨fr, frs⟩⟩ <;> simp [written, Stack.modify, framesWritten, hf]

/-- Instead of the innermost open roll there is a roll that is closed. -/
theorem written_ends (outer : List Node) (fr : Frame) (frs : List Frame) (finish : Position) :
    (Stack.modify (fr.node true finish :: ·) ⟨outer, frs⟩).written p =
      written p ⟨outer, fr :: frs⟩ ++ p fr.kind.closer := by
  have hnode (ns : List Node) : writtenOf p (fr.node true finish :: ns).reverse =
      writtenOf p ns.reverse ++ (fr.node true finish).written p := by
    simp [writtenOf_append, writtenOf]
  rw [written_modify hnode]
  simp [written, framesWritten, Frame.node, Node.written]

/-- A delimiter adds what is written for it, if closing delimiters, which may be text, are written like
themselves. -/
theorem written_readDelimiter (hp : ∀ kind : Kind, p kind.closer = kind.closer.source) (s : Stack)
    (d : Delimiter) (span : Span) : (s.read ⟨.delimiter d, span⟩).written p = s.written p ++ p d := by
  have htakes := s.takes_read ⟨.delimiter d, span⟩
  generalize s.read ⟨.delimiter d, span⟩ = s' at htakes ⊢
  cases htakes with
  | opens kind => simp [written, Stack.push, framesWritten, writtenOf]
  | closes _ hstack =>
      subst hstack
      exact written_ends _ _ _ _
  | unaccepted => rw [written_modify (writtenOf_pushText _ _), hp]

end Stack

/-- What is written does not change when the open rolls end with the message; `late` holds the one that
ended last. -/
theorem writtenOf_finishFrames (finish : Position) (outer late : List Node) (frames : List Frame) :
    writtenOf p (finishFrames finish outer late frames) =
      Stack.written p ⟨outer, frames⟩ ++ writtenOf p late.reverse := by
  induction frames generalizing late with
  | nil => simp [finishFrames, Stack.written, framesWritten, writtenOf_append]
  | cons fr frs ih =>
      rw [finishFrames, ih]
      simp [Stack.written, framesWritten, writtenOf_append, writtenOf, Frame.node, Node.written]

/-! ## Where the nodes of a message come from -/

/-- Text that is added brings no other node. -/
theorem occurs_pushText {n : Node} {t : Text} {span : Span} {ns : List Node}
    (h : Occurs n (pushText t span ns)) : Occurs n ns ∨ n.isText = true := by
  unfold pushText at h
  split at h
  · rw [occurs_cons, occurs_text] at h
    rcases h with rfl | h
    · exact .inr rfl
    · exact .inl (occurs_cons.2 (.inr h))
  · rw [occurs_cons, occurs_text] at h
    rcases h with rfl | h
    · exact .inr rfl
    · exact .inl h

namespace Stack

/-- A node is on the stack, or below a node on it. -/
def Holds (s : Stack) (n : Node) : Prop := Occurs n s.outer ∨ ∃ fr ∈ s.frames, Occurs n fr.inner

variable {s s' : Stack} {n : Node}

/-- A node on a changed stack was on the stack or was put there. -/
theorem Holds.of_modify {f : List Node → List Node} {Q : Prop} (h : (s.modify f).Holds n)
    (hf : ∀ ns, Occurs n (f ns) → Occurs n ns ∨ Q) : s.Holds n ∨ Q := by
  rcases s with ⟨outer, - | ⟨fr, frs⟩⟩
  · rcases h with h | ⟨_, hnot, -⟩
    · exact (hf outer h).imp_left .inl
    · cases hnot
  · rcases h with h | ⟨fr', hmem, h⟩
    · exact .inl (.inl h)
    · rcases List.mem_cons.1 hmem with rfl | hmem
      · exact (hf fr.inner h).imp_left fun h => .inr ⟨fr, List.mem_cons_self, h⟩
      · exact .inl (.inr ⟨fr', List.mem_cons_of_mem _ hmem, h⟩)

/-- What is held after opening a roll was held before. -/
theorem Holds.of_push {kind : Kind} {span : Span} (h : (s.push kind span).Holds n) : s.Holds n := by
  rcases h with h | ⟨fr, hmem, h⟩
  · exact .inl h
  · rcases List.mem_cons.1 hmem with rfl | hmem
    · exact absurd h (not_occurs_nil n)
    · exact .inr ⟨fr, hmem, h⟩

/-- Where the innermost open roll ends, only this roll is new. -/
theorem Holds.of_ends {outer : List Node} {fr : Frame} {frs : List Frame} {finish : Position}
    (h : (Stack.modify (fr.node true finish :: ·) ⟨outer, frs⟩).Holds n) :
    Holds ⟨outer, fr :: frs⟩ n ∨ n = fr.node true finish := by
  have hnode (ns : List Node) (h : Occurs n (fr.node true finish :: ns)) :
      Occurs n ns ∨ n = fr.node true finish ∨ Occurs n fr.inner := by
    rw [occurs_cons, Frame.node, occurs_roll, occurs_reverse] at h
    exact h.symm
  rcases h.of_modify hnode with (h | ⟨fr', hmem, h⟩) | rfl | h
  · exact .inl (.inl h)
  · exact .inl (.inr ⟨fr', List.mem_cons_of_mem _ hmem, h⟩)
  · exact .inr rfl
  · exact .inl (.inr ⟨fr, List.mem_cons_self, h⟩)

/-- A delimiter adds at most a text, or the innermost open roll. -/
theorem Holds.of_readDelimiter {d : Delimiter} {span : Span}
    (h : (s.read ⟨.delimiter d, span⟩).Holds n) :
    s.Holds n ∨ n.isText = true ∨ ∃ fr ∈ s.frames, n = fr.node true span.finish := by
  have htakes := s.takes_read ⟨.delimiter d, span⟩
  generalize s.read ⟨.delimiter d, span⟩ = s' at htakes h
  cases htakes with
  | opens kind => exact .inl h.of_push
  | @closes _ fr _ _ hstack =>
      subst hstack
      exact h.of_ends.imp_right fun heq => .inr ⟨fr, List.mem_cons_self, heq⟩
  | unaccepted => exact (h.of_modify fun _ => occurs_pushText).imp_right .inl

end Stack

/-- The nodes of a message are those on the stack at its end, and the rolls that are open there. -/
theorem occurs_finishFrames {n : Node} {finish : Position} {outer late : List Node} {frames : List Frame}
    (h : Occurs n (finishFrames finish outer late frames)) :
    Occurs n late ∨ Stack.Holds ⟨outer, frames⟩ n ∨
      ∃ fr ∈ frames, ∃ inner, n = Frame.node { fr with inner } false finish := by
  induction frames generalizing late with
  | nil =>
      rw [finishFrames, occurs_reverse, occurs_append] at h
      exact h.imp_right fun h => .inl (.inl h)
  | cons fr frs ih =>
      rw [finishFrames] at h
      rcases ih h with h | (h | ⟨fr', hmem, h⟩) | ⟨fr', hmem, hnode⟩
      · rw [Frame.node, occurs_roll, occurs_reverse, occurs_append] at h
        rcases h with rfl | h | h
        · exact .inr (.inr ⟨fr, List.mem_cons_self, _, rfl⟩)
        · exact .inl h
        · exact .inr (.inl (.inr ⟨fr, List.mem_cons_self, h⟩))
      · exact .inr (.inl (.inl h))
      · exact .inr (.inl (.inr ⟨fr', List.mem_cons_of_mem _ hmem, h⟩))
      · exact .inr (.inr ⟨fr', List.mem_cons_of_mem _ hmem, hnode⟩)

/-! ## Reading without inline math -/

theorem Node.inBrackets_of_isText {n : Node} (h : n.isText = true) : n.InBrackets := by
  cases n with
  | text t span => trivial
  | roll kind closed children span => cases h

/-- How delimiters are written where those that open a roll are left out. -/
def exceptOpeners (d : Delimiter) : Text := if d = .rollOpen then [] else d.source

theorem exceptOpeners_closer (kind : Kind) : exceptOpeners kind.closer = kind.closer.source := by
  cases kind <;> rfl

/-- Without inline math, the only delimiters are those of rolls. -/
theorem ofPair?_false {c d : Char} {e : Delimiter} (h : Delimiter.ofPair? false .ordinary c d = some e) :
    e = .rollOpen ∧ c = '[' ∨ e = .rollClose := by
  simp only [Delimiter.ofPair?, Bool.false_eq_true, false_and, if_false] at h
  split at h
  · rename_i hpair
    cases h
    exact .inl ⟨rfl, hpair.1⟩
  · split at h
    · cases h
      exact .inr rfl
    · cases h

namespace Cursor

variable {k : Cursor}

/-- All that is read are texts and rolls in square brackets; and what is read, without the delimiters that
open rolls, has no pair of opening brackets, not even together with the next character. -/
structure Bracketed (k : Cursor) (rest : Text) : Prop where
  ordinary : k.mode = .ordinary
  inStep : k.InStep
  inBrackets : ∀ n, k.stack.Holds n → n.InBrackets
  awaits : ¬['[', '['] <:+: k.stack.written exceptOpeners ++ rest.take 1

/-- All open rolls are in square brackets. -/
theorem Bracketed.roll_of_mem {rest : Text} (h : k.Bracketed rest) {fr : Frame} (hmem : fr ∈ k.stack.frames) :
    fr.kind = .roll := by
  have hopened := h.inStep
  simp only [InStep, h.ordinary] at hopened
  exact hopened _ (List.mem_map_of_mem (f := fun fr : Frame => (⟨fr.kind, fr.opener⟩ : Opened)) hmem)

theorem bracketed_start (source : Text) : start.Bracketed source := by
  refine ⟨rfl, inStep_start, fun n h => ?_, not_infix_take_one .rollOpen source⟩
  rcases h with h | ⟨_, hmem, -⟩
  · exact absurd h (not_occurs_nil n)
  · cases hmem

/-- A letter that begins no delimiter is text. -/
theorem Bracketed.text {c : Char} {cs : Text} (hbegins : ¬Begins false k.mode (c :: cs))
    (h : k.Bracketed (c :: cs)) : (k.text [c]).Bracketed cs := by
  have hbefore : ¬['[', '['] <:+: k.stack.written exceptOpeners ++ [c] := h.awaits
  refine ⟨h.ordinary, h.inStep.text [c], fun n hn => ?_, fun hfound => ?_⟩
  · rcases Stack.Holds.of_modify hn fun _ => occurs_pushText with hn | htext
    · exact h.inBrackets n hn
    · exact Node.inBrackets_of_isText htext
  · rw [Cursor.text, Stack.written_modify (writtenOf_pushText _ _)] at hfound
    cases cs with
    | nil => exact hbefore (by simpa using hfound)
    | cons x cs =>
        rcases infix_pair_concat hfound with hfound | hpair
        · exact hbefore hfound
        · -- the two brackets would have been read as a delimiter
          cases hpair
          rw [h.ordinary] at hbegins
          exact hbegins ⟨'[', '[', cs, .rollOpen, rfl, rfl⟩

/-- A bracket is read without making a pair of opening brackets. -/
theorem Bracketed.delimiter {c d : Char} {e : Delimiter} {cs : Text}
    (hpair : Delimiter.ofPair? false k.mode c d = some e) (h : k.Bracketed (c :: d :: cs)) :
    (k.delimiter e).Bracketed cs := by
  -- two brackets that meet would have been read as an opener
  have hbefore : ¬['[', '['] <:+: k.stack.written exceptOpeners ++ [c] := h.awaits
  have hread : ¬['[', '['] <:+: k.stack.written exceptOpeners := fun hfound =>
    hbefore (hfound.trans (List.prefix_append _ _).isInfix)
  have hstep := h.inStep.delimiter hpair
  rw [h.ordinary] at hpair
  have hwritten : (k.delimiter e).stack.written exceptOpeners =
      k.stack.written exceptOpeners ++ exceptOpeners e :=
    Stack.written_readDelimiter exceptOpeners_closer _ _ _
  refine ⟨?_, hstep, fun n hn => ?_, fun hfound => ?_⟩
  · rcases ofPair?_false hpair with ⟨rfl, -⟩ | rfl <;> exact h.ordinary
  · rcases Stack.Holds.of_readDelimiter hn with hn | htext | ⟨fr, hmem, rfl⟩
    · exact h.inBrackets n hn
    · exact Node.inBrackets_of_isText htext
    · exact h.roll_of_mem hmem
  · rw [hwritten] at hfound
    rcases ofPair?_false hpair with ⟨rfl, rfl⟩ | rfl
    · exact Text.not_pair_take hbefore cs (by simpa [exceptOpeners] using hfound)
    · exact Text.not_pair_across (x := ']') hread (by decide) cs
        (by simpa [exceptOpeners, Delimiter.source] using hfound)

theorem along_bracketed : Along false Bracketed := ⟨Bracketed.text, Bracketed.delimiter⟩

end Cursor

/-! ## Messages -/

/-- The rolls of a message without inline math are in square brackets, and without the delimiters that
open rolls the message has no pair of opening brackets. -/
theorem parse_bracketed (source : Text) :
    (∀ n, Occurs n (parse false source).children → n.InBrackets) ∧
      ¬['[', '['] <:+: writtenOf exceptOpeners (parse false source).children := by
  have hread : (Cursor.start.read false source).Bracketed [] :=
    Cursor.along_bracketed.read (Cursor.bracketed_start source)
  rw [parse_eq]
  refine ⟨fun n hn => ?_, ?_⟩
  · rcases occurs_finishFrames hn with hn | hn | ⟨fr, hmem, inner, rfl⟩
    · exact absurd hn (not_occurs_nil n)
    · exact hread.inBrackets n hn
    · have hkind : fr.kind = .roll := hread.roll_of_mem hmem
      exact hkind
  · have hwritten := writtenOf_finishFrames (p := exceptOpeners) (Position.start.after source)
      (Cursor.start.read false source).stack.outer [] (Cursor.start.read false source).stack.frames
    have hawaits := hread.awaits
    rw [List.take_nil] at hawaits
    simp only [hwritten]
    exact hawaits

/-- The source that is shown for a roll of a message without inline math is made of the texts below the
roll, in order, less the pairs of closing brackets in it; so it is all the texts exactly if these make no
such pair. -/
theorem tooltip_drops_pairs {source : Text} {kind : Kind} {closed : Bool} {children : List Node}
    {span : Span} (h : Occurs (.roll kind closed children span) (parse false source).children) :
    tooltipOf children = Text.replaceAll [']', ']'] [] (textsOf children).flatten ∧
      (tooltipOf children = (textsOf children).flatten ↔ ¬[']', ']'] <:+: (textsOf children).flatten) := by
  obtain ⟨hbrackets, hpair⟩ := parse_bracketed source
  have hbelow (n : Node) (hn : Occurs n children) : n.InBrackets := hbrackets n (h.trans hn)
  -- the first replacement leaves out the delimiters that open rolls
  have hopeners : Interchangeable '[' (sourceOf children) (writtenOf exceptOpeners children) := by
    rw [← writtenOf_source]
    exact interchangeableOf (p := Delimiter.source) (q := exceptOpeners) (.pair '[') (.refl _ _) children hbelow
  have hfirst : Text.dropPairs '[' (sourceOf children) = writtenOf exceptOpeners children := by
    rw [hopeners.dropPairs_eq, Text.dropPairs_eq_self_iff]
    exact fun hfound => hpair (hfound.trans h.written_infix)
  -- for the second one those that close rolls make no difference
  have hclosers : Interchangeable ']' (writtenOf exceptOpeners children) (textsOf children).flatten := by
    rw [← writtenOf_nil]
    exact interchangeableOf (p := exceptOpeners) (q := fun _ => []) (.refl _ _) (.pair ']') children hbelow
  have htooltip : tooltipOf children = Text.dropPairs ']' (textsOf children).flatten := by
    rw [tooltipOf, Text.replaceAll_pair, Text.replaceAll_pair, hfirst, hclosers.dropPairs_eq]
  exact ⟨by rw [htooltip, Text.replaceAll_pair], by rw [htooltip, Text.dropPairs_eq_self_iff]⟩

/-- Single brackets at the delimiters of rolls, one of which is not closed. -/
theorem tooltip_drops_pairs_nested :
    ∃ children span, Occurs (.roll .roll false children span) (parse false "[[[1]+[[2[]] x]".toList).children ∧
      tooltipOf children = "[1]+2[ x]".toList := by
  let children : List Node :=
    [.text "[1]+".toList ⟨⟨1, 3, 2⟩, ⟨1, 7, 6⟩⟩,
      .roll .roll true [.text "2[".toList ⟨⟨1, 9, 8⟩, ⟨1, 11, 10⟩⟩] ⟨⟨1, 7, 6⟩, ⟨1, 13, 12⟩⟩,
      .text " x]".toList ⟨⟨1, 13, 12⟩, ⟨1, 16, 15⟩⟩]
  have hnodes : (parse false "[[[1]+[[2[]] x]".toList).children =
      [.roll .roll false children ⟨⟨1, 1, 0⟩, ⟨1, 16, 15⟩⟩] := by rfl
  have hroll : Occurs (.roll .roll false children ⟨⟨1, 1, 0⟩, ⟨1, 16, 15⟩⟩)
      (parse false "[[[1]+[[2[]] x]".toList).children := hnodes ▸ .here (List.mem_singleton_self _)
  have htexts : (textsOf children).flatten = "[1]+2[ x]".toList := by simp [children, textsOf, Node.texts]
  refine ⟨children, _, hroll, ?_⟩
  rw [← htexts, (tooltip_drops_pairs hroll).2, htexts]
  decide +kernel

/-- Where a delimiter is left out, closing brackets of two texts meet, and are left out of what is shown. -/
theorem tooltip_drops_texts :
    ∃ children span, Occurs (.roll .roll true children span) (parse false "[[a][[]b]] ]]".toList).children ∧
      (textsOf children).flatten = "a]]b ".toList ∧ tooltipOf children = "ab ".toList := by
  let children : List Node :=
    [.text "a]".toList ⟨⟨1, 3, 2⟩, ⟨1, 5, 4⟩⟩,
      .roll .roll true [.text "]b".toList ⟨⟨1, 7, 6⟩, ⟨1, 9, 8⟩⟩] ⟨⟨1, 5, 4⟩, ⟨1, 11, 10⟩⟩,
      .text " ".toList ⟨⟨1, 11, 10⟩, ⟨1, 12, 11⟩⟩]
  have hnodes : (parse false "[[a][[]b]] ]]".toList).children =
      [.roll .roll true children ⟨⟨1, 1, 0⟩, ⟨1, 14, 13⟩⟩] := by rfl
  refine ⟨children, ⟨⟨1, 1, 0⟩, ⟨1, 14, 13⟩⟩, ?_, ?_, ?_⟩
  · exact hnodes ▸ .here (List.mem_singleton_self _)
  · simp [children, textsOf, Node.texts]
  · simp only [children, tooltipOf, sourceOf, Node.source, Text.replaceAll_pair]
    decide +kernel

end Markup

end TabletopChat
