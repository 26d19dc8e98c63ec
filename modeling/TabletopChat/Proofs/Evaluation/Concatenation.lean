import TabletopChat.Evaluation.Evaluate
import TabletopChat.Proofs.Markup.Cursor
import TabletopChat.Proofs.Dice.Plain.Rolling

/-!
# Proofs/Evaluation/Concatenation — evaluating one message behind another

A message whose delimiters are balanced can be cut off in front of another one: no roll is open behind
it. If no delimiter comes about where the two meet, evaluating both together is evaluating the first and
then the second in the state that the first has left. Places in the message, and whether a text at the
seam is one or two, make no difference to what is evaluated.

- `joined`               : one evaluation after the other, their texts joined
- `Follows`              : a stack that evaluates like another one with something in front of it
- `follows_read`         : reading on keeps that
- `evaluateRolls_append` : a balanced message in front of any other
-/

namespace TabletopChat

namespace Evaluation

open Markup

/-! ## Texts one after the other -/

/-- One evaluation after the other; the text of the second stands behind that of the first. -/
def joined (x y : Step Text) : Step Text := do
  let t ← x
  let u ← y
  pure (t ++ u)

@[simp] theorem joined_nil (x : Step Text) : joined x (pure []) = x := by
  simp [joined]

@[simp] theorem nil_joined (x : Step Text) : joined (pure []) x = x := by
  simp [joined]

theorem joined_assoc (x y z : Step Text) : joined (joined x y) z = joined x (joined y z) := by
  simp only [joined, bind_assoc, pure_bind, List.append_assoc]

theorem joined_pure (t u : Text) : joined (pure t) (pure u) = pure (t ++ u) := by
  simp [joined]

/-- Evaluating neighbouring nodes is evaluating the first ones and then the others. -/
theorem evaluateNodes_append (roller : Roller) (ns ms : List Node) :
    evaluateNodes roller (ns ++ ms) = joined (evaluateNodes roller ns) (evaluateNodes roller ms) := by
  induction ns with
  | nil => simp [evaluateNodes]
  | cons n ns ih =>
      have hcons (ks : List Node) :
          evaluateNodes roller (n :: ks) = joined (evaluateNode roller n) (evaluateNodes roller ks) := by
        rw [evaluateNodes, joined]
      rw [List.cons_append, hcons, hcons, ih, joined_assoc]

theorem evaluateNodes_singleton (roller : Roller) (n : Node) :
    evaluateNodes roller [n] = evaluateNode roller n := by
  simp [evaluateNodes]

/-- Without tooltips the top level is evaluated like the inside of a roll. -/
theorem evaluateTop_plain (roller : Roller) (ns : List Node) :
    evaluateTop roller false ns = evaluateNodes roller ns := by
  induction ns with
  | nil => simp [evaluateTop, evaluateNodes]
  | cons n ns ih =>
      have hplain (t : Text) : decorate false n t = t := by cases n <;> simp [decorate]
      simp [evaluateTop, evaluateNodes, ih, hplain]

/-! ## Changes that add something -/

variable {roller : Roller} {x y : Step Text}

/-- A change of nodes (last one first) that adds an evaluation behind that of the nodes. -/
def Writes (roller : Roller) (y : Step Text) (f : List Node → List Node) : Prop :=
  ∀ ns, evaluateNodes roller (f ns).reverse = joined (evaluateNodes roller ns.reverse) y

theorem writes_node (n : Node) : Writes roller (evaluateNode roller n) (n :: ·) := by
  intro ns
  rw [List.reverse_cons, evaluateNodes_append, evaluateNodes_singleton]

/-- A text is written whether or not it joins one that is there. -/
theorem writes_pushText (t : Text) (span : Span) : Writes roller (pure t) (pushText t span) := by
  have htext (u : Text) (s : Span) : evaluateNode roller (.text u s) = pure u := by
    simp [evaluateNode]
  intro ns
  unfold pushText
  split
  · rename_i u s ns
    simp only [List.reverse_cons, evaluateNodes_append, evaluateNodes_singleton, htext, joined_assoc,
      joined_pure]
  · have hnode := @writes_node roller (.text t span) ns
    simpa [htext] using hnode

/-! ## Stacks that are evaluated alike -/

/-- Two open rolls of one kind with insides that are evaluated alike. -/
structure Alike (roller : Roller) (fr fr' : Frame) : Prop where
  kind : fr.kind = fr'.kind
  inner : evaluateNodes roller fr.inner.reverse = evaluateNodes roller fr'.inner.reverse

/-- A stack whose open rolls are like those of another one, and whose top level is that of the other
one with `x` in front of it. -/
structure Follows (roller : Roller) (x : Step Text) (s s' : Stack) : Prop where
  outer : evaluateNodes roller s.outer.reverse = joined x (evaluateNodes roller s'.outer.reverse)
  frames : List.Forall₂ (Alike roller) s.frames s'.frames

theorem Alike.node {fr fr' : Frame} (h : Alike roller fr fr') (closed closed' : Bool) (p p' : Position) :
    evaluateNode roller (fr.node closed p) = evaluateNode roller (fr'.node closed' p') := by
  simp only [Frame.node, evaluateNode, h.kind, h.inner]

namespace Follows

variable {s s' : Stack}

/-- Stacks that follow each other do so when the same is written on both. -/
theorem modify {f f' : List Node → List Node} (h : Follows roller x s s') (hf : Writes roller y f)
    (hf' : Writes roller y f') : Follows roller x (s.modify f) (s'.modify f') := by
  rcases s with ⟨outer, frames⟩
  rcases s' with ⟨outer', frames'⟩
  rcases h with ⟨houter, hframes⟩
  cases hframes with
  | nil =>
      refine ⟨?_, .nil⟩
      simp only [Stack.modify, hf outer, hf' outer', houter, joined_assoc]
  | @cons fr fr' frs frs' hfirst hrest =>
      refine ⟨houter, .cons ⟨hfirst.kind, ?_⟩ hrest⟩
      rw [hf fr.inner, hf' fr'.inner, hfirst.inner]

theorem push (h : Follows roller x s s') (kind : Kind) (span span' : Span) :
    Follows roller x (s.push kind span) (s'.push kind span') :=
  ⟨h.outer, .cons ⟨rfl, rfl⟩ h.frames⟩

/-- Whether a closing delimiter is accepted depends on the kinds of the open rolls only. -/
theorem readCloser (h : Follows roller x s s') (kind : Kind) (span span' : Span) :
    Follows roller x (s.read ⟨.delimiter kind.closer, span⟩) (s'.read ⟨.delimiter kind.closer, span'⟩) := by
  rw [Stack.read_closer, Stack.read_closer]
  have htext : Follows roller x (s.modify (pushText kind.closer.source span))
      (s'.modify (pushText kind.closer.source span')) :=
    h.modify (writes_pushText _ _) (writes_pushText _ _)
  rcases s with ⟨outer, frames⟩
  rcases s' with ⟨outer', frames'⟩
  rcases h with ⟨houter, hframes⟩
  cases hframes with
  | nil => exact htext
  | @cons fr fr' frs frs' hfirst hrest =>
      have hnode : Writes roller (evaluateNode roller (fr.node true span.finish))
          (fr'.node true span'.finish :: ·) := by
        rw [hfirst.node true true span.finish span'.finish]
        exact writes_node _
      -- the innermost rolls are of one kind: both accept the delimiter or neither does
      simp only [Stack.close?, ← hfirst.kind]
      split
      · have hends : Follows roller x ⟨outer, frs⟩ ⟨outer', frs'⟩ := ⟨houter, hrest⟩
        exact hends.modify (writes_node _) hnode
      · exact htext

theorem readDelimiter (h : Follows roller x s s') (d : Delimiter) (span span' : Span) :
    Follows roller x (s.read ⟨.delimiter d, span⟩) (s'.read ⟨.delimiter d, span'⟩) := by
  rcases d.eq_opener_or_closer with ⟨kind, rfl | rfl⟩
  · rw [Stack.read_opener, Stack.read_opener]
    exact h.push kind span span'
  · exact h.readCloser kind span span'

/-- The rolls that are open at the end are evaluated alike as well. -/
theorem finish {p p' : Position} (h : Follows roller x s s') :
    evaluateNodes roller (finishFrames p s.outer [] s.frames) =
      joined x (evaluateNodes roller (finishFrames p' s'.outer [] s'.frames)) := by
  rcases s with ⟨outer, frames⟩
  rcases s' with ⟨outer', frames'⟩
  rcases h with ⟨houter, hframes⟩
  dsimp only at houter hframes ⊢
  -- the roll that ended last becomes part of the next one
  suffices hall : ∀ late late', evaluateNodes roller late.reverse = evaluateNodes roller late'.reverse →
      evaluateNodes roller (finishFrames p outer late frames) =
        joined x (evaluateNodes roller (finishFrames p' outer' late' frames')) from hall [] [] rfl
  induction hframes with
  | nil =>
      intro late late' hlate
      simp only [finishFrames, List.reverse_append, evaluateNodes_append, houter, hlate, joined_assoc]
  | @cons fr fr' frs frs' hfirst hrest ih =>
      intro late late' hlate
      have hlast : Alike roller { fr with inner := late ++ fr.inner }
          { fr' with inner := late' ++ fr'.inner } := by
        refine ⟨hfirst.kind, ?_⟩
        simp only [List.reverse_append, evaluateNodes_append, hfirst.inner, hlate]
      refine ih _ _ ?_
      simpa [evaluateNodes_singleton] using hlast.node false false p p'

end Follows

/-- Reading on keeps a stack behind what it follows, wherever in the message the text stands. -/
theorem follows_read (inlineMath : Bool) {k k' : Cursor} (hmode : k.mode = k'.mode)
    (h : Follows roller x k.stack k'.stack) (t : Text) :
    Follows roller x (k.read inlineMath t).stack (k'.read inlineMath t).stack := by
  have htext {j j' : Cursor} (hj : Follows roller x j.stack j'.stack) (c : Char) :
      Follows roller x (j.text [c]).stack (j'.text [c]).stack :=
    hj.modify (writes_pushText _ _) (writes_pushText _ _)
  -- both cursors stay in the same mode, so that the same delimiters begin
  fun_induction Cursor.read inlineMath k t generalizing k' with
  | case1 k => exact h
  | case2 k c => exact htext h c
  | case3 k c d cs e hpair ih =>
      rw [Cursor.read_of_ofPair? (hmode ▸ hpair)]
      exact ih (congrArg (Mode.after · e) hmode) (h.readDelimiter e _ _)
  | case4 k c d cs hpair ih =>
      rw [Cursor.read_of_not_begins (not_begins_of_ofPair? (hmode ▸ hpair) cs)]
      exact ih hmode (htext h c)

/-! ## Messages -/

/-- If no roll is open, then neither is inline math. -/
theorem ordinary_of_frames {k : Cursor} (h : k.InStep) (hframes : k.stack.frames = []) : k.mode = .ordinary := by
  cases hmode : k.mode with
  | ordinary => rfl
  | math =>
      simp [Cursor.InStep, hmode, Stack.opened, hframes] at h

/-- Behind a message that is read strictly no roll is open, and no inline math. -/
theorem start_read_of_strict {inlineMath : Bool} {source : Text} {m : Message}
    (h : parseStrict inlineMath source = .ok m) :
    let k := Cursor.start.read inlineMath source
    k.mode = .ordinary ∧ k.stack.frames = [] := by
  intro k
  rcases reached_of_strict h with ⟨s, hs, hframes, -⟩
  have hstack : s = k.stack := hs.lenient.trans (Cursor.foldl_read_tokens inlineMath source)
  rw [hstack] at hframes
  have hstep : k.InStep := (Cursor.along_inStep inlineMath).read Cursor.inStep_start
  exact ⟨ordinary_of_frames hstep hframes, hframes⟩

/-- Characters that meet are no delimiter unless they are two equal brackets. -/
theorem parted_of_brackets {a b : Text}
    (h : ∀ c ∈ ['[', ']', '<', '>'], ¬(a.getLast? = some c ∧ b.head? = some c)) (inlineMath : Bool) :
    Cursor.Parted inlineMath a b := by
  intro c hc d hd m
  refine Option.eq_none_iff_forall_ne_some.2 fun e hpair => ?_
  have hsource := Delimiter.source_of_ofPair? hpair
  have hequal : c = d ∧ c ∈ ['[', ']', '<', '>'] := by
    cases e <;> cases hsource <;> simp
  exact h c hequal.2 ⟨hc, hequal.1 ▸ hd⟩

/-- Without tooltips, evaluating a message with balanced delimiters and another one behind it is
evaluating the first, then the second in the state that the first has left, and joining their texts,
if the two do not meet in two equal brackets. -/
theorem evaluateRolls_append {settings : Settings} {a b : Text} {m : Message}
    (htooltips : settings.tooltips = false) (ha : parseStrict settings.inlineMath a = .ok m)
    (hmeet : ∀ c ∈ ['[', ']', '<', '>'], ¬(a.getLast? = some c ∧ b.head? = some c)) :
    evaluateRolls settings (a ++ b) = (do
      let t ← evaluateRolls settings a
      let u ← evaluateRolls settings b
      pure (t ++ u)) := by
  rcases settings with ⟨roller, tooltips, inlineMath⟩
  obtain rfl : tooltips = false := htooltips
  rcases start_read_of_strict ha with ⟨hmode, hframes⟩
  have hall (source : Text) : evaluateRolls ⟨roller, false, inlineMath⟩ source =
      evaluateNodes roller (parse inlineMath source).children := by
    simp [evaluateRolls, evaluateTop_plain]
  change _ = joined _ _
  rw [hall, hall, hall]
  -- at first there is nothing behind the message in front
  let k := Cursor.start.read inlineMath a
  let first := evaluateNodes roller k.stack.outer.reverse
  have hfirst : evaluateNodes roller (parse inlineMath a).children = first := by
    simp [parse_eq, hframes, finishFrames, first, k]
  have hbegin : Follows roller first k.stack Cursor.start.stack := by
    refine ⟨?_, by rw [hframes]; exact .nil⟩
    simp [Cursor.start, evaluateNodes, first]
  have hends := follows_read inlineMath hmode hbegin b
  rw [← Cursor.read_append (parted_of_brackets hmeet inlineMath)] at hends
  rw [hfirst, parse_eq, parse_eq]
  exact hends.finish

/-- A text that is cut in two at the seam, next to single brackets, and a roll behind it that is never
closed. -/
theorem evaluateRolls_append_unclosed :
    let settings : Settings := ⟨.shorthand, false, true⟩
    let a := "[[@n:2d6]]<<1+1>> [<".toList
    let b := "] @{n} [[ [[1d4]] + <<2".toList
    (∃ m, parseStrict settings.inlineMath a = .ok m) ∧
      (∀ c ∈ ['[', ']', '<', '>'], ¬(a.getLast? = some c ∧ b.head? = some c)) ∧
      evaluateRolls settings (a ++ b) = (do
        let t ← evaluateRolls settings a
        let u ← evaluateRolls settings b
        pure (t ++ u)) := by
  intro settings a b
  obtain ⟨m, ha⟩ : ∃ m, parseStrict true a = .ok m := Act.exists_of_toOption (by decide +kernel)
  have hmeet : ∀ c ∈ ['[', ']', '<', '>'], ¬(a.getLast? = some c ∧ b.head? = some c) := by
    have hlast : a.getLast? = some '<' := by decide +kernel
    have hhead : b.head? = some ']' := by decide +kernel
    rintro c - ⟨ha, hb⟩
    rw [hlast] at ha
    rw [hhead, ← ha] at hb
    exact absurd hb (by decide)
  exact ⟨⟨m, ha⟩, hmeet, evaluateRolls_append rfl ha hmeet⟩

end Evaluation

end TabletopChat
