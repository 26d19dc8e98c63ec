import TabletopChat.Evaluation.Evaluate
import TabletopChat.Proofs.Markup.Cursor

/-!
# Proofs/Markup/InlineMath — inline math changes nothing where `<<` does not occur

Where inline math is on, `>>` is a delimiter as well. Without a `<<` in front no roll accepts it, so
that it becomes text, joins the text around it, and takes the place that it has as plain text. The tree
of such a message, and all that is rolled in it, is the same whether inline math is on or off.

- `delimiter_mathClose`      : `>>` outside of inline math is text
- `read_without_math`        : reading a text without `<<`
- `inline_math_conservative` : the tree and the rolls of a message without `<<`
-/

namespace TabletopChat

namespace Markup

namespace Cursor

variable {k : Cursor}

/-- Outside of inline math `>>` is read like any other text. -/
theorem delimiter_mathClose (h : k.InStep) (hmode : k.mode = .ordinary) :
    k.delimiter .mathClose = k.text ['>', '>'] :=
  delimiter_unaccepted hmode (h.ne_math_of_ordinary hmode)

theorem not_begins_angle (cs : Text) : ¬Begins false .ordinary ('>' :: cs) := by
  rintro ⟨x, y, zs, e, heq, hpair⟩
  cases heq
  simp [Delimiter.ofPair?] at hpair

/-- A delimiter outside of inline math is one of those of inline math, or is read where inline math is
off as well, and does not begin inline math. -/
theorem ofPair?_without_math {c d : Char} {e : Delimiter}
    (h : Delimiter.ofPair? true .ordinary c d = some e) :
    e = .mathOpen ∨ e = .mathClose ∨
      (Delimiter.ofPair? false .ordinary c d = some e ∧ Mode.after .ordinary e = .ordinary) := by
  have hsource := Delimiter.source_of_ofPair? h
  cases e with
  | mathOpen => exact .inl rfl
  | mathClose => exact .inr (.inl rfl)
  | rollOpen =>
      cases hsource
      exact .inr (.inr ⟨rfl, rfl⟩)
  | rollClose =>
      cases hsource
      exact .inr (.inr ⟨rfl, rfl⟩)

/-- A text without `<<` is read alike, whether inline math is on or off. -/
theorem read_without_math {t : Text} (h : k.InStep) (hmode : k.mode = .ordinary)
    (ht : ¬Delimiter.mathOpen.source <:+: t) : k.read true t = k.read false t := by
  fun_induction Cursor.read true k t with
  | case1 k => rfl
  | case2 k c => rfl
  | case3 k c d cs e hpair ih =>
      have hcs : ¬Delimiter.mathOpen.source <:+: cs := fun hfound =>
        ht (hfound.trans (List.suffix_append [c, d] cs).isInfix)
      have hsource := Delimiter.source_of_ofPair? hpair
      have hnext := h.delimiter hpair
      rcases ofPair?_without_math (hmode ▸ hpair) with rfl | rfl | ⟨hoff, hafter⟩
      · cases hsource
        exact absurd (List.prefix_append ['<', '<'] cs).isInfix ht
      · -- the delimiter is text, which is read in two steps where it is no delimiter
        cases hsource
        have hon : k.delimiter .mathClose = (k.text ['>']).text ['>'] := by
          rw [delimiter_mathClose h hmode, text_text]
          rfl
        have hoff : k.read false ('>' :: '>' :: cs) = ((k.text ['>']).text ['>']).read false cs := by
          rw [read_of_not_begins (hmode ▸ not_begins_angle _),
            read_of_not_begins (hmode ▸ not_begins_angle _)]
        rw [ih hnext rfl hcs, hon, hoff]
      · have hordinary : (k.delimiter e).mode = .ordinary := by rw [Cursor.delimiter, hmode, hafter]
        rw [ih hnext hordinary hcs, read_of_ofPair? (hmode ▸ hoff)]
  | case4 k c d cs hpair ih =>
      have hcs : ¬Delimiter.mathOpen.source <:+: d :: cs := fun hfound =>
        ht (hfound.trans (List.suffix_cons c (d :: cs)).isInfix)
      have hoff : Delimiter.ofPair? false k.mode c d = none := by
        rw [hmode] at hpair ⊢
        revert hpair
        simp only [Delimiter.ofPair?]
        grind
      rw [ih (h.text [c]) hmode hcs, read_of_not_begins (not_begins_of_ofPair? hoff cs)]

end Cursor

open Evaluation

/-- A message in which `<<` does not occur has the same tree whether inline math is on or off, every
node in its place; so it is evaluated alike, with the same results, records, dice and remarks. -/
theorem inline_math_conservative {source : Text} (h : ¬['<', '<'] <:+: source) :
    parse true source = parse false source ∧
      ∀ roller tooltips, evaluateRolls ⟨roller, tooltips, true⟩ source =
        evaluateRolls ⟨roller, tooltips, false⟩ source := by
  have hparse : parse true source = parse false source := by
    rw [parse_eq, parse_eq, Cursor.read_without_math Cursor.inStep_start rfl h]
  refine ⟨hparse, fun roller tooltips => ?_⟩
  simp only [evaluateRolls, hparse]

/-- Closing angle brackets at the edges of texts, in runs and in nested rolls. -/
theorem inline_math_conservative_closers :
    let source := ">>[[1>>>d4 ]] <b> [[2 [[>>]]>>".toList
    ¬['<', '<'] <:+: source ∧ parse true source = parse false source ∧
      ∀ roller tooltips, evaluateRolls ⟨roller, tooltips, true⟩ source =
        evaluateRolls ⟨roller, tooltips, false⟩ source := by
  intro source
  have h : ¬['<', '<'] <:+: source := by decide +kernel
  exact ⟨h, inline_math_conservative h⟩

end Markup

end TabletopChat
