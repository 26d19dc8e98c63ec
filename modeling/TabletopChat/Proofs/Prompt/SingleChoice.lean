import TabletopChat.Proofs.Prompt.Answering
import TabletopChat.Proofs.Prompt.Dialogue

/-!
# Proofs/Prompt/SingleChoice — choices that exclude each other

From a list or from radio buttons one choice is made. A line that names choices gives one of them only. A
blank line keeps all that are selected, and these are all choices that have the value which is remembered.
So more than one choice can be made exactly if several of them have this value.

- `Ambiguous`         : several choices have the remembered value
- `mem_of_means`      : what is answered was offered
- `single_choice`     : at most one choice is made
- `blank_line_keeps_both` : two radio buttons at once
-/

namespace TabletopChat

namespace Prompt

variable {tag : Tag} {m : Memory} {kind : Kind} {choices chosen cs ds : List Choice} {c d : Choice}
  {query line input : Text}

/-! ## What is remembered of exclusive choices -/

/-- The name under which the value of the last choice is remembered, where choices exclude each other. -/
def exclusiveName (tag : Tag) : Text := if tag.kind = .list then "value".toList else tag.query

/-- Several choices of a tag have the value that is remembered. -/
def Ambiguous (tag : Tag) (m : Memory) : Prop :=
  ∃ value, m.find tag.source (exclusiveName tag) = .ok (some (.text value)) ∧
    2 ≤ (tag.choices.map Choice.value).count value

/-- A choice that excludes the others is remembered under the name of the tag. -/
theorem rememberedName_eq (hkind : tag.kind ≠ .checkbox) (c : Choice) :
    rememberedName tag c = exclusiveName tag := by
  unfold rememberedName exclusiveName
  cases h : tag.kind with
  | checkbox => exact absurd h hkind
  | list => rfl
  | radio => rfl
  | other name => rfl

/-- A choice is marked exactly if its value is remembered. -/
theorem marks_iff (hkind : tag.kind ≠ .checkbox) :
    m.marks tag c = true ↔ m.find tag.source (exclusiveName tag) = .ok (some (.text c.value)) := by
  rw [Memory.marks, rememberedName_eq hkind]
  constructor
  · intro h
    split at h
    · rename_i value hfind
      rw [hfind, of_decide_eq_true h]
    · cases h
  · intro h
    rw [h]
    exact decide_eq_true rfl

/-- More than one choice is marked exactly if several have the remembered value. -/
theorem ambiguous_iff (hkind : tag.kind ≠ .checkbox) : Ambiguous tag m ↔ 2 ≤ tag.choices.countP (m.marks tag) := by
  have hcount (value : Text) (hfind : m.find tag.source (exclusiveName tag) = .ok (some (.text value))) :
      tag.choices.countP (m.marks tag) = (tag.choices.map Choice.value).count value := by
    have hmark (c : Choice) : m.marks tag c = true ↔ c.value = value := by
      rw [marks_iff hkind, hfind, Except.ok.injEq, Option.some.injEq, Json.text.injEq]
      exact eq_comm
    rw [List.count, List.countP_map]
    exact List.countP_congr fun c _ => by rw [hmark, Function.comp_apply, beq_iff_eq]
  constructor
  · rintro ⟨value, hfind, htwo⟩
    rwa [hcount value hfind]
  · intro htwo
    obtain ⟨c, -, hc⟩ := List.countP_pos_iff.1 (Nat.lt_of_succ_lt htwo)
    have hfind := (marks_iff hkind).1 hc
    exact ⟨c.value, hfind, hcount _ hfind ▸ htwo⟩

/-- A blank line keeps as many choices as are marked. -/
theorem length_selected (h : preselectAll tag m tag.choices = .ok choices) :
    (choices.filter Choice.selected).length = tag.choices.countP (m.marks tag) := by
  rw [preselectAll_eq h, ← List.countP_eq_length_filter, List.countP_map]
  rfl

/-! ## What is answered -/

/-- What is answered was offered. -/
theorem mem_of_means (h : Means kind choices line chosen) (hc : c ∈ chosen) : c ∈ choices := by
  cases h with
  | kept hblank => exact (List.mem_filter.1 hc).1
  | several hkind hnamed => exact hnamed.mem (List.mem_eraseDups.1 hc)
  | single hkind hnamed =>
    rw [List.mem_singleton] at hc
    exact hnamed.mem (hc ▸ List.mem_cons_self)

/-- An answer is that of a line. -/
theorem exists_line (h : (readChoices query kind choices input).answer = some chosen) :
    ∃ line, Means kind choices line chosen := by
  have hdialogue := dialogue_readLines kind choices (Nat.lt_succ_self input.length)
  have hanswer : (readLines kind choices (input.length + 1) input).answer = some chosen := h
  generalize readLines kind choices (input.length + 1) input = r at hdialogue hanswer
  cases hdialogue with
  | answered _ _ hline =>
    cases hanswer
    exact ⟨_, hline⟩
  | dismissed => cases hanswer

/-- A blank line keeps the choices that are selected. -/
theorem answer_blank (query : Text) (kind : Kind) (choices : List Choice) :
    (readChoices query kind choices ['\n']).answer = some (choices.filter Choice.selected) := rfl

/-! ## One choice -/

/-- A tag whose choices exclude each other asks on a terminal. Whatever is typed, only choices that it
offers are made; and at most one is made, whatever is typed, exactly if no two of the choices have the
value that is remembered. -/
theorem single_choice (hkind : tag.kind ≠ .checkbox) (hoffered : preselectAll tag m tag.choices = .ok choices) :
    (∀ input chosen, (readChoices tag.query tag.kind choices input).answer = some chosen →
      ∀ c ∈ chosen, c ∈ choices) ∧
    ((∀ input chosen, (readChoices tag.query tag.kind choices input).answer = some chosen →
      chosen.length ≤ 1) ↔ ¬ Ambiguous tag m) := by
  refine ⟨fun input chosen h c hc => ?_, fun hone hambiguous => ?_, fun hclear input chosen h => ?_⟩
  · obtain ⟨line, hline⟩ := exists_line h
    exact mem_of_means hline hc
  -- a blank line keeps what is marked, and that are two choices
  · have hkept := hone _ _ (answer_blank tag.query tag.kind choices)
    rw [length_selected hoffered] at hkept
    have htwo := (ambiguous_iff hkind).1 hambiguous
    omega
  · obtain ⟨line, hline⟩ := exists_line h
    cases hline with
    | kept hblank =>
      -- a blank line keeps what is marked, and that is one choice at most
      rw [length_selected hoffered]
      by_contra hmany
      exact hclear ((ambiguous_iff hkind).2 (by omega))
    | several hbox hnamed => exact absurd hbox hkind
    | single _ hnamed => exact le_rfl

/-- A list whose choices have values of their own, the second of which is remembered. -/
theorem single_choice_list :
    let choice (label value : String) (selected : Bool) : Choice := ⟨label.toList, value.toList, selected⟩
    let tag : Tag := ⟨"?\x7bQ|A,1|B,2|C,3\x7d".toList, .list, "Q".toList,
      [choice "A" "1" false, choice "B" "2" false, choice "C" "3" false], [], standardDelimiter⟩
    let m : Memory := ⟨"chatmacro".toList, [(tag.source, .object [("value".toList, .text "2".toList)])]⟩
    let offered := [choice "A" "1" false, choice "B" "2" true, choice "C" "3" false]
    tag.kind ≠ .checkbox ∧ preselectAll tag m tag.choices = .ok offered ∧ ¬ Ambiguous tag m ∧
      (∀ input chosen, (readChoices tag.query tag.kind offered input).answer = some chosen →
        (∀ c ∈ chosen, c ∈ offered) ∧ chosen.length ≤ 1) ∧
      (readChoices tag.query tag.kind offered "4\n\n".toList).answer = some [choice "B" "2" true] := by
  intro choice tag m offered
  have hkind : tag.kind ≠ .checkbox := by decide
  have hoffered : preselectAll tag m tag.choices = .ok offered := rfl
  have hclear : ¬ Ambiguous tag m := by
    rintro ⟨value, hfind, htwo⟩
    have hremembered : m.find tag.source (exclusiveName tag) = .ok (some (.text "2".toList)) := rfl
    rw [hremembered, Except.ok.injEq, Option.some.injEq, Json.text.injEq] at hfind
    subst hfind
    exact absurd htwo (by decide)
  obtain ⟨hmem, hone⟩ := single_choice hkind hoffered
  exact ⟨hkind, hoffered, hclear, fun input chosen h => ⟨hmem input chosen h, hone.2 hclear input chosen h⟩,
    by decide +kernel⟩

/-- Two radio buttons have the value that is remembered, and a blank line makes both choices. -/
theorem blank_line_keeps_both :
    let choice (label : String) (selected : Bool) : Choice := ⟨label.toList, "1".toList, selected⟩
    let tag : Tag := ⟨"?\x7b[radio]Q|A,1|B,1\x7d".toList, .radio, "Q".toList,
      [choice "A" false, choice "B" false], [], standardDelimiter⟩
    let m : Memory := ⟨"chatmacro".toList, [(tag.source, .object [("Q".toList, .text "1".toList)])]⟩
    let offered := [choice "A" true, choice "B" true]
    Tag.read? tag.source = some (tag, []) ∧ preselectAll tag m tag.choices = .ok offered ∧
      (readChoices tag.query tag.kind offered ['\n']).answer = some offered ∧ ¬ offered.length ≤ 1 := by
  intro choice tag m offered
  exact ⟨by decide +kernel, rfl, rfl, by decide⟩

end Prompt

end TabletopChat
