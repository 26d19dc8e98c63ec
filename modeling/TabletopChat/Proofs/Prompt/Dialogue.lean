import Mathlib.Data.List.Forall2
import TabletopChat.Prompt.Terminal
import TabletopChat.Proofs.Prompt.Items

/-!
# Proofs/Prompt/Dialogue — choices that are typed

Choices are asked for on a terminal until a line gives an answer or the input ends. A blank line keeps what
is selected. Any other line has to mention numbers of choices between its commas, one at least and nothing
else; blanks around them, and blanks alone, do not count, and neither do carriage returns in front of the
line feed.

- `Line`, `Lines`  : lines at the beginning of an input, and what follows them
- `Names`          : a line names choices
- `Means`, `Rejected` : the choices that a line stands for, and lines that stand for none
- `Dialogue`       : rejected lines, and then an answer or the end of the input
- `picked?_iff`    : the choices that are read from a line are those that it names
- `readLines_of_means`, `readLines_of_rejected` : one line is read
- `dialogue_readLines`, `Dialogue.eq_readLines` : reading is a dialogue, and the only one
- `choices_follow_numbers` : what is answered, shown and left unread
-/

namespace TabletopChat

namespace Text

variable {t tail : Text} {sep : Char}

/-! ## Endings that do not count -/

/-- Blanks at the end of a text do not count. -/
theorem strip_append_blank (t : Text) (htail : ∀ c ∈ tail, isBlank c = true) : strip (t ++ tail) = strip t := by
  have hgone : tail.dropWhile isBlank = [] := List.dropWhile_eq_nil_iff.2 htail
  have hback : ∀ c ∈ tail.reverse, isBlank c = true := fun c hc => htail c (List.mem_reverse.1 hc)
  rw [strip, stripBy, List.dropWhile_append, hgone]
  split
  · rename_i hblank
    rw [strip, stripBy, List.isEmpty_iff.1 hblank]
  · rw [List.reverse_append, List.dropWhile_append_of_pos hback]
    rfl

/-- What is written at the end of a text is written at the end of its last piece. -/
theorem pieces_append_tail (t : Text) (htail : sep ∉ tail) :
    ∃ before last, pieces sep t = before ++ [last] ∧ pieces sep (t ++ tail) = before ++ [last ++ tail] := by
  induction t with
  | nil => exact ⟨[], [], rfl, by rw [List.nil_append, pieces_eq_single htail]; rfl⟩
  | cons c cs ih =>
    obtain ⟨before, last, hcs, htailed⟩ := ih
    by_cases hc : c = sep
    · exact ⟨[] :: before, last, by simp [pieces, hc, hcs], by simp [pieces, hc, htailed]⟩
    · cases before with
      | nil => exact ⟨[], c :: last, by simp [pieces, hc, hcs], by simp [pieces, hc, htailed]⟩
      | cons p ps => exact ⟨(c :: p) :: ps, last, by simp [pieces, hc, hcs], by simp [pieces, hc, htailed]⟩

end Text

namespace Prompt

variable {kind : Kind} {choices named chosen cs : List Choice} {c : Choice} {item line input rest later : Text}
  {lines items : List Text} {fuel : Nat}

/-! ## Lines -/

/-- The line at the beginning of an input, without the line feed that ends it, and what follows. Only the
last line of an input may have none. -/
inductive Line : Text → Text → Text → Prop
  | ended {line : Text} (rest : Text) (hline : '\n' ∉ line) : Line (line ++ '\n' :: rest) line rest
  | last {line : Text} (hline : '\n' ∉ line) (hne : line ≠ []) : Line line line []

/-- Several lines at the beginning of an input, and what follows them. -/
inductive Lines : List Text → Text → Text → Prop
  | nil (input : Text) : Lines [] input input
  | cons {line input rest later : Text} {lines : List Text} (hline : Line input line rest)
      (hlines : Lines lines rest later) : Lines (line :: lines) input later

theorem Line.length_lt (h : Line input line rest) : rest.length < input.length := by
  cases h with
  | ended rest hline => simp; omega
  | last hline hne => exact List.length_pos_iff.2 hne

/-- Each line takes a character of the input, its end at least. -/
theorem Lines.length_le {lines : List Text} (h : Lines lines input rest) :
    rest.length + lines.length ≤ input.length := by
  induction h with
  | nil input => exact le_rfl
  | cons hline _ ih =>
    have hshort := hline.length_lt
    rw [List.length_cons]
    omega

/-- The last of several lines stands behind the others. -/
theorem Lines.exists_last {lines : List Text} (h : Lines (lines ++ [line]) input rest) :
    ∃ behind, Lines lines input behind ∧ Line behind line rest := by
  induction lines generalizing input with
  | nil =>
    cases h with
    | cons hline hnone =>
      cases hnone
      exact ⟨input, .nil input, hline⟩
  | cons l ls ih =>
    cases h with
    | cons hline hmore =>
      obtain ⟨behind, hlines, hlast⟩ := ih hmore
      exact ⟨behind, .cons hline hlines, hlast⟩

/-- A line is read up to its end, and the rest is left. -/
theorem nextLine?_of_line (h : Line input line rest) : nextLine? input = some (line, rest) := by
  cases h with
  | ended rest hline =>
    have hcut := Text.cutAt_append hline rest
    cases line with
    | nil => rw [List.nil_append] at hcut ⊢; simp only [nextLine?, hcut]
    | cons c cs => rw [List.cons_append] at hcut ⊢; simp only [nextLine?, hcut]
  | last hline hne =>
    obtain ⟨c, cs, rfl⟩ := List.exists_cons_of_ne_nil hne
    rcases Text.cutAt_cases '\n' (c :: cs) with ⟨-, hcut⟩ | ⟨before, behind, heq, -, -⟩
    · simp only [nextLine?, hcut]
    · simp [heq] at hline

/-- A line begins an input unless the input has ended. -/
theorem exists_line_of_ne_nil (h : input ≠ []) : ∃ line rest, Line input line rest := by
  rcases Text.cutAt_cases '\n' input with ⟨hnone, -⟩ | ⟨line, rest, rfl, hline, -⟩
  · exact ⟨input, [], .last hnone h⟩
  · exact ⟨line, rest, .ended rest hline⟩

/-- What is cut off from a line are carriage returns. -/
theorem exists_returns (line : Text) : ∃ returns, line = bareLine line ++ returns ∧ ∀ c ∈ returns, c = '\r' := by
  let isReturn (c : Char) : Bool := c = '\r'
  refine ⟨(line.reverse.takeWhile isReturn).reverse, ?_, fun c hc => ?_⟩
  · calc
      line = (line.reverse.takeWhile isReturn ++ line.reverse.dropWhile isReturn).reverse := by
        rw [List.takeWhile_append_dropWhile, List.reverse_reverse]
      _ = bareLine line ++ (line.reverse.takeWhile isReturn).reverse := List.reverse_append
  · have hreturn : isReturn c = true := List.mem_takeWhile_imp (List.mem_reverse.1 hc)
    exact of_decide_eq_true hreturn

/-! ## What a line says -/

/-- What a line mentions: the texts between its commas without the blanks around them, unless they are
blank. -/
def mentioned (line : Text) : List Text := ((Text.pieces ',' line).map Text.strip).filter (· ≠ [])

def Numbers (choices : List Choice) (item : Text) (c : Choice) : Prop :=
  ∃ n : Nat, Text.toInt? item = some (n : Int) ∧ 1 ≤ n ∧ n ≤ choices.length ∧ choices[n - 1]? = some c

/-- A line names choices: it mentions something, and nothing but the numbers of these choices. -/
structure Names (choices : List Choice) (line : Text) (named : List Choice) : Prop where
  some : mentioned line ≠ []
  each : List.Forall₂ (Numbers choices) (mentioned line) named

/-- What a line names is offered. -/
theorem Names.mem (h : Names choices line named) (hc : c ∈ named) : c ∈ choices := by
  have hall {items : List Text} {named : List Choice} (heach : List.Forall₂ (Numbers choices) items named) :
      ∀ c ∈ named, c ∈ choices := by
    induction heach with
    | nil => exact List.forall_mem_nil _
    | cons hnumber _ ih =>
      obtain ⟨n, -, -, -, hget⟩ := hnumber
      exact List.forall_mem_cons.2 ⟨List.mem_of_getElem? hget, ih⟩
  exact hall h.each c hc

/-- The choices that a line stands for. A blank line keeps the choices that are selected. Other lines name
what is chosen: each of several choices once, or the first one of those that exclude each other. -/
inductive Means (kind : Kind) (choices : List Choice) (line : Text) : List Choice → Prop
  | kept (hblank : Text.allBlank line = true) : Means kind choices line (choices.filter Choice.selected)
  | several {named : List Choice} (hkind : kind = .checkbox) (hnamed : Names choices line named) :
      Means kind choices line named.eraseDups
  | single {c : Choice} {named : List Choice} (hkind : kind ≠ .checkbox)
      (hnamed : Names choices line (c :: named)) : Means kind choices line [c]

def Rejected (choices : List Choice) (line : Text) : Prop :=
  Text.allBlank line = false ∧ ∀ named, ¬ Names choices line named

/-! ## Reading a line -/

/-- A number stands for the choice at its place. -/
theorem numbered?_iff : numbered? choices item = some c ↔ Numbers choices item c := by
  unfold numbered? Numbers
  constructor
  · intro h
    split at h
    · rename_i n hn
      obtain ⟨hlt, -⟩ := List.getElem?_eq_some_iff.1 h
      exact ⟨n + 1, hn, by omega, by omega, h⟩
    · cases h
  · rintro ⟨n, hn, hone, -, hc⟩
    obtain ⟨k, rfl⟩ : ∃ k, n = k + 1 := ⟨n - 1, by omega⟩
    rw [hn]
    exact hc

/-- Numbers stand for choices one by one. -/
theorem numberedAll?_iff :
    numberedAll? choices items = some cs ↔
      List.Forall₂ (Numbers choices) ((items.map Text.strip).filter (· ≠ [])) cs := by
  induction items generalizing cs with
  | nil => simp [numberedAll?, eq_comm]
  | cons item items ih =>
    by_cases hblank : Text.strip item = []
    · rw [numberedAll?, if_pos hblank, ih]
      simp [hblank]
    · rw [numberedAll?, if_neg hblank, List.map_cons, List.filter_cons_of_pos (by simpa using hblank),
        List.forall₂_cons_left_iff]
      constructor
      · intro h
        split at h
        · rename_i d ds hd hds
          cases h
          exact ⟨d, ds, numbered?_iff.1 hd, ih.1 hds, rfl⟩
        · cases h
      · rintro ⟨d, ds, hd, hds, rfl⟩
        rw [numbered?_iff.2 hd, ih.2 hds]

/-- Choices are kept where they are mentioned first. -/
theorem withoutRepeats_eq (seen cs : List Choice) :
    withoutRepeats seen cs = (cs.filter (· ∉ seen)).eraseDups := by
  induction cs generalizing seen with
  | nil => rfl
  | cons c cs ih =>
    by_cases hc : c ∈ seen
    · rw [withoutRepeats, if_pos hc, ih, List.filter_cons_of_neg (by simpa using hc)]
    · rw [withoutRepeats, if_neg hc, ih, List.filter_cons_of_pos (by simpa using hc), List.eraseDups_cons,
        List.filter_filter]
      congr 2
      refine List.filter_congr fun d _ => ?_
      by_cases hd : d = c <;> simp [hd]

/-- Carriage returns at the end of a line make no difference to what it mentions. -/
theorem mentioned_bareLine (line : Text) : mentioned (bareLine line) = mentioned line := by
  obtain ⟨returns, hline, hreturns⟩ := exists_returns line
  have hcomma : ',' ∉ returns := fun hmem => by simpa using hreturns ',' hmem
  have hblank : ∀ c ∈ returns, Text.isBlank c = true := fun c hc => by rw [hreturns c hc]; decide
  obtain ⟨before, last, hbare, htailed⟩ := Text.pieces_append_tail (bareLine line) hcomma
  rw [← hline] at htailed
  rw [mentioned, mentioned, hbare, htailed]
  simp [Text.strip_append_blank last hblank]

/-- Taking the line end off leaves a blank line blank. -/
theorem allBlank_bareLine (line : Text) : Text.allBlank (bareLine line) = Text.allBlank line := by
  obtain ⟨returns, hline, hreturns⟩ := exists_returns line
  have hblank : Text.allBlank returns = true :=
    List.all_eq_true.2 fun c hc => by rw [hreturns c hc]; decide
  have hboth : Text.allBlank line = (Text.allBlank (bareLine line) && Text.allBlank returns) := by
    conv_lhs => rw [hline]
    exact List.all_append
  rw [hboth, hblank, Bool.and_true]

/-- The choices that are read from a line are those that it names, each once. -/
theorem picked?_iff :
    picked? choices (bareLine line) = some cs ↔ ∃ named, Names choices line named ∧ named.eraseDups = cs := by
  have hread (named : List Choice) :
      numberedAll? choices (Text.pieces ',' (bareLine line)) = some named ↔
        List.Forall₂ (Numbers choices) (mentioned line) named := by
    rw [numberedAll?_iff, ← mentioned_bareLine]
    rfl
  have honce (named : List Choice) : withoutRepeats [] named = named.eraseDups := by
    simp [withoutRepeats_eq]
  unfold picked?
  constructor
  · intro h
    split at h
    · rename_i c named hnamed
      cases h
      have heach := (hread _).1 hnamed
      refine ⟨c :: named, ⟨fun hnil => ?_, heach⟩, (honce _).symm⟩
      rw [hnil] at heach
      cases heach
    · cases h
  · rintro ⟨named, hnamed, rfl⟩
    rw [(hread named).2 hnamed.each]
    cases named with
    | nil => exact absurd (List.forall₂_nil_right_iff.1 hnamed.each) hnamed.some
    | cons c named => exact congrArg some (honce _)

/-- What names choices is not blank. -/
theorem Names.allBlank_eq (h : Names choices line named) : Text.allBlank line = false := by
  by_contra hblank
  rw [Bool.not_eq_false] at hblank
  have hall := List.all_eq_true.1 hblank
  have hcomma : ',' ∉ line := fun hmem => absurd (hall ',' hmem) (by decide)
  have hstrip : Text.strip line = [] := Text.strip_append_blank [] hall
  refine h.some ?_
  rw [mentioned, Text.pieces_eq_single hcomma]
  simp [hstrip]

/-- A line that names choices stands for what is read from it. -/
theorem means_of_names (h : Names choices line named) :
    Means kind choices line (if kind = .checkbox then named.eraseDups else named.eraseDups.take 1) := by
  split
  · rename_i hkind
    exact .several hkind h
  · rename_i hkind
    cases named with
    | nil => exact absurd (List.forall₂_nil_right_iff.1 h.each) h.some
    | cons c named =>
      rw [List.eraseDups_cons]
      exact .single hkind h

/-- A line means choices, or it is rejected. -/
theorem means_or_rejected (kind : Kind) (choices : List Choice) (line : Text) :
    (∃ chosen, Means kind choices line chosen) ∨ Rejected choices line := by
  by_cases hblank : Text.allBlank line = true
  · exact .inl ⟨_, .kept hblank⟩
  · by_cases hnamed : ∃ named, Names choices line named
    · obtain ⟨named, hnamed⟩ := hnamed
      exact .inl ⟨_, means_of_names hnamed⟩
    · exact .inr ⟨eq_false_of_ne_true hblank, fun named h => hnamed ⟨named, h⟩⟩

/-! ## Reading lines -/

/-- A line that stands for choices ends the reading. -/
theorem readLines_of_means (hline : Line input line rest) (h : Means kind choices line chosen) :
    readLines kind choices (fuel + 1) input = ⟨some chosen, choicePrompt kind, rest⟩ := by
  rw [readLines, nextLine?_of_line hline]
  simp only [allBlank_bareLine]
  cases h with
  | kept hblank => rw [if_pos hblank]
  | several hkind hnamed =>
    rw [hnamed.allBlank_eq, picked?_iff.2 ⟨_, hnamed, rfl⟩]
    simp [hkind]
  | single hkind hnamed =>
    rw [hnamed.allBlank_eq, picked?_iff.2 ⟨_, hnamed, rfl⟩]
    simp [hkind, List.eraseDups_cons]

/-- Behind a line that is rejected, reading goes on. -/
theorem readLines_of_rejected (hline : Line input line rest) (h : Rejected choices line) :
    readLines kind choices (fuel + 1) input =
      { readLines kind choices fuel rest with
        shown := choicePrompt kind ++ retryNotice kind choices ++ (readLines kind choices fuel rest).shown } := by
  have hnone : picked? choices (bareLine line) = none := by
    cases hpicked : picked? choices (bareLine line) with
    | none => rfl
    | some cs =>
      obtain ⟨named, hnamed, -⟩ := picked?_iff.1 hpicked
      exact absurd hnamed (h.2 named)
  rw [readLines, nextLine?_of_line hline]
  simp only [allBlank_bareLine, h.1, hnone]
  rfl

/-- What is shown while lines are rejected: the question before each of them, and a notice behind it. -/
def notices (kind : Kind) (choices : List Choice) (rejected : Nat) : Text :=
  (List.replicate rejected (choicePrompt kind ++ retryNotice kind choices)).flatten

/-- What is shown while lines are read of which some are rejected; the last question has no notice behind
it. -/
def questions (kind : Kind) (choices : List Choice) (rejected : Nat) : Text :=
  notices kind choices rejected ++ choicePrompt kind

theorem notices_succ (kind : Kind) (choices : List Choice) (n : Nat) :
    notices kind choices (n + 1) = choicePrompt kind ++ retryNotice kind choices ++ notices kind choices n := by
  rw [notices, List.replicate_succ, List.flatten_cons]
  rfl

/-- Several lines that are rejected. -/
theorem readLines_of_lines {rejected : List Text} (hlines : Lines rejected input rest)
    (hrejected : ∀ l ∈ rejected, Rejected choices l) :
    readLines kind choices (fuel + rejected.length) input =
      { readLines kind choices fuel rest with
        shown := notices kind choices rejected.length ++ (readLines kind choices fuel rest).shown } := by
  induction hlines with
  | nil input => rfl
  | cons hline _ ih =>
    rw [List.forall_mem_cons] at hrejected
    rw [List.length_cons, ← Nat.add_assoc, readLines_of_rejected hline hrejected.1, ih hrejected.2, notices_succ]
    simp only [List.append_assoc]

/-- Lines are read up to the first one that gives an answer, and the rest is left. If there is none, the
question is dismissed when all lines are read. -/
inductive Dialogue (kind : Kind) (choices : List Choice) : Text → Reply Text (List Choice) → Prop
  | answered {rejected : List Text} {line input rest : Text} {chosen : List Choice}
      (hlines : Lines (rejected ++ [line]) input rest) (hrejected : ∀ l ∈ rejected, Rejected choices l)
      (hanswer : Means kind choices line chosen) :
      Dialogue kind choices input ⟨some chosen, questions kind choices rejected.length, rest⟩
  | dismissed {rejected : List Text} {input : Text}
      (hlines : Lines rejected input []) (hrejected : ∀ l ∈ rejected, Rejected choices l) :
      Dialogue kind choices input ⟨none, questions kind choices rejected.length, []⟩

/-- A dialogue goes on behind a line that is rejected. -/
theorem Dialogue.reject {r : Reply Text (List Choice)} (hline : Line input line rest)
    (hrejected : Rejected choices line) (h : Dialogue kind choices rest r) :
    Dialogue kind choices input { r with shown := choicePrompt kind ++ retryNotice kind choices ++ r.shown } := by
  cases h with
  | @answered rejected last _ _ _ hlines hmore hanswer =>
    have hall : ∀ l ∈ line :: rejected, Rejected choices l := List.forall_mem_cons.2 ⟨hrejected, hmore⟩
    have hread : Lines (line :: rejected ++ [last]) input _ := .cons hline hlines
    rw [questions, ← List.append_assoc, ← notices_succ]
    exact .answered hread hall hanswer
  | @dismissed rejected _ hlines hmore =>
    have hall : ∀ l ∈ line :: rejected, Rejected choices l := List.forall_mem_cons.2 ⟨hrejected, hmore⟩
    rw [questions, ← List.append_assoc, ← notices_succ]
    exact .dismissed (.cons hline hlines) hall

/-- Reading lines is a dialogue, if as many may be read as the input has characters. -/
theorem dialogue_readLines (kind : Kind) (choices : List Choice) (h : input.length < fuel) :
    Dialogue kind choices input (readLines kind choices fuel input) := by
  induction fuel generalizing input with
  | zero => omega
  | succ fuel ih =>
    by_cases hend : input = []
    · subst hend
      exact .dismissed (.nil []) (List.forall_mem_nil _)
    · obtain ⟨line, rest, hline⟩ := exists_line_of_ne_nil hend
      rcases means_or_rejected kind choices line with ⟨chosen, hmeans⟩ | hrejected
      · have hone : Lines ([] ++ [line]) input rest := .cons hline (.nil rest)
        rw [readLines_of_means hline hmeans]
        exact .answered hone (List.forall_mem_nil _) hmeans
      · have hshort := hline.length_lt
        rw [readLines_of_rejected hline hrejected]
        exact (ih (by omega)).reject hline hrejected

/-- No other dialogue is possible. -/
theorem Dialogue.eq_readLines {r : Reply Text (List Choice)} (h : Dialogue kind choices input r)
    (hfuel : input.length < fuel) : r = readLines kind choices fuel input := by
  -- each line that is rejected takes one from the bound, and one is left for what ends the dialogue
  have hsplit {rejected : List Text} {behind : Text} (hlines : Lines rejected input behind) :
      ∃ k, fuel = k + 1 + rejected.length :=
    ⟨fuel - rejected.length - 1, by have hlength := hlines.length_le; omega⟩
  cases h with
  | answered hlines hrejected hmeans =>
    obtain ⟨behind, hfront, hline⟩ := hlines.exists_last
    obtain ⟨k, rfl⟩ := hsplit hfront
    rw [readLines_of_lines hfront hrejected, readLines_of_means hline hmeans]
    rfl
  | dismissed hlines hrejected =>
    obtain ⟨k, rfl⟩ := hsplit hlines
    rw [readLines_of_lines hlines hrejected]
    rfl

/-! ## The whole question -/

/-- Choices are shown, and then lines are read up to the first one that is blank or names choices by their
numbers. It gives the answer, each rejected line in front of it has its notice, and what follows is left
unread. Without such a line there is no answer, and all of the input is read. This is the only dialogue that
is possible. -/
theorem choices_follow_numbers (query : Text) (kind : Kind) (choices : List Choice) (input : Text) :
    let reply := readChoices query kind choices input
    ∃ shown, reply.shown = query ++ '\n' :: choiceLines 1 choices ++ shown ∧
      ∀ r, Dialogue kind choices input r ↔ r = ⟨reply.answer, shown, reply.next⟩ := by
  have hfuel : input.length < input.length + 1 := Nat.lt_succ_self input.length
  refine ⟨_, rfl, fun r => ⟨fun h => h.eq_readLines hfuel, ?_⟩⟩
  rintro rfl
  exact dialogue_readLines kind choices hfuel

/-- A number that is too large rejects its line; a choice that is named twice is chosen once, where it is
named first. -/
example :
    let choice (label : String) : Choice := ⟨label.toList, "1d6".toList, false⟩
    let reply := readChoices "Loot".toList .checkbox [choice "a", choice "b", choice "c"]
      "1, 4\n 3,,+1 ,٣\r\n2".toList
    reply.answer = some [choice "c", choice "a"] ∧ reply.next = "2".toList := by
  decide +kernel

end Prompt

end TabletopChat
