import Mathlib.Data.List.GetD
import TabletopChat.Markup.Excerpt
import TabletopChat.Proofs.Markup.Tiling

/-!
# Proofs/Markup/Carets — carets stand under the delimiter that a fault is about

The place of a delimiter counts line feeds, and the line that is shown is cut at the end of a line in any
convention. The two agree in texts whose lines end in line feeds, with or without a carriage return in
front: there the report of a fault shows the line of the delimiter, with carets under it. Any other
character that ends a line makes the report show the wrong one.

- `FeedsOnly`               : texts whose lines end in line feeds
- `feedLines`, `lines_eq_feedLines` : lines that are cut at line feeds
- `terminated`, `lineAt_terminated` : a line below others
- `carets_under_delimiter`  : the report of a fault
-/

namespace TabletopChat

/-! ## Lines that end in line feeds -/

namespace Text

/-- The lines of a text end in line feeds, with or without a carriage return in front of it; no other
character that ends a line occurs. -/
def FeedsOnly (t : Text) : Prop :=
  ∀ before c behind, t = before ++ c :: behind → isLineEnd c = true →
    c = '\n' ∨ (c = '\r' ∧ behind.head? = some '\n')

def feedLines : Text → List Text
  | [] => []
  | c :: cs => if c = '\n' then [c] :: feedLines cs else consLine c (feedLines cs)

theorem FeedsOnly.behind {t u : Text} (h : FeedsOnly (t ++ u)) : FeedsOnly u := by
  intro before c behind heq
  exact h (t ++ before) c behind (by rw [heq, List.append_assoc])

theorem feedsOnly_nil : FeedsOnly [] := by
  intro before c behind heq
  simp at heq

/-- Whether a text ends its lines with line feeds only, letter by letter. -/
theorem feedsOnly_cons {c : Char} {cs : Text} :
    FeedsOnly (c :: cs) ↔
      (isLineEnd c = true → c = '\n' ∨ (c = '\r' ∧ cs.head? = some '\n')) ∧ FeedsOnly cs := by
  refine ⟨fun h => ⟨h [] c cs rfl, h.behind (t := [c])⟩, ?_⟩
  rintro ⟨hc, hcs⟩ before d behind heq
  cases before with
  | nil =>
      cases heq
      exact hc
  | cons x before =>
      rw [List.cons_append, List.cons.injEq] at heq
      exact hcs before d behind heq.2

instance decidableFeedsOnly : (t : Text) → Decidable (FeedsOnly t)
  | [] => isTrue feedsOnly_nil
  | _ :: cs =>
    have := decidableFeedsOnly cs
    decidable_of_iff _ feedsOnly_cons.symm

/-- Cutting at any end of a line is cutting at line feeds. -/
theorem lines_eq_feedLines {t : Text} (h : FeedsOnly t) : lines t = feedLines t := by
  fun_induction lines t with
  | case1 => rfl
  | case2 cs ih =>
      have hcs : FeedsOnly cs := h.behind (t := ['\r', '\n'])
      simp [feedLines, consLine, ih hcs]
  | case3 c cs hnot hend ih =>
      -- a carriage return would stand in front of a line feed
      have hfeed : c = '\n' := by
        rcases h [] c cs rfl hend with hfeed | ⟨rfl, hnext⟩
        · exact hfeed
        · obtain ⟨cs', rfl⟩ := List.head?_eq_some_iff.1 hnext
          exact absurd rfl (hnot cs' rfl)
      rw [feedLines, if_pos hfeed, ih (h.behind (t := [c]))]
  | case4 c cs hnot hend ih =>
      have hne : c ≠ '\n' := by
        rintro rfl
        exact hend rfl
      rw [feedLines, if_neg hne, ih (h.behind (t := [c]))]

def terminated (ls : List Text) : Text := ls.flatMap (· ++ ['\n'])

/-- Lines that are terminated have a line feed each. -/
theorem count_terminated {ls : List Text} (h : ∀ l ∈ ls, '\n' ∉ l) :
    (terminated ls).count '\n' = ls.length := by
  induction ls with
  | nil => rfl
  | cons l ls ih =>
      rw [List.forall_mem_cons] at h
      rw [terminated, List.flatMap_cons, ← terminated, List.count_append, List.count_append, ih h.2,
        List.count_eq_zero.2 h.1]
      simp [Nat.add_comm]

/-- Every text consists of lines that are ended, and of one that is not ended, which may be empty. -/
theorem exists_terminated (t : Text) :
    ∃ ls line, t = terminated ls ++ line ∧ (∀ l ∈ ls, '\n' ∉ l) ∧ '\n' ∉ line := by
  induction t using List.reverseRecOn with
  | nil => exact ⟨[], [], rfl, by simp, by simp⟩
  | append_singleton t c ih =>
      obtain ⟨ls, line, rfl, hls, hline⟩ := ih
      by_cases hc : c = '\n'
      · subst hc
        refine ⟨ls ++ [line], [], by simp [terminated], fun l hl => ?_, by simp⟩
        rcases List.mem_append.1 hl with hl | hl
        · exact hls l hl
        · rwa [List.mem_singleton.1 hl]
      · exact ⟨ls, line ++ [c], by simp, hls, by simp [hline, Ne.symm hc]⟩

/-- A line ends at its line feed. -/
theorem feedLines_append_feed {line : Text} (h : '\n' ∉ line) (rest : Text) :
    feedLines (line ++ '\n' :: rest) = (line ++ ['\n']) :: feedLines rest := by
  induction line with
  | nil => simp [feedLines]
  | cons c cs ih =>
      rw [List.mem_cons, not_or] at h
      rw [List.cons_append, feedLines, if_neg (Ne.symm h.1), ih h.2]
      rfl

/-- A text without a line feed is one line. -/
theorem feedLines_of_notMem {line : Text} (h : '\n' ∉ line) (hline : line ≠ []) :
    feedLines line = [line] := by
  induction line with
  | nil => exact absurd rfl hline
  | cons c cs ih =>
      rw [List.mem_cons, not_or] at h
      rw [feedLines, if_neg (Ne.symm h.1)]
      cases cs with
      | nil => rfl
      | cons d ds => rw [ih h.2 (List.cons_ne_nil d ds), consLine]

/-- The lines of a text are those in front of it and its own. -/
theorem feedLines_terminated {ls : List Text} (h : ∀ l ∈ ls, '\n' ∉ l) (rest : Text) :
    feedLines (terminated ls ++ rest) = ls.map (· ++ ['\n']) ++ feedLines rest := by
  induction ls with
  | nil => rfl
  | cons l ls ih =>
      rw [List.forall_mem_cons] at h
      have hsplit : terminated (l :: ls) ++ rest = l ++ '\n' :: (terminated ls ++ rest) := by
        simp [terminated]
      rw [hsplit, feedLines_append_feed h.1, ih h.2]
      rfl

end Text

namespace Markup

open Text

/-! ## The line of a place -/

/-- How a line may end: with the text, or with a line feed, which may have a carriage return in front. -/
def Ending (ending below : Text) : Prop :=
  (ending = [] ∧ below = []) ∨ ending = ['\n'] ∨ ending = ['\r', '\n']

/-- Behind any place a line goes on to its end. -/
theorem exists_ending {t : Text} (h : FeedsOnly t) :
    ∃ right ending below, t = right ++ ending ++ below ∧ Ending ending below ∧
      ∀ c ∈ right, isLineEnd c = false := by
  induction t with
  | nil => exact ⟨[], [], [], rfl, .inl ⟨rfl, rfl⟩, by simp⟩
  | cons c cs ih =>
      by_cases hend : isLineEnd c = true
      · rcases h [] c cs rfl hend with rfl | ⟨rfl, hnext⟩
        · exact ⟨[], ['\n'], cs, rfl, .inr (.inl rfl), by simp⟩
        · obtain ⟨cs', rfl⟩ := List.head?_eq_some_iff.1 hnext
          exact ⟨[], ['\r', '\n'], cs', rfl, .inr (.inr rfl), by simp⟩
      · obtain ⟨right, ending, below, rfl, hending, hright⟩ := ih (h.behind (t := [c]))
        refine ⟨c :: right, ending, below, rfl, hending, ?_⟩
        rw [List.forall_mem_cons]
        exact ⟨by simpa using hend, hright⟩

/-- Nothing is dropped from the end of a text without the letter. -/
theorem dropEnd_of_notMem {c : Char} {t : Text} (h : c ∉ t) : dropEnd c t = t := by
  have hdrop : t.reverse.dropWhile (· = c) = t.reverse := by
    cases hlast : t.reverse with
    | nil => rfl
    | cons x xs =>
        have hx : x ≠ c := by
          rintro rfl
          exact h (List.mem_reverse.1 (hlast ▸ List.mem_cons_self))
        exact List.dropWhile_cons_of_neg (by simpa using hx)
  rw [dropEnd, hdrop, List.reverse_reverse]

theorem dropEnd_concat (c : Char) (t : Text) : dropEnd c (t ++ [c]) = dropEnd c t := by
  simp [dropEnd]

/-- The line below some others, which is not empty, is the one with the next number. -/
theorem lineAt_terminated {above : List Text} {line ending below : Text}
    (h : FeedsOnly (terminated above ++ (line ++ ending ++ below))) (habove : ∀ l ∈ above, '\n' ∉ l)
    (hfeed : '\n' ∉ line) (hreturn : '\r' ∉ line) (hline : line ≠ []) (hending : Ending ending below) :
    lineAt (terminated above ++ (line ++ ending ++ below)) (above.length + 1) = line := by
  have hget : (lines (terminated above ++ (line ++ ending ++ below))).getD above.length [] =
      (feedLines (line ++ ending ++ below)).headD [] := by
    rw [lines_eq_feedLines h, feedLines_terminated habove, List.getD_append_right _ _ _ _ (by simp)]
    rw [List.length_map, Nat.sub_self]
    cases feedLines (line ++ ending ++ below) <;> rfl
  rw [lineAt, if_neg (Nat.succ_ne_zero _), Nat.add_sub_cancel, hget]
  rcases hending with ⟨rfl, rfl⟩ | rfl | rfl
  · rw [List.append_nil, List.append_nil, feedLines_of_notMem hfeed hline, List.headD_cons,
      dropEnd_of_notMem hfeed, dropEnd_of_notMem hreturn]
  · rw [List.append_assoc, List.singleton_append, feedLines_append_feed hfeed, List.headD_cons,
      dropEnd_concat, dropEnd_of_notMem hfeed, dropEnd_of_notMem hreturn]
  · have hsplit : line ++ ['\r', '\n'] ++ below = (line ++ ['\r']) ++ '\n' :: below := by simp
    have hfeed' : '\n' ∉ line ++ ['\r'] := by simp [hfeed]
    rw [hsplit, feedLines_append_feed hfeed', List.headD_cons, dropEnd_concat,
      dropEnd_of_notMem hfeed', dropEnd_concat, dropEnd_of_notMem hreturn]

/-- The place in a line below others. -/
theorem after_terminated {above : List Text} {left : Text} (habove : ∀ l ∈ above, '\n' ∉ l)
    (hleft : '\n' ∉ left) :
    Position.start.after (terminated above ++ left) =
      ⟨above.length + 1, left.length + 1, (terminated above ++ left).length⟩ := by
  have hcount : (terminated above ++ left).count '\n' = above.length := by
    rw [List.count_append, count_terminated habove, List.count_eq_zero.2 hleft, Nat.add_zero]
  have hline : (terminated above ++ left).reverse.takeWhile (· ≠ '\n') = left.reverse := by
    have hall : ∀ c ∈ left.reverse, decide (c ≠ '\n') = true := by
      intro c hc
      exact decide_eq_true fun heq => hleft (heq ▸ List.mem_reverse.1 hc)
    rw [List.reverse_append, List.takeWhile_append_of_pos hall]
    rcases List.eq_nil_or_concat above with rfl | ⟨ls, l, rfl⟩
    · simp [terminated]
    · simp [terminated]
  rw [start_after_eq, hcount, hline, List.length_reverse]

/-! ## Faults -/

def Fault.Cause.delimiter : Fault.Cause → Delimiter
  | .unclosed kind => kind.opener
  | .unmatched closer => closer

/-- A fault covers its delimiter. -/
theorem exists_of_fault {inlineMath : Bool} {source : Text} {f : Fault}
    (h : parseStrict inlineMath source = .error f) :
    ∃ before behind, source = before ++ f.cause.delimiter.source ++ behind ∧
      f.span = ⟨Position.start.after before,
        (Position.start.after before).after f.cause.delimiter.source⟩ := by
  have htoken : ∃ tok ∈ tokens inlineMath source,
      tok.lexeme = .delimiter f.cause.delimiter ∧ f.span = tok.span := by
    -- a fault is told at a token: at a closer, or at the opener that is left
    rcases (parseStrict_agrees inlineMath source).2.2 f h with
      ⟨before, tok, behind, kind, hsplit, -, hkind, rfl, -⟩ | ⟨-, o, outer, hopen, rfl, -⟩
    · exact ⟨tok, by rw [hsplit]; simp, hkind.1, rfl⟩
    · exact ⟨_, opener_mem_of_mem_openAfter (hopen ▸ List.mem_cons_self ..), rfl, rfl⟩
  obtain ⟨tok, hmem, hlexeme, hspan⟩ := htoken
  obtain ⟨front, back, hsplit⟩ := List.append_of_mem hmem
  obtain ⟨hlexemes, hstretch⟩ := of_place_eq hsplit
  have hsource : (lexemes inlineMath .ordinary source ++ [Lexeme.finish]).flatMap Lexeme.source =
      source := by
    simp [flatMap_source_lexemes, Lexeme.source]
  rw [hlexemes, List.flatMap_append, List.flatMap_cons, hlexeme] at hsource
  refine ⟨(front.map Token.lexeme).flatMap Lexeme.source, (back.map Token.lexeme).flatMap Lexeme.source,
    ?_, ?_⟩
  · rw [List.append_assoc]
    exact hsource.symm
  · rw [hspan, hstretch, hlexeme, Lexeme.source]

theorem Delimiter.isLineEnd_source (d : Delimiter) : ∀ c ∈ d.source, isLineEnd c = false := by
  have hnone : d.source.all (fun c => !isLineEnd c) = true := by
    cases d <;> rfl
  simpa using hnone

theorem Delimiter.length_source (d : Delimiter) : d.source.length = 2 := by
  cases d <;> rfl

/-- A stretch in a line is underlined as far as it reaches. -/
theorem underlineLength_after {p : Position} {t line : Text} (ht : '\n' ∉ t) (hne : t ≠ []) :
    underlineLength ⟨p, p.after t⟩ line = t.length := by
  have hafter : p.after t = ⟨p.line, p.column + t.length, p.offset + t.length⟩ := by
    clear hne
    induction t generalizing p with
    | nil => rfl
    | cons c cs ih =>
        rw [List.mem_cons, not_or] at ht
        have hnext : p.after (c :: cs) = (p.next c).after cs := rfl
        rw [hnext, ih ht.2, Position.next, if_neg (Ne.symm ht.1)]
        simp only [List.length_cons, Position.mk.injEq, true_and]
        omega
  have hpos := List.length_pos_of_ne_nil hne
  simp only [underlineLength, hafter, if_true]
  omega

/-! ## Reports -/

/-- The room that the number of a line takes where it is not shown. -/
def gutter (n : Nat) : Text := List.replicate ((Text.ofNat n).length + 1) ' '

def numberMargin (n : Nat) : Text := Text.ofNat n ++ [' ', '|', ' ']

def blankMargin (n : Nat) : Text := gutter n ++ ['|', ' ']

theorem length_blankMargin (n : Nat) : (blankMargin n).length = (numberMargin n).length := by
  simp [blankMargin, gutter, numberMargin]

/-- The report with the excerpt, part by part. -/
theorem excerpt_eq {fileName message source line : Text} {span : Span} {n k w : Nat}
    (hnumber : span.start.line = n) (hcolumn : span.start.column = k + 1)
    (hshown : lineAt source n = line) (hunderline : underlineLength span line = w) :
    excerpt fileName message span source =
      "error: ".toList ++ message ++ ['\n'] ++
        gutter n ++ "--> ".toList ++ fileName ++ [':'] ++ Text.ofNat n ++ [':'] ++
          Text.ofNat (k + 1) ++ ['\n'] ++
        gutter n ++ ['|', '\n'] ++
        numberMargin n ++ line ++ ['\n'] ++
        blankMargin n ++ List.replicate k ' ' ++ List.replicate w '^' := by
  subst hnumber hshown hunderline
  unfold excerpt
  -- the words do not matter, and comparing them takes long
  generalize "error: ".toList = opening
  generalize "--> ".toList = arrow
  simp only [hcolumn, Nat.add_sub_cancel, gutter, numberMargin, blankMargin, List.append_assoc]

/-- In a text whose lines end in line feeds, the report of a fault names the line and the column of the
delimiter that the fault is about, shows the line without its end, and below it has a caret under each
character of the delimiter and nothing but blanks under what stands in front of it. -/
theorem carets_under_delimiter {inlineMath : Bool} {source : Text} {f : Fault} (fileName : Text)
    (hfeeds : FeedsOnly source) (hparse : parseStrict inlineMath source = .error f) :
    ∃ above left right ending below n,
      source = terminated above ++ (left ++ f.cause.delimiter.source ++ right ++ ending ++ below) ∧
      f.span.start.offset = (terminated above ++ left).length ∧ n = above.length + 1 ∧
      (∀ l ∈ above, '\n' ∉ l) ∧ (∀ c ∈ left ++ right, isLineEnd c = false) ∧ Ending ending below ∧
      (blankMargin n).length = (numberMargin n).length ∧
      f.report fileName source =
        "error: ".toList ++ f.cause.message ++ ['\n'] ++
          gutter n ++ "--> ".toList ++ fileName ++ [':'] ++ Text.ofNat n ++ [':'] ++
            Text.ofNat (left.length + 1) ++ ['\n'] ++
          gutter n ++ ['|', '\n'] ++
          numberMargin n ++ (left ++ f.cause.delimiter.source ++ right) ++ ['\n'] ++
          blankMargin n ++ List.replicate left.length ' ' ++ List.replicate 2 '^' := by
  obtain ⟨before, behind, hsource, hspan⟩ := exists_of_fault hparse
  obtain ⟨above, left, rfl, habove, hfeed⟩ := exists_terminated before
  obtain ⟨right, ending, below, rfl, hending, hright⟩ := exists_ending (hsource ▸ hfeeds).behind
  generalize f.cause.delimiter = d at hsource hspan ⊢
  have hsplit : source = terminated above ++ (left ++ d.source ++ right ++ ending ++ below) := by
    simp [hsource]
  have hdelimiter := d.isLineEnd_source
  -- in front of the delimiter a carriage return would have to be followed by a line feed
  have hleft : ∀ c ∈ left, isLineEnd c = false := by
    intro c hc
    by_contra hend
    rw [Bool.not_eq_false] at hend
    obtain ⟨u, v, rfl⟩ := List.append_of_mem hc
    have hwhole : source = (terminated above ++ u) ++ c :: (v ++ d.source ++ right ++ ending ++ below) := by
      simp [hsource]
    rcases hfeeds _ c _ hwhole hend with rfl | ⟨-, hnext⟩
    · exact hfeed hc
    · cases v with
      | nil =>
          cases hcases : d.source with
          | nil => simpa [hcases] using d.length_source
          | cons x xs =>
              have hx : x = '\n' := by simpa [hcases] using hnext
              have hxend := hdelimiter x (by simp [hcases])
              rw [hx] at hxend
              cases hxend
      | cons x v =>
          have hx : x = '\n' := by simpa using hnext
          exact hfeed (by simp [hx])
  have hline : ∀ c ∈ left ++ d.source ++ right, isLineEnd c = false := by
    intro c hc
    rw [List.mem_append, List.mem_append] at hc
    rcases hc with (hc | hc) | hc
    · exact hleft c hc
    · exact hdelimiter c hc
    · exact hright c hc
  have hshown : lineAt source (above.length + 1) = left ++ d.source ++ right := by
    rw [hsplit]
    refine lineAt_terminated (hsplit ▸ hfeeds) habove (fun h => ?_) (fun h => ?_) (fun h => ?_) hending
    · cases hline _ h
    · cases hline _ h
    · have hlength := congrArg List.length h
      rw [List.length_append, List.length_append, d.length_source] at hlength
      simp at hlength
  have hstart := after_terminated habove hfeed
  have hunderline : underlineLength f.span (left ++ d.source ++ right) = 2 := by
    rw [hspan, underlineLength_after, d.length_source]
    · exact fun h => by cases hdelimiter _ h
    · exact fun h => by simpa [h] using d.length_source
  have hnumber : f.span.start.line = above.length + 1 := by rw [hspan, hstart]
  have hcolumn : f.span.start.column = left.length + 1 := by rw [hspan, hstart]
  have hoffset : f.span.start.offset = (terminated above ++ left).length := by rw [hspan, hstart]
  have hinline : ∀ c ∈ left ++ right, isLineEnd c = false := by
    intro c hc
    exact (List.mem_append.1 hc).elim (hleft c) (hright c)
  refine ⟨above, left, right, ending, below, above.length + 1, hsplit, hoffset, rfl, habove, hinline,
    hending, length_blankMargin _, excerpt_eq hnumber hcolumn hshown hunderline⟩

/-- A delimiter that nothing accepts, in the third line of a text with both kinds of line ends. -/
theorem carets_under_delimiter_third :
    let source := "roll\r\n\nok [[1d6]] ]] bad\r\n[[".toList
    ∃ f, FeedsOnly source ∧ parseStrict false source = .error f ∧
      ∃ above left right ending below n,
        source = terminated above ++ (left ++ f.cause.delimiter.source ++ right ++ ending ++ below) ∧
        f.span.start.offset = (terminated above ++ left).length ∧ n = above.length + 1 ∧
        (∀ l ∈ above, '\n' ∉ l) ∧ (∀ c ∈ left ++ right, isLineEnd c = false) ∧ Ending ending below ∧
        (blankMargin n).length = (numberMargin n).length ∧
        f.report messageName source =
          "error: ".toList ++ f.cause.message ++ ['\n'] ++
            gutter n ++ "--> ".toList ++ messageName ++ [':'] ++ Text.ofNat n ++ [':'] ++
              Text.ofNat (left.length + 1) ++ ['\n'] ++
            gutter n ++ ['|', '\n'] ++
            numberMargin n ++ (left ++ f.cause.delimiter.source ++ right) ++ ['\n'] ++
            blankMargin n ++ List.replicate left.length ' ' ++ List.replicate 2 '^' := by
  intro source
  have hfeeds : FeedsOnly source := by decide +kernel
  have hparse : parseStrict false source =
      .error ⟨.unmatched .rollClose, ⟨⟨3, 12, 18⟩, ⟨3, 14, 20⟩⟩⟩ := rfl
  exact ⟨_, hfeeds, hparse, carets_under_delimiter messageName hfeeds hparse⟩

/-- A form feed ends a line for the report but not for the place of a delimiter, so that the line in front
of the one with the delimiter is shown. -/
theorem caret_under_other_line :
    let source := "a\x0cb\n]]".toList
    ∃ f, parseStrict false source = .error f ∧ slice source f.span = f.cause.delimiter.source ∧
      source = terminated ["a\x0cb".toList] ++ f.cause.delimiter.source ∧
      f.report messageName source =
        "error: unmatched ']]'\n  --> <message>:2:1\n  |\n2 | b\n  | ^^".toList := by
  intro source
  exact ⟨⟨.unmatched .rollClose, ⟨⟨2, 1, 4⟩, ⟨2, 3, 6⟩⟩⟩, rfl, by decide +kernel, by decide +kernel,
    by decide +kernel⟩

end Markup

end TabletopChat
