import Mathlib.Data.List.Chain
import TabletopChat.Diagnostics.Check
import TabletopChat.Proofs.Markup.Strictness

/-!
# Proofs/Markup/Tiling — tokens cover a message

The tokens of a message follow each other without gap or overlap, text is never cut in two, and no
delimiter is overlooked: where text stands, none begins that would be read there. Places are counted on
from token to token, and are the same as those that are found by looking for line feeds.

- `Delimiter.IsActive` : the delimiters outside of inline math
- `InsideMath`         : between `<<` and `>>`
- `Begins`             : a text that begins with a delimiter
- `start_after_eq`     : a place from the line feeds before it
- `tokens_tile_source` : the tokens of a message
-/

namespace TabletopChat

namespace Markup

/-! ## Delimiters that are read -/

def Delimiter.IsActive (inlineMath : Bool) : Delimiter → Prop
  | .rollOpen | .rollClose => True
  | .mathOpen | .mathClose => inlineMath = true

/-- Whether the last `<<` among lexemes has no `>>` behind it. -/
def InsideMath (ls : List Lexeme) : Prop :=
  ∃ outer inner, ls = outer ++ .delimiter .mathOpen :: inner ∧ .delimiter .mathClose ∉ inner

def Begins (inlineMath : Bool) (m : Mode) (t : Text) : Prop :=
  ∃ c d cs k, t = c :: d :: cs ∧ Delimiter.ofPair? inlineMath m c d = some k

def modeAfter (m : Mode) (ls : List Lexeme) : Mode :=
  ls.foldl (fun m l => match l with | .delimiter d => m.after d | _ => m) m

/-- A delimiter that is active begins where its source does. -/
theorem begins_ordinary_of_active {inlineMath : Bool} {d : Delimiter} (h : d.IsActive inlineMath)
    {t : Text} (ht : d.source <+: t) : Begins inlineMath .ordinary t := by
  rcases ht with ⟨rest, rfl⟩
  cases d with
  | rollOpen => exact ⟨_, _, rest, .rollOpen, rfl, rfl⟩
  | rollClose => exact ⟨_, _, rest, .rollClose, rfl, rfl⟩
  | mathOpen => exact ⟨_, _, rest, .mathOpen, rfl, by simp [Delimiter.ofPair?, show _ = true from h]⟩
  | mathClose => exact ⟨_, _, rest, .mathClose, rfl, by simp [Delimiter.ofPair?, show _ = true from h]⟩

theorem begins_math_of_close (inlineMath : Bool) {t : Text} (ht : Delimiter.mathClose.source <+: t) :
    Begins inlineMath .math t := by
  rcases ht with ⟨rest, rfl⟩
  exact ⟨_, _, rest, .mathClose, rfl, rfl⟩

/-! ## Modes -/

theorem modeAfter_append (m : Mode) (ls ks : List Lexeme) :
    modeAfter m (ls ++ ks) = modeAfter (modeAfter m ls) ks := List.foldl_append

theorem modeAfter_delimiter (m : Mode) (d : Delimiter) (ls : List Lexeme) :
    modeAfter m (.delimiter d :: ls) = modeAfter (m.after d) ls := rfl

theorem modeAfter_text (m : Mode) (t : Text) (ls : List Lexeme) :
    modeAfter m (.text t :: ls) = modeAfter m ls := rfl

/-- Inline math goes on until a closing delimiter. -/
theorem insideMath_concat (ls : List Lexeme) (l : Lexeme) :
    InsideMath (ls ++ [l]) ↔
      l = .delimiter .mathOpen ∨ (l ≠ .delimiter .mathClose ∧ InsideMath ls) := by
  constructor
  · rintro ⟨outer, inner, h, hinner⟩
    rcases List.eq_nil_or_concat inner with rfl | ⟨inner, k, rfl⟩
    · exact .inl (List.append_inj' h rfl |>.2 |> List.head_eq_of_cons_eq)
    · have hends : ls = outer ++ .delimiter .mathOpen :: inner ∧ [l] = [k] :=
        List.append_inj' (by simpa using h) rfl
      rcases hends with ⟨hls, hlast⟩
      cases hlast
      exact .inr ⟨fun hl => hinner (by simp [hl]), outer, inner, hls, fun hmem => hinner (by simp [hmem])⟩
  · rintro (rfl | ⟨hl, outer, inner, rfl, hinner⟩)
    · exact ⟨ls, [], rfl, List.not_mem_nil⟩
    · exact ⟨outer, inner ++ [l], by simp, by simp [hinner, hl.symm]⟩

/-- The mode is that of inline math exactly behind a `<<` without a `>>`. -/
theorem modeAfter_eq_math_iff (ls : List Lexeme) :
    modeAfter .ordinary ls = .math ↔ InsideMath ls := by
  induction ls using List.reverseRecOn with
  | nil => exact ⟨nofun, fun ⟨outer, inner, h, _⟩ => by simp at h⟩
  | append_singleton ls l ih =>
      rw [modeAfter_append, insideMath_concat, ← ih]
      cases l with
      | delimiter d => cases d <;> simp [modeAfter, Mode.after]
      | text t => simp [modeAfter]
      | finish => simp [modeAfter]

/-! ## Runs of text -/

/-- A letter either goes on with a text or begins one. -/
theorem consChar_cases (c : Char) (ls : List Lexeme) :
    (∃ t ks, ls = .text t :: ks ∧ consChar c ls = .text (c :: t) :: ks) ∨
      ((∀ t ks, ls ≠ .text t :: ks) ∧ consChar c ls = .text [c] :: ls) := by
  unfold consChar
  split
  · exact .inl ⟨_, _, rfl, rfl⟩
  · rename_i hne
    exact .inr ⟨hne, rfl⟩

def Lexeme.IsText (l : Lexeme) : Prop := ∃ t, l = .text t

/-- No run of text is empty, none follows another, and the message does not end before its end. -/
structure Compact (ls : List Lexeme) : Prop where
  nonempty : .text [] ∉ ls
  unfinished : .finish ∉ ls
  apart : ls.IsChain fun l k => ¬(l.IsText ∧ k.IsText)

/-- A character in front joins the text behind it. -/
theorem Compact.consChar (c : Char) {ls : List Lexeme} (h : Compact ls) : Compact (consChar c ls) := by
  rcases consChar_cases c ls with ⟨t, ks, rfl, heq⟩ | ⟨hne, heq⟩
  · rw [heq]
    refine ⟨by simpa using fun hmem => h.nonempty (List.mem_cons_of_mem _ hmem),
      by simpa using h.unfinished, ?_⟩
    -- what follows the longer text followed the shorter one
    have hapart := List.isChain_cons.1 h.apart
    exact hapart.2.cons fun k hk hboth => hapart.1 k hk ⟨⟨t, rfl⟩, hboth.2⟩
  · rw [heq]
    refine ⟨by simpa using h.nonempty, by simpa using h.unfinished, h.apart.cons ?_⟩
    rintro l hl ⟨-, t, rfl⟩
    rcases List.head?_eq_some_iff.1 hl with ⟨ks, rfl⟩
    exact hne t ks rfl

/-- No two texts are next to each other. -/
theorem compact_lexemes (inlineMath : Bool) (m : Mode) (t : Text) : Compact (lexemes inlineMath m t) := by
  fun_induction lexemes inlineMath m t with
  | case1 => exact ⟨List.not_mem_nil, List.not_mem_nil, .nil⟩
  | case2 m c => exact ⟨by simp, by simp, .singleton _⟩
  | case3 m c d cs k hk ih =>
      refine ⟨by simpa using ih.nonempty, by simpa using ih.unfinished, ih.apart.cons ?_⟩
      rintro l - ⟨⟨t, ht⟩, -⟩
      cases ht
  | case4 m c d cs hk ih => exact ih.consChar c

theorem not_begins_of_ofPair? {inlineMath : Bool} {m : Mode} {c d : Char}
    (hk : Delimiter.ofPair? inlineMath m c d = none) (cs : Text) : ¬Begins inlineMath m (c :: d :: cs) := by
  rintro ⟨x, y, zs, k, heq, hpair⟩
  cases heq
  rw [hk] at hpair
  cases hpair

/-- A run of text behind a character that comes first: the character begins it, by itself or in front of what was a
run before, or the run stands further on and was there before. -/
theorem text_of_consChar {c : Char} {u : Text} {ls before behind : List Lexeme}
    (h : consChar c ls = before ++ .text u :: behind) :
    (before = [] ∧ (u = [c] ∨ ∃ t, u = c :: t ∧ ls = .text t :: behind)) ∨
      ∃ before', ls = before' ++ .text u :: behind ∧ ∀ m, modeAfter m before' = modeAfter m before := by
  obtain ⟨t, ks, rfl, heq⟩ | ⟨-, heq⟩ := consChar_cases c ls
  · rw [heq] at h
    cases before with
    | nil =>
        cases h
        exact .inl ⟨rfl, .inr ⟨t, rfl, rfl⟩⟩
    | cons l before =>
        obtain ⟨rfl, rfl⟩ := List.cons.inj h
        refine .inr ⟨.text t :: before, rfl, fun m => ?_⟩
        rw [modeAfter_text, modeAfter_text]
  · rw [heq] at h
    cases before with
    | nil =>
        cases h
        exact .inl ⟨rfl, .inl rfl⟩
    | cons l before =>
        obtain ⟨rfl, rfl⟩ := List.cons.inj h
        exact .inr ⟨before, rfl, fun m => (modeAfter_text m [c] before).symm⟩

/-- Where text stands, no delimiter begins that would be read there; neither at its first characters nor
at its last one, together with what follows. -/
theorem not_begins_of_lexemes {inlineMath : Bool} {m : Mode} {t : Text} {before behind : List Lexeme}
    {u v w : Text} (h : lexemes inlineMath m t = before ++ .text u :: behind) (hu : u = v ++ w)
    (hw : w ≠ []) :
    ¬Begins inlineMath (modeAfter m before) (w ++ behind.flatMap Lexeme.source) := by
  induction m, t using lexemes.induct inlineMath generalizing before u v with
  | case1 =>
      simp [lexemes] at h
  | case2 m c =>
      rw [lexemes, List.singleton_eq_append_iff] at h
      rcases h with ⟨rfl, hlast⟩ | ⟨-, hlast⟩
      · cases hlast
        -- one character is no delimiter
        rintro ⟨x, y, cs, k, heq, -⟩
        have hlength := congrArg List.length hu
        have hboth := congrArg List.length heq
        simp at hlength hboth
        omega
      · cases hlast
  | case3 m c d cs k hk ih =>
      simp only [lexemes, hk] at h
      cases before with
      | nil => cases h
      | cons l before =>
          simp only [List.cons_append, List.cons.injEq] at h
          rcases h with ⟨rfl, h⟩
          rw [modeAfter_delimiter]
          exact ih h hu
  | case4 m c d cs hk ih =>
      have hsource := flatMap_source_lexemes inlineMath m (c :: d :: cs)
      rw [h] at hsource
      simp only [lexemes, hk] at h
      obtain ⟨rfl, hrun⟩ | ⟨before', hls, hmode⟩ := text_of_consChar h
      · cases v with
        | nil =>
            -- the run begins where the text does
            have hwhole : w ++ behind.flatMap Lexeme.source = c :: d :: cs := by
              simpa [Lexeme.source, hu] using hsource
            rw [hwhole]
            exact not_begins_of_ofPair? hk cs
        | cons x v =>
            obtain rfl | ⟨t', rfl, hls⟩ := hrun
            · exact absurd (List.append_eq_nil_iff.1 (List.cons.inj hu).2.symm).2 hw
            · exact ih (List.nil_append _ ▸ hls) (List.cons.inj hu).2
      · rw [← hmode m]
        exact ih hls hu

/-! ## Places -/

/-- A place is found from the line feeds before it: their number, and what stands behind the last. -/
theorem start_after_eq (t : Text) :
    Position.start.after t =
      ⟨t.count '\n' + 1, (t.reverse.takeWhile (· ≠ '\n')).length + 1, t.length⟩ := by
  induction t using List.reverseRecOn with
  | nil => rfl
  | append_singleton t c ih =>
      rw [Position.after_append, ih]
      by_cases hc : c = '\n' <;> simp [Position.after, Position.next, hc]

/-- Counting on from the beginning leads to the same place as looking for line feeds. -/
theorem start_after_eq_placeAt (before behind : Text) :
    Position.start.after before = Diagnostics.placeAt (before ++ behind) before.length := by
  have hlength := congrArg List.length
    (List.takeWhile_append_dropWhile (p := fun c => decide (c ≠ '\n')) (l := before.reverse))
  rw [List.length_append, List.length_reverse] at hlength
  have hcolumn : before.length - (before.reverse.dropWhile (· ≠ '\n')).length =
      (before.reverse.takeWhile (· ≠ '\n')).length := by
    omega
  rw [start_after_eq, Diagnostics.placeAt, Diagnostics.lineStart, List.take_left, hcolumn]

/-- A place in a message is where the message is cut. -/
structure Position.In (source : Text) (p : Position) : Prop where
  /-- lines end at line feeds -/
  line : p.line = (source.take p.offset).count '\n' + 1
  /-- columns are counted from the last line feed -/
  column : p.column = ((source.take p.offset).reverse.takeWhile (· ≠ '\n')).length + 1
  /-- the place is the one that is shown for its offset -/
  shown : p = Diagnostics.placeAt source p.offset

/-- The end of the front of a text is a place in it. -/
theorem in_of_append (before behind : Text) :
    (Position.start.after before).In (before ++ behind) := by
  have hoffset : (Position.start.after before).offset = before.length := by
    rw [start_after_eq]
  refine ⟨?_, ?_, by rw [hoffset, ← start_after_eq_placeAt]⟩
  · rw [hoffset, List.take_left, start_after_eq]
  · rw [hoffset, List.take_left, start_after_eq]

/-! ## Tokens -/

theorem place_append (p : Position) (ls ks : List Lexeme) :
    place p (ls ++ ks) = place p ls ++ place (p.after (ls.flatMap Lexeme.source)) ks := by
  induction ls generalizing p with
  | nil => rfl
  | cons l ls ih => simp [place, ih, Position.after_append]

theorem map_lexeme_place (p : Position) (ls : List Lexeme) : (place p ls).map Token.lexeme = ls := by
  induction ls generalizing p with
  | nil => rfl
  | cons l ls ih => simp [place, ih]

/-- Every token begins where the one before it ends. -/
theorem joined_place (p : Position) (ls : List Lexeme) :
    (place p ls).IsChain fun tok next => next.span.start = tok.span.finish := by
  induction ls generalizing p with
  | nil => exact .nil
  | cons l ls ih =>
      refine (ih _).cons ?_
      cases ls with
      | nil => exact nofun
      | cons k ls =>
          intro next hnext
          cases hnext
          rfl

/-- A token covers the stretch behind all lexemes before it. -/
theorem of_place_eq {p : Position} {ls : List Lexeme} {before behind : List Token} {tok : Token}
    (h : place p ls = before ++ tok :: behind) :
    let q := p.after ((before.map Token.lexeme).flatMap Lexeme.source)
    ls = before.map Token.lexeme ++ tok.lexeme :: behind.map Token.lexeme ∧
      tok.span = ⟨q, q.after tok.lexeme.source⟩ := by
  induction before generalizing p ls with
  | nil =>
      cases ls with
      | nil => cases h
      | cons l ls =>
          cases h
          simp [map_lexeme_place]
  | cons first before ih =>
      cases ls with
      | nil => cases h
      | cons l ls =>
          simp only [place, List.cons_append, List.cons.injEq] at h
          rcases h with ⟨rfl, h⟩
          rcases ih h with ⟨hls, hspan⟩
          exact ⟨by simp [hls], by simpa [Position.after_append] using hspan⟩

/-- The delimiters that are read behind some lexemes: only `>>` in inline math, and all that are active
outside. -/
def Delimiter.IsRead (inlineMath : Bool) (before : List Lexeme) (d : Delimiter) : Prop :=
  (InsideMath before ∧ d = .mathClose) ∨ (¬InsideMath before ∧ d.IsActive inlineMath)

/-- A delimiter that is read begins one in the mode behind the lexemes in front. -/
theorem begins_of_isRead {inlineMath : Bool} {before : List Lexeme} {d : Delimiter}
    (h : d.IsRead inlineMath before) {t : Text} (ht : d.source <+: t) :
    Begins inlineMath (modeAfter .ordinary before) t := by
  rcases h with ⟨hinside, rfl⟩ | ⟨houtside, hactive⟩
  · rw [(modeAfter_eq_math_iff before).2 hinside]
    exact begins_math_of_close inlineMath ht
  · rw [← modeAfter_eq_math_iff] at houtside
    have hmode : modeAfter .ordinary before = .ordinary := by
      cases hm : modeAfter .ordinary before with
      | ordinary => rfl
      | math => exact absurd hm houtside
    rw [hmode]
    exact begins_ordinary_of_active hactive ht

/-- Tokens that cover a message. -/
structure Tiles (inlineMath : Bool) (source : Text) (toks : List Token) : Prop where
  /-- the tokens, one after the other, are the message -/
  concatenated : (toks.flatMap fun tok => tok.lexeme.source) = source
  /-- the end of the message is the last token, and it is empty -/
  ends : ∃ ts p, toks = ts ++ [⟨.finish, ⟨p, p⟩⟩] ∧ p.offset = source.length ∧
    ∀ tok ∈ ts, tok.lexeme ≠ .finish
  /-- the first token begins where the message begins -/
  begins : ∀ tok ∈ toks.head?, tok.span.start = .start
  /-- every other token begins where the one before it ends -/
  joined : toks.IsChain fun tok next => next.span.start = tok.span.finish
  /-- every token stands for the stretch that it covers -/
  exact : ∀ tok ∈ toks, slice source tok.span = tok.lexeme.source
  /-- no text is empty -/
  nonempty : ∀ tok ∈ toks, tok.lexeme ≠ .text []
  /-- no text follows another -/
  apart : toks.IsChain fun tok next => ¬(tok.lexeme.IsText ∧ next.lexeme.IsText)
  /-- where text stands, no delimiter begins that would be read there -/
  complete : ∀ before tok behind, toks = before ++ tok :: behind → tok.lexeme.IsText →
    ∀ offset, tok.span.start.offset ≤ offset → offset < tok.span.finish.offset →
      ∀ d : Delimiter, d.IsRead inlineMath (before.map Token.lexeme) →
        ¬d.source <+: source.drop offset
  /-- tokens begin and end at places of the message -/
  placed : ∀ tok ∈ toks, tok.span.start.In source ∧ tok.span.finish.In source

/-- The lexemes around a token that is text. -/
theorem lexemes_of_tokens {inlineMath : Bool} {source t : Text} {before behind : List Token} {tok : Token}
    (h : tokens inlineMath source = before ++ tok :: behind) (ht : tok.lexeme = .text t) :
    ∃ ls, lexemes inlineMath .ordinary source = before.map Token.lexeme ++ .text t :: ls ∧
      source = (before.map Token.lexeme).flatMap Lexeme.source ++ (t ++ ls.flatMap Lexeme.source) := by
  have hsplit := (of_place_eq h).1
  rw [ht] at hsplit
  -- text is not the end of the message, so that something follows it
  rcases List.eq_nil_or_concat (behind.map Token.lexeme) with hnil | ⟨ls, l, hls⟩
  · rw [hnil] at hsplit
    cases List.append_inj' hsplit rfl |>.2
  · have hends : lexemes inlineMath .ordinary source ++ [.finish] =
        (before.map Token.lexeme ++ .text t :: ls) ++ [l] := by
      simpa [hls] using hsplit
    have hinit := (List.append_inj' hends rfl).1
    refine ⟨ls, hinit, ?_⟩
    calc
      source = (lexemes inlineMath .ordinary source).flatMap Lexeme.source :=
        (flatMap_source_lexemes inlineMath .ordinary source).symm
      _ = _ := by rw [hinit]; simp [Lexeme.source]

/-- The tokens of a message cover it from its beginning to its end, at the places where it is cut, and no
delimiter is overlooked between them. -/
theorem tokens_tile_source (inlineMath : Bool) (source : Text) :
    Tiles inlineMath source (tokens inlineMath source) := by
  have hlexemes : (tokens inlineMath source).map Token.lexeme =
      lexemes inlineMath .ordinary source ++ [.finish] := map_lexeme_place _ _
  have hcompact := compact_lexemes inlineMath .ordinary source
  have hconcatenated : ((tokens inlineMath source).flatMap fun tok => tok.lexeme.source) = source := by
    rw [← List.flatMap_map, hlexemes]
    simp [flatMap_source_lexemes, Lexeme.source]
  exact {
    concatenated := hconcatenated
    ends := by
      refine ⟨place .start (lexemes inlineMath .ordinary source), Position.start.after source, ?_, ?_, ?_⟩
      · simp [tokens, place_append, flatMap_source_lexemes, place, Lexeme.source]
      · rw [start_after_eq]
      · intro tok htok hfinish
        have hmem := List.mem_map_of_mem (f := Token.lexeme) htok
        rw [map_lexeme_place, hfinish] at hmem
        exact hcompact.unfinished hmem
    begins := by
      intro tok htok
      rcases List.head?_eq_some_iff.1 htok with ⟨behind, h⟩
      have hspan := (of_place_eq (List.nil_append (tok :: behind) ▸ h)).2
      rw [hspan]
      rfl
    joined := joined_place _ _
    exact := fun tok htok => slice_of_mem_tokens htok
    nonempty := by
      intro tok htok hempty
      have hmem := List.mem_map_of_mem (f := Token.lexeme) htok
      rw [hlexemes, hempty] at hmem
      exact hcompact.nonempty (by simpa using hmem)
    apart := by
      rw [← List.isChain_map (R := fun l k => ¬(l.IsText ∧ k.IsText)) Token.lexeme, hlexemes]
      refine hcompact.apart.append (.singleton _) ?_
      rintro l - k hk ⟨-, t, rfl⟩
      cases hk
    complete := by
      rintro before tok behind h ⟨t, ht⟩ offset hstart hfinish d hd hbegins
      rcases lexemes_of_tokens h ht with ⟨ls, hls, hsource⟩
      have hspan := (of_place_eq h).2
      simp only [hspan, ht, Position.offset_after, Lexeme.source, Position.start, Nat.zero_add]
        at hstart hfinish
      -- the text is cut where the delimiter would begin
      obtain ⟨i, rfl⟩ := Nat.exists_eq_add_of_le hstart
      have hdrop : source.drop (((before.map Token.lexeme).flatMap Lexeme.source).length + i) =
          t.drop i ++ ls.flatMap Lexeme.source := by
        conv_lhs => rw [hsource]
        rw [List.drop_length_add_append, List.drop_append_of_le_length (by omega)]
      rw [hdrop] at hbegins
      have hrest : t.drop i ≠ [] := List.drop_eq_nil_iff.not.2 (by omega)
      exact not_begins_of_lexemes hls (List.take_append_drop i t).symm hrest
        (begins_of_isRead hd hbegins)
    placed := by
      intro tok htok
      rcases List.append_of_mem htok with ⟨before, behind, h⟩
      have hwhole : source = (before.map Token.lexeme).flatMap Lexeme.source ++ (tok.lexeme.source ++
          (behind.map Token.lexeme).flatMap Lexeme.source) := by
        conv_lhs => rw [← hconcatenated, h]
        simp [List.flatMap_map]
      rw [(of_place_eq h).2, ← Position.after_append]
      constructor
      · conv => arg 1; rw [hwhole]
        exact in_of_append _ _
      · conv => arg 1; rw [hwhole, ← List.append_assoc]
        exact in_of_append _ _ }

end Markup

end TabletopChat
