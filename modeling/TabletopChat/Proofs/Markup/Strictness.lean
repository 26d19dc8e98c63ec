import Mathlib.Data.List.Induction
import TabletopChat.Proofs.Markup.Placement

/-!
# Proofs/Markup/Strictness — when the strict reading accepts a message

The strict reading accepts a message whose delimiters are balanced, and then reads what the lenient one
reads. Otherwise it points at the first closing delimiter that nothing accepts, or else at the innermost
roll that is still open at the end.

- `Opened`, `openAfter`  : the rolls that are open behind some tokens, told from the tokens alone
- `Unaccepted`, `Clean`  : closing delimiters that the innermost open roll does not accept
- `readAllStrict_spec`   : a strict reading, token by token
- `parseStrict_agrees`   : when it succeeds, with what, and what it reports otherwise
-/

namespace TabletopChat

namespace Markup

/-! ## Open rolls, told from the tokens -/

/-- A roll that is open: its kind, and where its opening delimiter stands. -/
structure Opened where
  kind : Kind
  opener : Span

/-- The open rolls, innermost first, behind one more token. A closing delimiter ends the innermost one
if it belongs to it, and otherwise none. -/
def Opened.after (os : List Opened) (tok : Token) : List Opened :=
  match tok.lexeme, os with
  | .delimiter .rollOpen, os => ⟨.roll, tok.span⟩ :: os
  | .delimiter .mathOpen, os => ⟨.math, tok.span⟩ :: os
  | .delimiter d, o :: rest => if o.kind.closer = d then rest else o :: rest
  | _, os => os

/-- The open rolls behind some tokens, innermost first. -/
def openAfter (toks : List Token) : List Opened := toks.foldl Opened.after []

/-- A token is the closing delimiter of a kind which the innermost open roll, or the top level, does not
accept. -/
def Unaccepted (os : List Opened) (kind : Kind) (tok : Token) : Prop :=
  tok.lexeme = .delimiter kind.closer ∧ ∀ o ∈ os.head?, o.kind ≠ kind

/-- No closing delimiter among some tokens stands where it is not accepted. -/
def Clean (toks : List Token) : Prop :=
  ∀ before tok behind kind, toks = before ++ tok :: behind → ¬ Unaccepted (openAfter before) kind tok

def Node.Closed : Node → Prop
  | .text _ _ => True
  | .roll _ closed _ _ => closed = true

theorem Opened.after_opener (os : List Opened) (kind : Kind) (span : Span) :
    Opened.after os ⟨.delimiter kind.opener, span⟩ = ⟨kind, span⟩ :: os := by
  cases kind <;> rfl

theorem Opened.after_closer (o : Opened) (os : List Opened) (kind : Kind) (span : Span) :
    Opened.after (o :: os) ⟨.delimiter kind.closer, span⟩ =
      if o.kind.closer = kind.closer then os else o :: os := by
  cases kind <;> rfl

/-- A closer opens no roll. -/
theorem Opened.mem_of_mem_after_closer {o : Opened} {os : List Opened} {kind : Kind} {span : Span}
    (h : o ∈ Opened.after os ⟨.delimiter kind.closer, span⟩) : o ∈ os := by
  cases os with
  | nil => cases kind <;> exact h
  | cons first os =>
      rw [after_closer] at h
      split at h
      · exact List.mem_cons_of_mem _ h
      · exact h

theorem openAfter_concat (toks : List Token) (tok : Token) :
    openAfter (toks ++ [tok]) = Opened.after (openAfter toks) tok := by
  simp [openAfter]

/-- Behind clean tokens, another one that is accepted leaves them clean. -/
theorem Clean.concat {toks : List Token} {tok : Token} (h : Clean toks)
    (htok : ∀ kind, ¬ Unaccepted (openAfter toks) kind tok) : Clean (toks ++ [tok]) := by
  intro before tok' behind kind hsplit
  rcases List.eq_nil_or_concat behind with rfl | ⟨behind', last, rfl⟩
  · -- the token is the last one
    rcases List.append_inj' hsplit rfl with ⟨rfl, hlast⟩
    cases hlast
    exact htok kind
  · have hinit : toks = before ++ tok' :: behind' := by
      have hsplit' : toks ++ [tok] = (before ++ tok' :: behind') ++ [last] := by simpa using hsplit
      exact (List.append_inj' hsplit' rfl).1
    exact h before tok' behind' kind hinit

/-! ## Nodes that are closed -/

def AllClosed (ns : List Node) : Prop := ∀ n, Occurs n ns → n.Closed

theorem allClosed_nil : AllClosed [] := fun n hn => absurd hn (not_occurs_nil n)

/-- A roll that is closed may be put around closed nodes. -/
theorem AllClosed.roll {ns children : List Node} (h : AllClosed ns) (hchildren : AllClosed children)
    (kind : Kind) (span : Span) : AllClosed (.roll kind true children span :: ns) := by
  intro n hn
  rw [occurs_cons, occurs_roll] at hn
  rcases hn with (rfl | hn) | hn
  · rfl
  · exact hchildren n hn
  · exact h n hn

theorem AllClosed.tail {n : Node} {ns : List Node} (h : AllClosed (n :: ns)) : AllClosed ns :=
  fun m hm => h m (occurs_cons.2 (.inr hm))

theorem AllClosed.reverse {ns : List Node} (h : AllClosed ns) : AllClosed ns.reverse :=
  fun m hm => h m (occurs_reverse.1 hm)

/-- Text in front leaves all rolls closed. -/
theorem AllClosed.text {ns : List Node} (h : AllClosed ns) (t : Text) (s : Span) :
    AllClosed (.text t s :: ns) := by
  intro n hn
  rw [occurs_cons, occurs_text] at hn
  rcases hn with rfl | hn
  · trivial
  · exact h n hn

theorem AllClosed.pushText {ns : List Node} (h : AllClosed ns) (t : Text) (s : Span) :
    AllClosed (pushText t s ns) := by
  unfold Markup.pushText
  split
  · exact h.tail.text _ _
  · exact h.text t s

structure Stack.Closed (s : Stack) : Prop where
  outer : AllClosed s.outer
  frames : ∀ fr ∈ s.frames, AllClosed fr.inner

namespace Stack

/-- Changing the innermost roll keeps the others closed. -/
theorem Closed.modify {s : Stack} {f : List Node → List Node} (h : s.Closed)
    (hf : ∀ ns, AllClosed ns → AllClosed (f ns)) : (s.modify f).Closed := by
  rcases s with ⟨outer, frames⟩
  cases frames with
  | nil =>
      exact ⟨hf outer h.outer, by simp [Stack.modify]⟩
  | cons fr frs =>
      refine ⟨h.outer, ?_⟩
      intro fr' hfr'
      rcases List.mem_cons.1 hfr' with rfl | hmem
      · exact hf fr.inner (h.frames fr (List.mem_cons_self ..))
      · exact h.frames fr' (List.mem_cons_of_mem _ hmem)

/-- Opening a roll leaves closed what is closed. -/
theorem Closed.push {s : Stack} (h : s.Closed) (kind : Kind) (opener : Span) :
    (s.push kind opener).Closed := by
  refine ⟨h.outer, ?_⟩
  intro fr hfr
  rcases List.mem_cons.1 hfr with rfl | hmem
  · exact allClosed_nil
  · exact h.frames fr hmem

/-- The innermost open roll ends with its closing delimiter. -/
theorem Closed.ends {outer : List Node} {fr : Frame} {frs : List Frame} (h : Closed ⟨outer, fr :: frs⟩)
    (p : Position) : (Stack.modify (fr.node true p :: ·) ⟨outer, frs⟩).Closed := by
  have hrest : Stack.Closed ⟨outer, frs⟩ := ⟨h.outer, fun fr' hmem => h.frames fr' (List.mem_cons_of_mem _ hmem)⟩
  exact hrest.modify fun ns hns => hns.roll (h.frames fr (List.mem_cons_self ..)).reverse _ _

/-- Even the lenient reading leaves no roll unclosed before the end. -/
theorem Closed.takes {s s' : Stack} {tok : Token} (h : s.Closed) (htakes : s.Takes tok s') : s'.Closed := by
  have htext (t : Text) (span : Span) : (s.modify (pushText t span)).Closed :=
    h.modify fun ns hns => hns.pushText t span
  cases htakes with
  | finish span => exact h
  | text t span => exact htext t span
  | opens kind span => exact h.push kind span
  | closes span hstack =>
      subst hstack
      exact h.ends _
  | unaccepted span _ => exact htext _ span

/-! ## The stack and the open rolls -/

def opened (s : Stack) : List Opened := s.frames.map fun fr => ⟨fr.kind, fr.opener⟩

@[simp] theorem opened_modify (s : Stack) (f : List Node → List Node) :
    (s.modify f).opened = s.opened := by
  rcases s with ⟨outer, frames⟩
  cases frames <;> rfl

/-- The innermost open roll is closed exactly if the delimiter is accepted. -/
theorem close?_eq_none_iff (s : Stack) (kind : Kind) (p : Position) :
    s.close? kind.closer p = none ↔ ∀ o ∈ s.opened.head?, o.kind ≠ kind := by
  rw [close?_eq_none_iff_frames]
  simp [opened]

/-- Which rolls are open follows from the token alone. -/
theorem opened_takes {s s' : Stack} {tok : Token} (h : s.Takes tok s') : s'.opened = Opened.after s.opened tok := by
  cases h with
  | finish span => rfl
  | text t span => simp [Opened.after]
  | opens kind span => rw [Opened.after_opener]; rfl
  | @closes outer fr frs span hstack =>
      subst hstack
      have hopened : opened ⟨outer, fr :: frs⟩ = ⟨fr.kind, fr.opener⟩ :: opened ⟨outer, frs⟩ := rfl
      rw [opened_modify, hopened, Opened.after_closer, if_pos rfl]
  | @unaccepted kind span hhead =>
      rw [opened_modify]
      rcases s with ⟨outer, - | ⟨fr, frs⟩⟩
      · cases kind <;> rfl
      · have hkind : fr.kind.closer ≠ kind.closer := Kind.closer_inj.not.2 (hhead fr rfl)
        have hopened : opened ⟨outer, fr :: frs⟩ = ⟨fr.kind, fr.opener⟩ :: opened ⟨outer, frs⟩ := rfl
        rw [hopened, Opened.after_closer, if_neg hkind]

theorem opened_read (s : Stack) (tok : Token) : (s.read tok).opened = Opened.after s.opened tok :=
  opened_takes (s.takes_read tok)

/-! ## The strict reading of one token -/

/-- A closing delimiter that is not accepted is reported. -/
theorem readStrict_of_unaccepted {s : Stack} {kind : Kind} {tok : Token}
    (h : Unaccepted s.opened kind tok) :
    s.readStrict tok = .error ⟨.unmatched kind.closer, tok.span⟩ := by
  rcases tok with ⟨lexeme, span⟩
  rcases h with ⟨hlexeme, hhead⟩
  subst hlexeme
  have hclose := (close?_eq_none_iff s kind span.finish).2 hhead
  cases kind <;> simp_all [Stack.readStrict, Kind.closer]

/-- Any other token is read as the lenient reading does. -/
theorem readStrict_of_accepted {s : Stack} {tok : Token}
    (h : ∀ kind, ¬ Unaccepted s.opened kind tok) : s.readStrict tok = .ok (s.read tok) := by
  rcases tok with ⟨lexeme, span⟩
  -- a closer that is accepted closes something
  have hcloser (kind : Kind) (hlexeme : lexeme = .delimiter kind.closer) :
      ∃ s', s.close? kind.closer span.finish = some s' := by
    rw [← Option.ne_none_iff_exists']
    intro hnone
    exact h kind ⟨hlexeme, (close?_eq_none_iff s kind span.finish).1 hnone⟩
  cases lexeme with
  | finish => rfl
  | text t => rfl
  | delimiter d =>
      cases d with
      | rollOpen => rfl
      | mathOpen => rfl
      | rollClose =>
          rcases hcloser .roll rfl with ⟨s', hs'⟩
          simp only [Kind.closer] at hs'
          simp [Stack.readStrict, Stack.read, hs']
      | mathClose =>
          rcases hcloser .math rfl with ⟨s', hs'⟩
          simp only [Kind.closer] at hs'
          simp [Stack.readStrict, Stack.read, hs']

/-! ## The strict reading of all tokens -/

/-- A stack that the strict reading reaches behind tokens in which it found no fault. -/
structure Reached (s : Stack) (toks : List Token) : Prop where
  lenient : s = toks.foldl Stack.read ⟨[], []⟩
  opened : s.opened = openAfter toks
  clean : Clean toks
  closed : s.Closed

theorem Reached.start : Reached ⟨[], []⟩ [] := by
  refine ⟨rfl, rfl, ?_, allClosed_nil, by simp⟩
  intro before tok behind kind hsplit
  simp at hsplit

/-- Each token that is accepted leads on among reached stacks. -/
theorem Reached.read {s : Stack} {toks : List Token} {tok : Token} (h : s.Reached toks)
    (htok : ∀ kind, ¬ Unaccepted s.opened kind tok) : (s.read tok).Reached (toks ++ [tok]) := by
  refine ⟨?_, ?_, ?_, h.closed.takes (s.takes_read tok)⟩
  · rw [List.foldl_append, ← h.lenient]
    rfl
  · rw [opened_read, h.opened, openAfter_concat]
  · exact h.clean.concat (by rwa [← h.opened])

/-- A strict reading that goes on behind tokens without fault either reaches the end without fault, or
reports the first closing delimiter that is not accepted. -/
theorem readAllStrict_spec {s : Stack} {done : List Token} (h : s.Reached done) (toks : List Token) :
    (∃ s', s.readAllStrict toks = .ok s' ∧ s'.Reached (done ++ toks)) ∨
      ∃ before tok behind kind, done ++ toks = before ++ tok :: behind ∧ Clean before ∧
        Unaccepted (openAfter before) kind tok ∧
        s.readAllStrict toks = .error ⟨.unmatched kind.closer, tok.span⟩ := by
  induction toks generalizing s done with
  | nil =>
      exact .inl ⟨s, rfl, by simpa using h⟩
  | cons tok toks ih =>
      by_cases htok : ∃ kind, Unaccepted s.opened kind tok
      · rcases htok with ⟨kind, hkind⟩
        refine .inr ⟨done, tok, toks, kind, rfl, h.clean, by rwa [← h.opened], ?_⟩
        simp [Stack.readAllStrict, readStrict_of_unaccepted hkind]
      · have hnone : ∀ kind, ¬ Unaccepted s.opened kind tok := not_exists.1 htok
        have hnext := ih (h.read hnone)
        have hstep : s.readAllStrict (tok :: toks) = (s.read tok).readAllStrict toks := by
          simp [Stack.readAllStrict, readStrict_of_accepted hnone]
        rw [hstep]
        simpa using hnext

end Stack

/-! ## Where tokens and open rolls stand -/

/-- Every token stands where its source puts it. -/
theorem slice_of_mem_tokens {inlineMath : Bool} {source : Text} {tok : Token}
    (h : tok ∈ tokens inlineMath source) : slice source tok.span = tok.lexeme.source := by
  have hplace : ∀ (ls : List Lexeme) (before : Text), tok ∈ place (Position.start.after before) ls →
      slice (before ++ ls.flatMap Lexeme.source) tok.span = tok.lexeme.source := by
    intro ls
    induction ls with
    | nil => intro before hmem; cases hmem
    | cons l ls ih =>
        intro before hmem
        rcases List.mem_cons.1 hmem with rfl | hmem
        · have hslice := slice_append before l.source (ls.flatMap Lexeme.source)
          simpa using hslice
        · have hrest := ih (before ++ l.source) (by simpa [Position.after_append] using hmem)
          simpa using hrest
  have hall := hplace (lexemes inlineMath .ordinary source ++ [.finish]) [] (by simpa [tokens] using h)
  simpa [flatMap_source_lexemes, Lexeme.source] using hall

/-- The opening delimiter of an open roll is one of the tokens. -/
theorem opener_mem_of_mem_openAfter {toks : List Token} {o : Opened} (h : o ∈ openAfter toks) :
    (⟨.delimiter o.kind.opener, o.opener⟩ : Token) ∈ toks := by
  induction toks using List.reverseRecOn with
  | nil => cases h
  | append_singleton toks tok ih =>
      rw [openAfter_concat] at h
      have hkeep (hmem : o ∈ openAfter toks) :
          (⟨.delimiter o.kind.opener, o.opener⟩ : Token) ∈ toks ++ [tok] :=
        List.mem_append_left _ (ih hmem)
      rcases tok with ⟨lexeme, span⟩
      unfold Opened.after at h
      split at h
      · rename_i hlexeme
        rcases List.mem_cons.1 h with rfl | hmem
        · simp_all [Kind.opener]
        · exact hkeep hmem
      · rename_i hlexeme
        rcases List.mem_cons.1 h with rfl | hmem
        · simp_all [Kind.opener]
        · exact hkeep hmem
      · rename_i hopened
        split at h
        · exact hkeep (hopened ▸ List.mem_cons_of_mem _ h)
        · exact hkeep (hopened ▸ h)
      · exact hkeep h

/-! ## Messages -/

/-- Behind a message that the strict reading accepts no roll is open, and what was read is its tree. -/
theorem reached_of_strict {inlineMath : Bool} {source : Text} {m : Message}
    (h : parseStrict inlineMath source = .ok m) :
    ∃ s, Stack.Reached s (tokens inlineMath source) ∧ s.frames = [] ∧
      m = ⟨s.outer.reverse, ⟨.start, Position.start.after source⟩⟩ := by
  have hrun := Stack.readAllStrict_spec Stack.Reached.start (tokens inlineMath source)
  rw [List.nil_append] at hrun
  rcases hrun with ⟨s, hread, hs⟩ | ⟨before, tok, behind, kind, -, -, -, hread⟩
  · cases hframes : s.frames with
    | nil =>
        simp only [parseStrict, hread, hframes, Except.ok.injEq] at h
        exact ⟨s, hs, hframes, h.symm⟩
    | cons fr frs => simp [parseStrict, hread, hframes] at h
  · simp [parseStrict, hread] at h

/-- What the strict reading reads is what the lenient reading reads. -/
theorem eq_parse_of_strict {inlineMath : Bool} {source : Text} {m : Message}
    (h : parseStrict inlineMath source = .ok m) : m = parse inlineMath source := by
  rcases reached_of_strict h with ⟨s, hs, hframes, rfl⟩
  simp [parse, parseTokens, ← hs.lenient, hframes, finishFrames]

/-- The strict reading of a message succeeds exactly if no closing delimiter stands where it is not
accepted and no roll is open at the end. It then reads what the lenient reading reads, and every roll
is closed. Otherwise it reports the first closing delimiter that is not accepted; if there is none, the
innermost roll that is open at the end; and that delimiter is what the message says there. -/
theorem parseStrict_agrees (inlineMath : Bool) (source : Text) :
    let toks := tokens inlineMath source
    ((∃ m, parseStrict inlineMath source = .ok m) ↔ Clean toks ∧ openAfter toks = []) ∧
      (∀ m, parseStrict inlineMath source = .ok m →
        m = parse inlineMath source ∧ ∀ n, Occurs n m.children → n.Closed) ∧
      ∀ f, parseStrict inlineMath source = .error f →
        (∃ before tok behind kind, toks = before ++ tok :: behind ∧ Clean before ∧
          Unaccepted (openAfter before) kind tok ∧ f = ⟨.unmatched kind.closer, tok.span⟩ ∧
          slice source f.span = kind.closer.source) ∨
        (Clean toks ∧ ∃ o outer, openAfter toks = o :: outer ∧ f = ⟨.unclosed o.kind, o.opener⟩ ∧
          slice source f.span = o.kind.opener.source) := by
  intro toks
  have hrun := Stack.readAllStrict_spec Stack.Reached.start toks
  rw [List.nil_append] at hrun
  -- every delimiter is accepted, or there is a first one that is not
  rcases hrun with ⟨s, hread, hs⟩ | ⟨before, tok, behind, kind, hsplit, hbefore, hkind, hread⟩
  · cases hframes : s.frames with
    | nil =>
        have hopen : openAfter toks = [] := by
          rw [← hs.opened]
          simp [Stack.opened, hframes]
        have hparse : parse inlineMath source =
            ⟨s.outer.reverse, ⟨.start, Position.start.after source⟩⟩ := by
          simp [parse, parseTokens, ← hs.lenient, hframes, finishFrames, toks]
        have hstrict : parseStrict inlineMath source = .ok (parse inlineMath source) := by
          simp [parseStrict, hread, hframes, hparse, toks]
        rw [hstrict]
        refine ⟨⟨fun _ => ⟨hs.clean, hopen⟩, fun _ => ⟨_, rfl⟩⟩, ?_, ?_⟩
        · intro m hm
          cases hm
          refine ⟨rfl, ?_⟩
          rw [hparse]
          exact hs.closed.outer.reverse
        · intro f hf
          cases hf
    | cons fr frs =>
        have hopen : openAfter toks = ⟨fr.kind, fr.opener⟩ :: Stack.opened ⟨s.outer, frs⟩ := by
          rw [← hs.opened]
          simp [Stack.opened, hframes]
        have hstrict : parseStrict inlineMath source = .error ⟨.unclosed fr.kind, fr.opener⟩ := by
          simp [parseStrict, hread, hframes, toks]
        have hopener := opener_mem_of_mem_openAfter (hopen ▸ List.mem_cons_self ..)
        rw [hstrict]
        refine ⟨⟨?_, ?_⟩, ?_, ?_⟩
        · rintro ⟨m, hm⟩
          cases hm
        · rintro ⟨-, hnone⟩
          rw [hopen] at hnone
          cases hnone
        · intro m hm
          cases hm
        · intro f hf
          cases hf
          exact .inr ⟨hs.clean, _, _, hopen, rfl, slice_of_mem_tokens hopener⟩
  · have hstrict : parseStrict inlineMath source = .error ⟨.unmatched kind.closer, tok.span⟩ := by
      simp [parseStrict, hread, toks]
    have htok : tok ∈ toks := by
      rw [hsplit]
      simp
    rw [hstrict]
    refine ⟨⟨?_, ?_⟩, ?_, ?_⟩
    · rintro ⟨m, hm⟩
      cases hm
    · rintro ⟨hclean, -⟩
      exact absurd hkind (hclean before tok behind kind hsplit)
    · intro m hm
      cases hm
    · intro f hf
      cases hf
      refine .inl ⟨before, tok, behind, kind, hsplit, hbefore, hkind, rfl, ?_⟩
      rw [slice_of_mem_tokens htok, hkind.1, Lexeme.source]

end Markup

end TabletopChat
