import TabletopChat.Proofs.Prompt.Atoms
import TabletopChat.Proofs.Expansion.OrdinaryText
import TabletopChat.Proofs.Dice.Plain.Rolling
import TabletopChat.Regex.Splicing

/-!
# Proofs/Expansion/OnePass — tags are replaced in one pass over a text

References to results, references to answers and the tags of macros are regular patterns. Wherever they
are replaced in a message, the result is made of the gaps between the matches in the message as it was,
and of the values of the matches. So what is put in is never searched, and never becomes part of a tag.

- `Evaluation.referencePattern`, `Prompt.referencePattern`, `Library.invocationPattern` : the forms of tags
- `Regex.Reads`   : each form is what the reader of its tags reads
- `tags_replaced_in_one_pass` : references to results, references to answers, and macros
-/

namespace TabletopChat

open Regex
open Prompt (notClosing)

def inName (c : Char) : Bool := c ≠ '|' && notClosing c

/-- The name at the beginning of a text, and what stands behind it. -/
theorem exists_name (u : Text) :
    ∃ name tail, u = name ++ tail ∧ (∀ c ∈ name, inName c = true) ∧ (∀ c ∈ tail.head?, inName c = false) ∧
      u.takeWhile (fun c => decide (c ≠ '|') && decide (c ≠ '\x7d')) = name ∧
      u.dropWhile (fun c => decide (c ≠ '|') && decide (c ≠ '\x7d')) = tail := by
  obtain ⟨name, tail, rfl, hname, htail⟩ := exists_cut inName u
  obtain ⟨htake, hdrop⟩ := takeWhile_dropWhile_append hname htail
  exact ⟨name, tail, rfl, hname, htail, htake, hdrop⟩

/-- A pattern that begins with what its tags begin with only needs to be compared with their reader behind it. -/
theorem Regex.Reads.of_heralds {α : Type} {w : Text} {rs : List Regex} {of : Match → α}
    {tag? : Text → Option (α × Text)} (h : Text.Heralds w tag?)
    (hread : ∀ u, tag? (w ++ u) = ((row (word w :: rs)).match? (w ++ u)).map fun (m, rest) => (of m, rest)) :
    (row (word w :: rs)).Reads of tag? := by
  intro t
  by_cases hword : w <+: t
  · obtain ⟨u, rfl⟩ := hword
    exact hread u
  · rw [h.eq_none_of_not_prefix hword, match?, run_row_cons, run_word_of_not_begins hword]
    rfl

/-! ## References to results -/

namespace Evaluation

def modePart : Regex :=
  .maybe (.row [.sign '|', .group "mode".toList (.several (.char inName))])

def optionsPart : Regex :=
  .maybe (.row [.sign '|', .group "options".toList (.several (.char notClosing))])

/-- A reference to a result: `@`, and in braces a name, a mode and options. -/
def referencePattern : Regex :=
  .row [.word ['@', '\x7b'], .group "id".toList (.several (.char inName)), modePart, optionsPart,
    .sign '\x7d']

def Reference.ofMatch (m : Match) : Reference where
  name := Text.strip (m.group "id".toList)
  mode := Text.strip (if m.group "mode".toList = [] then standardMode else m.group "mode".toList)
  options := Text.pieces '|' (m.group "options".toList)

variable {β : Type} {k : Follow β} {g : Groups} {body tail : Text}

theorem run_optionsPart (hk : FitsOnly ['\x7d'] k) (hbody : ∀ c ∈ body, notClosing c = true)
    (htail : ∀ c ∈ tail.head?, notClosing c = false) :
    optionsPart.run k ('|' :: (body ++ tail)) g =
      if body = [] then none else k tail (("options".toList, body) :: g) := by
  have hclose : k ('|' :: (body ++ tail)) g = none := hk _ _ (by simp)
  rw [optionsPart, run_maybe_cons, run_row_cons, run_row_nil, hclose, Option.or_none,
    run_group_append _ (hk.stuck_oneOf (by simp [notClosing])) hbody htail]

theorem run_modePart (hk : FitsOnly ['|', '\x7d'] k) (hbody : ∀ c ∈ body, inName c = true)
    (htail : ∀ c ∈ tail.head?, inName c = false) :
    modePart.run k ('|' :: (body ++ tail)) g =
      (if body = [] then none else k tail (("mode".toList, body) :: g)).or
        (k ('|' :: (body ++ tail)) g) := by
  rw [modePart, run_maybe_cons, run_row_cons, run_row_nil,
    run_group_append _ (hk.stuck_oneOf (by simp [inName, notClosing])) hbody htail]

/-- What the inside of a reference behind its name is taken for: a mode and options, as far as both are
there; otherwise options. -/
def groupsOf (body : Text) : Groups :=
  match Text.cutAt '|' body with
  | (c :: cs, none) => [("mode".toList, c :: cs)]
  | (c :: cs, some (d :: ds)) => [("options".toList, d :: ds), ("mode".toList, c :: cs)]
  | _ => [("options".toList, body)]

/-- What follows the name of a reference, up to its closing brace. -/
theorem run_body (f : Text → Groups → β) (hk : k = (sign '\x7d').run fun rest g => some (f rest g))
    (hbody : ∀ c ∈ body, notClosing c = true) (htail : ∀ c ∈ tail.head?, notClosing c = false) :
    modePart.run (optionsPart.run k) ('|' :: (body ++ tail)) g =
      if body = [] then none else k tail (groupsOf body ++ g) := by
  have hclose : FitsOnly ['\x7d'] k := hk ▸ fitsOnly_sign _ _
  have hopen : FitsOnly ['|', '\x7d'] (optionsPart.run k) := hclose.maybe _ _
  -- whether the brace is there does not depend on the groups, so the first way counts
  have hfirst (h h' : Groups) : (k tail h).or (k tail h') = k tail h := by
    rw [hk]
    cases tail with
    | nil => rfl
    | cons c cs =>
      have hc : c = '\x7d' := by simpa [notClosing] using htail c rfl
      rw [hc, run_sign_cons]
      rfl
  have hnoBar : tail.head? ≠ some '|' := fun h => absurd (htail '|' h) (by decide)
  have hall := run_optionsPart (g := g) hclose hbody htail
  rcases Text.cutAt_cases '|' body with ⟨hbar, hcut⟩ | ⟨before, behind, rfl, hbar, hcut⟩
  · have hname : ∀ c ∈ body, inName c = true := fun c hc => by
      have hne : c ≠ '|' := fun h => hbar (h ▸ hc)
      rw [inName, hbody c hc, decide_eq_true hne]
      rfl
    have hend : ∀ c ∈ tail.head?, inName c = false := fun c hc => by
      rw [inName, htail c hc, Bool.and_false]
    rw [run_modePart hopen hname hend, hall, optionsPart, run_maybe_of_ne hnoBar, groupsOf, hcut]
    cases body with
    | nil => rfl
    | cons c cs => simp only [reduceCtorEq, if_false]; exact hfirst _ _
  · have hname : ∀ c ∈ before, inName c = true := fun c hc => by
      have hne : c ≠ '|' := fun h => hbar (h ▸ hc)
      rw [inName, hbody c (List.mem_append_left _ hc), decide_eq_true hne]
      rfl
    have hbehind : ∀ c ∈ behind, notClosing c = true := fun c hc =>
      hbody c (List.mem_append_right _ (List.mem_cons_of_mem _ hc))
    have hsplit : before ++ '|' :: behind ++ tail = before ++ ('|' :: (behind ++ tail)) := by simp
    rw [hsplit] at hall ⊢
    rw [run_modePart hopen hname (by simp [inName]), hall,
      run_optionsPart hclose hbehind htail, groupsOf, hcut]
    cases before with
    | nil => simp
    | cons c cs =>
      cases behind with
      | nil => simp
      | cons d ds => simpa using hfirst _ _

/-- What the groups of a body say of the mode and the options. -/
theorem ofMatch_groupsOf (source name body : Text) :
    Reference.ofMatch ⟨source, groupsOf body ++ [("id".toList, name)]⟩ =
      ⟨Text.strip name, (modeAndOptions body).1, (modeAndOptions body).2⟩ := by
  rcases hcut : Text.cutAt '|' body with ⟨_ | ⟨c, cs⟩, _ | _ | ⟨d, ds⟩⟩ <;>
    simp only [groupsOf, modeAndOptions, hcut] <;> rfl

theorem reads_referencePattern : referencePattern.Reads Reference.ofMatch reference? := by
  refine .of_heralds heralds_reference? fun u => ?_
  obtain ⟨name, tail, rfl, hname, htail, htake, hdrop⟩ := exists_name u
  have hstuck (f : Text → Groups → Match × Text) : Stuck (oneOf inName)
      (modePart.run (optionsPart.run ((sign '\x7d').run fun rest g => some (f rest g)))) :=
    (((fitsOnly_sign '\x7d' _).maybe '|' _).maybe '|' _).stuck_oneOf (by simp [inName, notClosing])
  -- the name is taken whole, since neither a bar nor a brace is in it
  rw [match?, run_row_cons, run_word_append]
  simp only [run_row_cons, run_row_nil]
  rw [run_group_append _ (hstuck _) hname htail]
  simp only [List.cons_append, List.nil_append, reference?, htake, hdrop]
  split
  · rfl
  · rcases tail with _ | ⟨c, rest⟩
    · rfl
    · by_cases hbar : c = '|'
      · subst hbar
        -- behind a bar, the body reaches up to the closing brace
        rcases exists_cut notClosing rest with ⟨body, behind, rfl, hbody, hbehind⟩
        have hcut := takeWhile_dropWhile_append hbody hbehind
        have htake : (body ++ behind).takeWhile (fun c => decide (c ≠ '\x7d')) = body := hcut.1
        have hdrop : (body ++ behind).dropWhile (fun c => decide (c ≠ '\x7d')) = behind := hcut.2
        rw [run_body _ rfl hbody hbehind]
        simp only [htake, hdrop]
        cases body with
        | nil => rfl
        | cons b bs =>
          cases behind with
          | nil => rfl
          | cons d after =>
            have hd : d = '\x7d' := by simpa [notClosing] using hbehind d rfl
            rw [hd, if_neg (List.cons_ne_nil b bs), run_sign_cons]
            exact congrArg (fun r => some (r, after)) (ofMatch_groupsOf _ name (b :: bs)).symm
      · have hclose : c = '\x7d' := by simpa [inName, notClosing, hbar] using htail c rfl
        subst hclose
        rfl

/-- The view that a match asks for, if there is a result under its name. -/
def Records.viewOf? (r : Records) (m : Match) : Option Text :=
  (r.get? (Reference.ofMatch m).name).map fun rec =>
    rec.view (Reference.ofMatch m).mode (Reference.ofMatch m).options

theorem resolve_ofMatch (r : Records) (m : Match) :
    r.resolve (Reference.ofMatch m) m.source = (r.viewOf? m).getD m.source := by
  unfold Records.resolve Records.viewOf?
  cases r.get? (Reference.ofMatch m).name <;> rfl

end Evaluation

/-! ## References to answers -/

namespace Prompt

def indexPart : Regex :=
  .maybe (.row [.sign '|', .maybe (.group "index".toList (.several (atomOf noBrace)))])

/-- A reference to an answer: `?`, and in braces a colon, a label and the number of a part. -/
def referencePattern : Regex :=
  .row [.word ['?', '\x7b', ':'], .group "query".toList (.several (.char inName)), indexPart, .sign '\x7d']

def Reference.ofMatch (m : Match) : Reference where
  label := Text.strip (m.group "query".toList)
  index :=
    match m.group? "index".toList with
    | some t => indexOf t
    | none => 1

variable {β : Type} {k : Follow β} {g : Groups}

theorem run_indexPart (hk : FitsOnly ['\x7d'] k) {as : List Atom} (has : ∀ a ∈ as, a.Written) {e : Text}
    (he : Atom.first? e = none) :
    indexPart.run k ('|' :: (Atom.sourceOf as ++ e)) g =
      k e (if as = [] then g else ("index".toList, Atom.sourceOf as) :: g) := by
  have hclose : k ('|' :: (Atom.sourceOf as ++ e)) g = none := hk _ _ (by simp)
  rw [indexPart, run_maybe_cons, hclose, Option.or_none, run_row_cons, run_row_nil,
    run_maybe_atoms _ hk has he]

theorem reads_referencePattern : referencePattern.Reads Reference.ofMatch reference? := by
  refine .of_heralds (fun t x h => ?_) fun u => ?_
  · unfold reference? at h
    split at h
    · exact ⟨_, rfl⟩
    · cases h
  obtain ⟨label, tail, rfl, hlabel, htail, htake, hdrop⟩ := exists_name u
  have hclose (f : Text → Groups → Match × Text) :
      FitsOnly ['\x7d'] ((sign '\x7d').run fun rest g => some (f rest g)) := fitsOnly_sign _ _
  have hstuck (f : Text → Groups → Match × Text) : Stuck (oneOf inName)
      (indexPart.run ((sign '\x7d').run fun rest g => some (f rest g))) :=
    ((hclose f).maybe '|' _).stuck_oneOf (by simp [inName, notClosing])
  -- the label is taken whole, as the name of a result is
  rw [match?, run_row_cons, run_word_append]
  simp only [run_row_cons, run_row_nil]
  rw [run_group_append _ (hstuck _) hlabel htail]
  simp only [List.cons_append, List.nil_append, reference?, htake, hdrop]
  split
  · rfl
  · rcases tail with _ | ⟨c, rest⟩
    · rfl
    · by_cases hbar : c = '|'
      · subst hbar
        -- behind a bar, the index is made of atoms
        rcases Atom.exists_atoms rest with ⟨as, e, rfl, has, he⟩
        rw [run_indexPart (hclose _) has he]
        simp only [Atom.span_append has he]
        split
        · rename_i heq
          cases heq
          rw [run_sign_cons]
          cases as <;> rfl
        · rename_i hne
          have hhead : e.head? ≠ some '\x7d' := fun h => by
            rcases List.head?_eq_some_iff.1 h with ⟨after, rfl⟩
            exact hne as after rfl
          rw [run_sign_of_ne hhead]
          rfl
      · have hbrace : c = '\x7d' := by simpa [inName, notClosing, hbar] using htail c rfl
        subst hbrace
        rfl

end Prompt

/-! ## Invocations of macros -/

namespace Library

/-- An invocation of a macro: `#`, and in braces a kind and a label. -/
def invocationPattern : Regex :=
  .row [.word ['#', '\x7b'], .group "type".toList (.either (.word Kind.custom.name) (.word Kind.table.name)),
    .sign '|', .group "label".toList (.several (.char notClosing)), .sign '\x7d']

def Invocation.ofMatch (m : Match) : Invocation := ⟨m.group "type".toList, m.group "label".toList⟩

/-- An invocation is read up to its brace. -/
theorem invocationOf?_append (kind : Kind) {body tail : Text} (hbody : ∀ c ∈ body, notClosing c = true)
    (htail : ∀ c ∈ tail.head?, notClosing c = false) :
    invocationOf? kind (kind.name ++ '|' :: (body ++ tail)) =
      if body = [] then none else tail.tail?.map fun rest => (⟨kind.name, body⟩, rest) := by
  have hcut := takeWhile_dropWhile_append hbody htail
  have htake : (body ++ tail).takeWhile (fun c => decide (c ≠ '\x7d')) = body := hcut.1
  have hdrop : (body ++ tail).dropWhile (fun c => decide (c ≠ '\x7d')) = tail := hcut.2
  have hhead : kind.name ++ '|' :: (body ++ tail) = (kind.name ++ ['|']) ++ (body ++ tail) := by simp
  have hstarts : Text.startsWith (kind.name ++ ['|']) (kind.name ++ '|' :: (body ++ tail)) = true := by
    rw [hhead]
    exact List.isPrefixOf_iff_prefix.2 (List.prefix_append _ _)
  simp only [invocationOf?, hstarts, if_true]
  rw [hhead, List.drop_left, htake, hdrop]
  cases body with
  | nil => rfl
  | cons b bs => cases tail <;> rfl

theorem invocationOf?_eq_none {kind : Kind} {u : Text} (h : ¬ kind.name ++ ['|'] <+: u) :
    invocationOf? kind u = none := by
  have hstarts : ¬ Text.startsWith (kind.name ++ ['|']) u = true := fun hs =>
    h (List.isPrefixOf_iff_prefix.1 hs)
  simp only [invocationOf?, hstarts]
  rfl

/-- The name of a kind, a bar, a label and the closing brace are an invocation of this kind. -/
theorem run_kind (kind : Kind) (source : Text → Text) (u : Text) :
    ((word kind.name).run (fun rest g =>
        (sign '|').run ((group "label".toList (several (char notClosing))).run ((sign '\x7d').run
          fun rest g => some ((⟨source rest, g⟩ : Match), rest))) rest
            (("type".toList, u.take (u.length - rest.length)) :: g)) u []).map
        (fun x => (Invocation.ofMatch x.1, x.2)) = invocationOf? kind u := by
  by_cases hname : kind.name <+: u
  · rcases hname with ⟨v, rfl⟩
    have htake : (kind.name ++ v).take ((kind.name ++ v).length - v.length) = kind.name := by simp
    rw [run_word_append, htake]
    -- the kind is there: the bar and the label decide
    by_cases hbar : v.head? = some '|'
    · rcases List.head?_eq_some_iff.1 hbar with ⟨w, rfl⟩
      rcases exists_cut notClosing w with ⟨body, tail, rfl, hbody, htail⟩
      rw [run_sign_cons, run_group_append _ ((fitsOnly_sign _ _).stuck_oneOf (by simp [notClosing])) hbody htail,
        invocationOf?_append kind hbody htail]
      cases body with
      | nil => rfl
      | cons b bs =>
        cases tail with
        | nil => rfl
        | cons c rest =>
          have hc : c = '\x7d' := by simpa [notClosing] using htail c rfl
          rw [hc, if_neg (List.cons_ne_nil b bs), run_sign_cons]
          rfl
    · rw [run_sign_of_ne hbar, invocationOf?_eq_none]
      · rfl
      · rintro ⟨w, hw⟩
        rw [List.append_assoc, List.append_cancel_left_eq] at hw
        exact hbar (hw ▸ rfl)
  · rw [run_word_of_not_begins hname, invocationOf?_eq_none]
    · rfl
    · exact fun h => hname ((List.prefix_append _ _).trans h)

theorem reads_invocationPattern : invocationPattern.Reads Invocation.ofMatch invocation? := by
  refine .of_heralds heralds_invocation? fun u => ?_
  rw [match?, run_row_cons, run_word_append]
  simp only [run_row_cons, run_row_nil, run_group, run_either, Option.map_or]
  rw [run_kind .custom, run_kind .table]
  simp only [List.cons_append, List.nil_append, invocation?]
  cases invocationOf? .custom u <;> rfl

end Library

namespace Expansion

open Library

variable {σ : Type} (macros : Entries Macro) (expand : Text → Step σ Text)

/-- Plain characters are kept in front of what follows. -/
theorem expandPieces_plain (gap : Text) (ps : List (Piece Invocation)) :
    expandPieces macros expand (gap.map .plain ++ ps) = (do
      let rest ← expandPieces macros expand ps
      pure (gap ++ rest)) := by
  induction gap with
  | nil => exact (bind_pure _).symm
  | cons c cs ih =>
    rw [List.map_cons, List.cons_append, expandPieces, ih, bind_assoc]
    simp only [pure_bind, List.cons_append]

/-- The tags of macros are replaced from left to right, and the gaps between them stay. -/
theorem expandPieces_piecesOf (found : List Found) (last : Text) :
    expandPieces macros expand (piecesOf Invocation.ofMatch found last) = (do
      let values ← found.mapM fun f => expandInvocation macros expand (Invocation.ofMatch f.2)
      pure (weave found values last)) := by
  induction found with
  | nil =>
    have hlast := expandPieces_plain macros expand last []
    simp only [List.append_nil, expandPieces, pure_bind] at hlast
    rw [List.mapM_nil, pure_bind, weave_nil]
    exact hlast
  | cons f found ih =>
    have hpieces : piecesOf Invocation.ofMatch (f :: found) last =
        f.1.map .plain ++ .tag (Invocation.ofMatch f.2) f.2.source :: piecesOf Invocation.ofMatch found last := by
      simp [piecesOf]
    rw [hpieces, expandPieces_plain, expandPieces, ih]
    simp only [List.mapM_cons, bind_assoc, pure_bind, weave_cons]

end Expansion

/-! ## One pass -/

/-- The gaps between the successive matches in the message as it was, and the values of the matches in
the order in which they are found, make up the message in which references to results, references to
answers or macros are replaced. A message that is changed match by match becomes the same. -/
theorem tags_replaced_in_one_pass {σ : Type} (message : Text) :
    (∃ found last, Cut Evaluation.referencePattern message found last ∧ ∀ records : Evaluation.Records,
      Evaluation.substitute message records =
          weave found (found.map fun f => (records.viewOf? f.2).getD f.2.source) last ∧
        Evaluation.substitute message records =
          (splice Evaluation.referencePattern (fun m => pure (records.viewOf? m)) message : Id Text)) ∧
    (∃ found last, Cut Prompt.referencePattern message found last ∧ ∀ selections : Prompt.Selections,
      Prompt.substitute message selections =
          weave found (found.map fun f => selections.resolve (.ofMatch f.2)) last ∧
        Prompt.substitute message selections =
          (splice Prompt.referencePattern (fun m => pure (some (selections.resolve (.ofMatch m)))) message :
            Id Text)) ∧
    ∃ found last, Cut Library.invocationPattern message found last ∧
      ∀ (macros : Entries Library.Macro) (expand : Text → Expansion.Step σ Text),
        Expansion.expandPieces macros expand (Text.tagPieces Library.invocation? message) = (do
            let values ← found.mapM fun f => Expansion.expandInvocation macros expand (.ofMatch f.2)
            pure (weave found values last)) ∧
          Expansion.expandPieces macros expand (Text.tagPieces Library.invocation? message) =
            splice Library.invocationPattern
              (fun m => some <$> Expansion.expandInvocation macros expand (.ofMatch m)) message := by
  have hresults : Evaluation.referencePattern.Proper := proper_row_word (List.cons_ne_nil _ _) _
  have hanswers : Prompt.referencePattern.Proper := proper_row_word (List.cons_ne_nil _ _) _
  have hmacros : Library.invocationPattern.Proper := proper_row_word (List.cons_ne_nil _ _) _
  refine ⟨?_, ?_, ?_⟩
  -- the references to results: a name that is not known keeps its tag
  · rcases hresults.exists_cut message with ⟨found, last, hcut⟩
    refine ⟨found, last, hcut, fun records => ?_⟩
    have hweave := Evaluation.reads_referencePattern.replaceTags_eq_weave hresults records.resolve hcut
    simp only [Evaluation.resolve_ofMatch] at hweave
    refine ⟨hweave, ?_⟩
    rw [splice_pure_of_cut hresults records.viewOf? hcut]
    exact hweave
  -- the references to answers: every tag is replaced
  · rcases hanswers.exists_cut message with ⟨found, last, hcut⟩
    refine ⟨found, last, hcut, fun selections => ?_⟩
    have hweave := Prompt.reads_referencePattern.replaceTags_eq_weave hanswers
      (fun ref _ => selections.resolve ref) hcut
    refine ⟨hweave, ?_⟩
    rw [splice_pure_of_cut hanswers (fun m => some (selections.resolve (.ofMatch m))) hcut]
    exact hweave
  -- the macros: their texts are expanded one after the other, so the values come from a run
  · rcases hmacros.exists_cut message with ⟨found, last, hcut⟩
    refine ⟨found, last, hcut, fun macros expand => ?_⟩
    have hweave := Expansion.expandPieces_piecesOf macros expand found last
    rw [← Library.reads_invocationPattern.tagPieces_eq hmacros hcut] at hweave
    refine ⟨hweave, ?_⟩
    rw [splice_of_cut hmacros _ hcut, hweave]
    simp only [bind_map_left, Option.getD_some, bind_pure]

end TabletopChat
