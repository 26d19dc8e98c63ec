import TabletopChat.Regex.Match
import TabletopChat.Text.Piece

/-!
# Regex/Splicing — matches replaced in a text that changes

The matches of a pattern can be replaced one by one where they stand, so that the text changes and the
search goes on behind what was put in; or the text is cut at its matches once, and other texts are put
between the gaps. Both give the same: what is put in is never searched.

- `Cut`             : the successive matches of a pattern, with the gaps between them
- `weave`           : the gaps with other texts between them
- `splice`          : matches replaced one by one in a text that changes
- `splice_of_cut`   : both give the same
- `Regex.Reads`   : readers of tags that a pattern describes
- `Regex.Reads.tagPieces_eq` : the pieces of a text are those that its matches cut it into
-/

namespace TabletopChat

/-! ## Successive matches -/

abbrev Found := Text × Match

/-- The successive matches of a pattern in a text: each is the leftmost one behind the match before it.
What is left has none. -/
inductive Cut (p : Regex) : Text → List Found → Text → Prop
  | last {t : Text} (h : p.search t = none) : Cut p t [] t
  | next {t gap rest last : Text} {m : Match} {found : List Found}
      (h : p.search t = some (gap, m, rest)) (hcut : Cut p rest found last) :
      Cut p t ((gap, m) :: found) last

/-- The gaps in front of matches with texts in place of the matches, and what is behind them. -/
def weave (found : List Found) (values : List Text) (last : Text) : Text :=
  (List.zipWith (fun f v => f.1 ++ v) found values).flatten ++ last

theorem weave_nil (last : Text) : weave [] [] last = last := rfl

theorem weave_cons (f : Found) (found : List Found) (v : Text) (values : List Text) (last : Text) :
    weave (f :: found) (v :: values) last = f.1 ++ (v ++ weave found values last) := by
  simp [weave]

namespace Regex

variable {p : Regex}

/-- Every text has a cut, which ends where no further match is found. -/
theorem Proper.exists_cut (hp : p.Proper) (t : Text) : ∃ found last, Cut p t found last := by
  induction hn : t.length using Nat.strong_induction_on generalizing t with
  | _ n ih =>
    cases hsearch : p.search t with
    | none => exact ⟨[], t, .last hsearch⟩
    | some x =>
      rcases x with ⟨gap, m, rest⟩
      rcases ih rest.length (hn ▸ hp.length_lt hsearch) rest rfl with ⟨found, last, hcut⟩
      exact ⟨(gap, m) :: found, last, .next hsearch hcut⟩

end Regex

/-! ## Replacing in a text that changes -/

section Splice

variable {μ : Type → Type} [Monad μ]

/-- Replaces the matches of a pattern from position `pos` on, at most `fuel` of them. A match is cut out
and its value is put in; the search goes on behind the value. A match without a value stays, and the
search goes on behind it. -/
def spliceFrom (p : Regex) (value : Match → μ (Option Text)) : Nat → Text → Nat → μ Text
  | 0, message, _ => pure message
  | fuel + 1, message, pos =>
    match p.search (message.drop pos) with
    | none => pure message
    | some (gap, m, _) => do
      let start := pos + gap.length
      let finish := start + m.source.length
      match ← value m with
      | some v => spliceFrom p value fuel (message.take start ++ v ++ message.drop finish) (start + v.length)
      | none => spliceFrom p value fuel message finish

def splice (p : Regex) (value : Match → μ (Option Text)) (message : Text) : μ Text :=
  spliceFrom p value message.length message 0

variable [LawfulMonad μ]

/-- What was put in front of a position plays no part in what is found behind it. -/
theorem spliceFrom_of_cut {p : Regex} (hp : p.Proper) (value : Match → μ (Option Text)) {t last : Text}
    {found : List Found} (h : Cut p t found last) {fuel : Nat} (hfuel : t.length ≤ fuel) (done : Text) :
    spliceFrom p value fuel (done ++ t) done.length = (do
      let values ← found.mapM fun f => do
        let v ← value f.2
        pure (v.getD f.2.source)
      pure (done ++ weave found values last)) := by
  induction h generalizing fuel done with
  | @last t hnone =>
    rw [List.mapM_nil, pure_bind, weave_nil]
    cases fuel with
    | zero => rfl
    | succ fuel => rw [spliceFrom, List.drop_left, hnone]
  | @next t gap rest last m found hsome hcut ih =>
    have hlt := hp.length_lt hsome
    have hsource := (Regex.match?_of_search hsome).2
    cases fuel with
    | zero => omega
    | succ fuel =>
      have hrest : rest.length ≤ fuel := by omega
      rw [spliceFrom, List.drop_left, hsome]
      simp only [List.mapM_cons, bind_assoc, pure_bind]
      congr 1
      funext v
      cases v with
      | none =>
        -- the match stays, so it counts among what is done
        have hdone : done ++ t = (done ++ gap ++ m.source) ++ rest := by simp [← hsource]
        have hlength : done.length + gap.length + m.source.length = (done ++ gap ++ m.source).length := by
          simp only [List.length_append]
        simp only [Option.getD_none]
        rw [hdone, hlength, ih hrest]
        simp [weave_cons]
      | some v =>
        have hdone : (done ++ t).take (done.length + gap.length) = done ++ gap := by
          rw [← hsource, ← List.append_assoc, ← List.length_append, List.take_left]
        have hbehind : (done ++ t).drop (done.length + gap.length + m.source.length) = rest := by
          rw [← hsource, ← List.append_assoc, ← List.append_assoc, ← List.length_append,
            ← List.length_append, List.drop_left]
        have hlength : done.length + gap.length + v.length = (done ++ gap ++ v).length := by
          simp only [List.length_append]
        simp only [Option.getD_some]
        rw [hdone, hbehind, hlength, ih hrest]
        simp [weave_cons]

theorem splice_of_cut {p : Regex} (hp : p.Proper) (value : Match → μ (Option Text)) {t last : Text}
    {found : List Found} (h : Cut p t found last) :
    splice p value t = (do
      let values ← found.mapM fun f => do
        let v ← value f.2
        pure (v.getD f.2.source)
      pure (weave found values last)) :=
  spliceFrom_of_cut hp value h le_rfl []

/-- Values that are known without an action. -/
theorem splice_pure_of_cut {p : Regex} (hp : p.Proper) (value : Match → Option Text) {t last : Text}
    {found : List Found} (h : Cut p t found last) :
    (splice p (fun m => pure (value m)) t : μ Text) =
      pure (weave found (found.map fun f => (value f.2).getD f.2.source) last) := by
  rw [splice_of_cut hp _ h]
  simp only [pure_bind, List.mapM_pure]

end Splice

/-! ## Texts that are one tag -/

namespace Text

/-- A text that is read as one tag is replaced as a whole. -/
theorem replaceTags_whole {α : Type} {tag? : Text → Option (α × Text)} {a : α} (value : α → Text → Text)
    {t : Text} (h : tag? t = some (a, [])) (hne : t ≠ []) : replaceTags tag? value t = value a t := by
  obtain ⟨c, cs, rfl⟩ := List.exists_cons_of_ne_nil hne
  have hnone : tagPiecesFrom tag? cs.length [] = [] := by cases cs <;> rfl
  rw [replaceTags, tagPieces, List.length_cons, tagPiecesFrom, h]
  simp [hnone, replacePiece]

end Text

/-! ## Readers that a pattern describes -/

section Readers

variable {α : Type}

def Regex.Reads (p : Regex) (of : Match → α) (tag? : Text → Option (α × Text)) : Prop :=
  ∀ t, tag? t = (p.match? t).map fun (m, rest) => (of m, rest)

def piecesOf (of : Match → α) (found : List Found) (last : Text) : List (Piece α) :=
  found.flatMap (fun f => f.1.map .plain ++ [.tag (of f.2) f.2.source]) ++ last.map .plain

namespace Regex.Reads

variable {p : Regex} {of : Match → α} {tag? : Text → Option (α × Text)}

/-- Without a match there are no tags. -/
theorem tagPiecesFrom_of_none (h : p.Reads of tag?) {t : Text} (hnone : p.search t = none) (fuel : Nat)
    (hfuel : t.length ≤ fuel) : Text.tagPiecesFrom tag? fuel t = t.map .plain := by
  induction t generalizing fuel with
  | nil => cases fuel <;> rfl
  | cons c cs ih =>
    cases fuel with
    | zero => simp at hfuel
    | succ fuel =>
      cases hmatch : p.match? (c :: cs) with
      | some x =>
        rw [Regex.search, Text.leftmost_of_some hmatch] at hnone
        cases hnone
      | none =>
        rw [Regex.search, Text.leftmost_of_none hmatch] at hnone
        rw [Text.tagPiecesFrom, h, hmatch]
        simp only [Option.map_none, List.map_cons]
        rw [ih (Option.map_eq_none_iff.1 hnone) fuel (Nat.le_of_succ_le_succ hfuel)]

/-- The pieces up to the first match, and the rest. -/
theorem tagPiecesFrom_of_some (h : p.Reads of tag?) (hp : p.Proper) {t gap rest : Text} {m : Match}
    (hsome : p.search t = some (gap, m, rest)) {fuel : Nat} (hfuel : t.length ≤ fuel) :
    ∃ fuel', rest.length ≤ fuel' ∧ Text.tagPiecesFrom tag? fuel t =
      gap.map .plain ++ .tag (of m) m.source :: Text.tagPiecesFrom tag? fuel' rest := by
  induction t generalizing gap fuel with
  | nil => exact absurd (hp.length_lt hsome) (Nat.not_lt_zero _)
  | cons c cs ih =>
    cases fuel with
    | zero => simp at hfuel
    | succ fuel =>
      have hcs : cs.length ≤ fuel := Nat.le_of_succ_le_succ hfuel
      have hlt := hp.length_lt hsome
      cases hmatch : p.match? (c :: cs) with
      | some x =>
        rcases x with ⟨m', rest'⟩
        rw [Regex.search, Text.leftmost_of_some hmatch] at hsome
        cases hsome
        refine ⟨fuel, (Nat.le_of_lt_succ hlt).trans hcs, ?_⟩
        -- a tag keeps the text in front of what follows it
        have hsource := Regex.source_append hmatch
        have htake : (c :: cs).take (cs.length + 1 - rest.length) = m.source := by
          have hlength := congrArg List.length hsource
          rw [List.length_append, List.length_cons] at hlength
          rw [← hlength, Nat.add_sub_cancel, ← hsource, List.take_left]
        rw [Text.tagPiecesFrom, h, hmatch]
        simp only [Option.map_some, List.map_nil, List.nil_append, htake]
      | none =>
        rw [Regex.search, Text.leftmost_of_none hmatch] at hsome
        rcases Option.map_eq_some_iff.1 hsome with ⟨⟨gap', m', rest'⟩, hsearch, heq⟩
        cases heq
        rcases ih hsearch hcs with ⟨fuel', hrest, hpieces⟩
        refine ⟨fuel', hrest, ?_⟩
        rw [Text.tagPiecesFrom, h, hmatch]
        simp only [Option.map_none, List.map_cons, List.cons_append, hpieces]

/-- The pieces of a text are those that the matches cut it into. -/
theorem tagPieces_eq (h : p.Reads of tag?) (hp : p.Proper) {t last : Text} {found : List Found}
    (hcut : Cut p t found last) : Text.tagPieces tag? t = piecesOf of found last := by
  have hfrom {fuel : Nat} (hfuel : t.length ≤ fuel) :
      Text.tagPiecesFrom tag? fuel t = piecesOf of found last := by
    induction hcut generalizing fuel with
    | last hnone => exact h.tagPiecesFrom_of_none hnone fuel hfuel
    | next hsome _ ih =>
      rcases h.tagPiecesFrom_of_some hp hsome hfuel with ⟨fuel', hrest, hpieces⟩
      rw [hpieces, ih hrest]
      simp [piecesOf]
  exact hfrom le_rfl

/-- Replacing tags is weaving values between the gaps. -/
theorem replaceTags_eq_weave (h : p.Reads of tag?) (hp : p.Proper) (value : α → Text → Text)
    {t last : Text} {found : List Found} (hcut : Cut p t found last) :
    Text.replaceTags tag? value t =
      weave found (found.map fun f => value (of f.2) f.2.source) last := by
  have hplain (u : Text) : (u.map Piece.plain).flatMap (Text.replacePiece value) = u := by
    rw [List.flatMap_map]
    exact List.flatMap_singleton' u
  rw [Text.replaceTags, h.tagPieces_eq hp hcut]
  clear hcut
  induction found with
  | nil => exact hplain last
  | cons f found ih =>
    rw [List.map_cons, weave_cons, ← ih]
    simp [piecesOf, hplain, Text.replacePiece]

end Regex.Reads

end Readers

end TabletopChat
