import TabletopChat.Prompt.Script
import TabletopChat.Proofs.Prompt.Answering
import TabletopChat.Proofs.Prompt.TagSource

/-!
# Proofs/Prompt/FixedPoint — answering a message again changes nothing

After the tags of a message were answered, answering the result with the same answers asks nothing and
leaves everything as it is. What carries this is the last sweep over the message: all tags in front of
the place where the search goes on are tags whose answer is their own text, and this remains so while
later tags are answered, because the only answer that is the text of its tag is a text that was given
for its query, and writing it down changes no other answer.

- `GaveUp`         : a message had too many tags
- `Stays`          : a tag that is its own answer
- `answerTag_reproduces` : what is written down by an answer that is its own tag
- `Swept`, `AtRest` : the part of a message, and whole messages, whose tags all stay
- `resolveFrom_rests`, `Swept.rerun` : a first run ends at rest, and a second one gets there unasked
- `resolve_reaches_fixed_point` : whole messages
-/

namespace TabletopChat

namespace Prompt

open Act

variable {σ τ : Type}

/-! ## Giving up -/

/-- Between two journals it was said once more that a message has too many tags. -/
def GaveUp (before after : Journal) : Prop := ∃ e ∈ limitRemark, before.count e < after.count e

instance (before after : Journal) : Decidable (GaveUp before after) :=
  inferInstanceAs (Decidable (∃ e ∈ limitRemark, _))

theorem GaveUp.of_suffix {before before' after after' : Journal} (h : GaveUp before after)
    (hbefore : before' <:+ before) (hafter : after <:+ after') : GaveUp before' after' := by
  rcases h with ⟨e, he, hcount⟩
  have hless := hbefore.sublist.count_le e
  have hmore := hafter.sublist.count_le e
  exact ⟨e, he, by omega⟩

theorem gaveUp_of_limitRemark (j : Journal) : GaveUp j (limitRemark ++ j) := by
  refine ⟨_, List.mem_singleton.2 rfl, ?_⟩
  simp [limitRemark, Journal.warn]

/-- What was said is never taken back. -/
def Said (i j : Interview σ) : Prop := i.desk.journal <:+ j.desk.journal

/-- Remarks are only ever added. -/
theorem steady_said : Steady (@Said σ) where
  refl i := List.suffix_refl _
  trans h h' := List.IsSuffix.trans h h'
  say entries := fun i => List.suffix_append entries i.desk.journal
  select name parts := fun i => List.suffix_refl _
  change _ := by
    intro i
    simp only [change, Act.run]
    split <;> exact List.suffix_refl _

theorem asked_said : Steady.Asked (@Said σ) := by
  intro α q reply i
  exact List.suffix_append _ _

/-! ## Tags that stay -/

def Stays (s : Selections) (tag : Tag) : Prop :=
  ∃ parts, Entries.get? tag.query s = some parts ∧ repeated tag parts = tag.source

def Kept (s s' : Selections) : Prop :=
  ∀ name parts, Entries.get? name s = some parts → Entries.get? name s' = some parts

theorem Stays.kept {s s' : Selections} {tag : Tag} (h : Stays s tag) (hkept : Kept s s') :
    Stays s' tag := by
  rcases h with ⟨parts, hparts, heq⟩
  exact ⟨parts, hkept _ _ hparts, heq⟩

/-- A new answer changes no other. -/
theorem kept_insert {s : Selections} {name : Text} (hnew : Entries.get? name s = none)
    (parts : List Text) : Kept s (Entries.insert name parts s) := by
  intro other found hfound
  have hne : name ≠ other := by
    rintro rfl
    rw [hnew] at hfound
    cases hfound
  rw [Entries.get?_insert_of_ne _ _ hne, hfound]

/-! ## Answers that are their own tag -/

/-- A text that texts without marks were joined to. -/
def Joined (tag : Tag) (t : Text) : Prop :=
  ∃ ts : List Text, (∀ u ∈ ts, ',' ∉ u ∧ '|' ∉ u) ∧ t = Text.joinWith tag.delimiter ts

/-- What a choice comes to is joined from its values. -/
theorem yields_choose (tag : Tag) (chosen : Option (List Choice))
    (hvalues : ∀ cs, chosen = some cs → ∀ c ∈ cs, '|' ∉ c.value) :
    Yields (Joined tag) (choose tag chosen : Asking σ Text) := by
  have hnothing : Yields (Joined tag) (chooseNothing tag : Asking σ Text) := by
    refine .bind (.trivial _) fun _ _ => .pure ⟨[], ?_, rfl⟩
    intro u hu
    cases hu
  cases chosen with
  | none =>
      exact hnothing
  | some cs =>
      -- what is selected has neither a comma nor a bar in it
      have hparts : ∀ c ∈ cs, ',' ∉ c.mainPart ∧ '|' ∉ c.mainPart := fun c hc =>
        Choice.marks_not_mem_mainPart (hvalues cs rfl c hc)
      have hmany : Yields (Joined tag) (chooseMany tag cs : Asking σ Text) := by
        have hlisted : Yields (Joined tag) (chooseListed tag cs : Asking σ Text) := by
          refine .bind (.trivial _) fun _ _ => .bind (.trivial _) fun _ _ => .pure ⟨_, ?_, rfl⟩
          intro u hu
          rcases List.mem_map.1 hu with ⟨c, hc, rfl⟩
          exact hparts c hc
        rw [chooseMany_eq]
        split
        · exact .bind (.trivial _) fun _ _ => hlisted
        · exact hlisted
      simp only [choose]
      split
      · exact hnothing
      · rename_i c _ _
        refine .bind (.trivial _) fun _ _ => .bind (.trivial _) fun _ _ =>
          .bind (.trivial _) fun _ _ => .pure ⟨[c.mainPart], ?_, rfl⟩
        intro u hu
        rw [List.mem_singleton.1 hu]
        exact hparts c List.mem_cons_self
      · exact hmany

/-- The answer to a question with choices is never the text of its tag. -/
theorem yields_askChoice {a : Answerer σ} (ha : a.Faithful) {tag : Tag} (h : tag.Marked)
    (hchoices : tag.choices ≠ []) : Yields (· ≠ tag.source) (askChoice a tag) := by
  let Offered (ds : List Choice) : Prop := ∀ d ∈ ds, '|' ∉ d.value
  have hoffered : Yields Offered
      (consult fun m => preselectAll tag m tag.choices : Asking σ (List Choice)) := by
    intro i ds j hrun d hd
    have hpre : preselectAll tag i.desk.memory tag.choices = .ok ds := congrArg Prod.fst hrun
    rcases exists_of_preselectAll hpre hd with ⟨c, hc, -, hvalue⟩
    rw [hvalue]
    exact h.values c hc
  refine .bind hoffered fun ds hds => ?_
  -- whoever answers is faithful, so only choices of the tag are joined
  have hchosen : Yields (fun chosen : Option (List Choice) => ∀ cs, chosen = some cs → Offered cs)
      (ask (.choice tag.query tag.kind ds) (a.choice tag.query tag.kind ds)) := by
    intro i chosen j hrun cs hcs c hc
    have hanswer : Except.ok (a.choice tag.query tag.kind ds i.desk.answerer).answer =
        (Except.ok chosen : Except Abort _) := congrArg Prod.fst hrun
    rw [hcs] at hanswer
    exact hds c (ha _ _ _ _ _ (Except.ok.inj hanswer) c hc)
  refine .bind hchosen fun chosen hvalues => ?_
  intro i t j hrun
  rcases yields_choose tag chosen hvalues i t j hrun with ⟨ts, hts, rfl⟩
  exact h.joinWith_ne_source hchoices hts

/-- A tag whose answer is its own text stays, and all other answers are kept. -/
theorem answerTag_reproduces {a : Answerer σ} (ha : a.Faithful) {tag : Tag} (h : tag.Marked)
    {i j : Interview σ} (hrun : (answerTag a tag).run i = (.ok tag.source, j)) :
    Kept i.selections j.selections ∧ Stays j.selections tag := by
  rw [answerTag, run_bind_of_ok (run_get i)] at hrun
  split at hrun
  · rename_i parts hparts
    simp only [run_pure, Prod.mk.injEq, Except.ok.injEq] at hrun
    rcases hrun with ⟨hrepeated, rfl⟩
    exact ⟨fun _ _ hfound => hfound, parts, hparts, hrepeated⟩
  · rename_i hnew
    split at hrun
    · rename_i hchoice
      have hchoices : tag.choices ≠ [] := by
        intro hnil
        simp [Tag.isChoice, hnil] at hchoice
      exact (yields_askChoice ha h hchoices i _ j hrun rfl).elim
    · -- a text that was given is written down under its query only
      have hwritten : j.selections = Entries.insert tag.query [tag.source] i.selections := by
        have hanswer : (a.text tag.query tag.fallback i.desk.answerer).answer.getD [] = tag.source :=
          Except.ok.inj (congrArg Prod.fst hrun)
        rw [← hanswer]
        exact (congrArg (fun outcome => outcome.2.selections) hrun).symm
      rw [hwritten]
      exact ⟨kept_insert hnew _, [tag.source], Entries.get?_insert_self _ _ _, rfl⟩

/-! ## Sweeps -/

/-- In a message, `done` is followed by `rest`, and all its `n` tags stay. -/
inductive Swept (s : Selections) (m : Text) : Text → Text → Nat → Prop
  | start : Swept s m [] m 0
  | pass {done rest before after : Text} {tag : Tag} {n : Nat} (h : Swept s m done rest n)
      (hfirst : Tag.first? rest = some (before, tag, after)) (hstays : Stays s tag) :
      Swept s m (done ++ before ++ tag.source) after (n + 1)

/-- A message that is swept stays so when answers are added. -/
theorem Swept.kept {s s' : Selections} {m done rest : Text} {n : Nat} (h : Swept s m done rest n)
    (hkept : Kept s s') : Swept s' m done rest n := by
  induction h with
  | start =>
      exact .start
  | pass _ hfirst hstays ih =>
      exact .pass ih hfirst (hstays.kept hkept)

/-- Sweeping splits a message into what is done and what is not. -/
theorem Swept.message_eq {s : Selections} {m done rest : Text} {n : Nat} (h : Swept s m done rest n) :
    m = done ++ rest := by
  induction h with
  | start =>
      rfl
  | pass _ hfirst _ ih =>
      rw [ih, (Tag.first?_source hfirst).1]
      simp

def AtRest (s : Selections) (m : Text) : Prop :=
  ∃ done rest n, Swept s m done rest n ∧ Tag.first? rest = none ∧ n < answerLimit

/-! ## The first run -/

/-- Unless there are too many tags, a run ends with a message at rest. -/
theorem resolveFrom_rests {a : Answerer σ} (ha : a.Faithful) {fuel n : Nat} {m done rest t : Text}
    {i j : Interview σ} (h : Swept i.selections m done rest n) (hn : n + fuel ≤ answerLimit)
    (hrun : (resolveFrom a fuel done rest).run i = (.ok t, j)) :
    GaveUp i.desk.journal j.desk.journal ∨ AtRest j.selections t := by
  -- a sweep of `n` tags leaves enough fuel for a second one: `n + fuel` never grows
  induction fuel generalizing n m done rest i with
  | zero =>
      cases hrun
      exact Or.inl (gaveUp_of_limitRemark _)
  | succ fuel ih =>
      unfold resolveFrom at hrun
      split at hrun
      · rename_i hnone
        cases hrun
        rw [← h.message_eq]
        exact Or.inr ⟨done, rest, n, h, hnone, by omega⟩
      · rename_i before tag after hfirst
        have hmarked := (Tag.read?_source (Tag.first?_source hfirst).2).2
        have hsaid := steady_said.answerTag asked_said a tag i
        rcases hanswer : (answerTag a tag).run i with ⟨result, k⟩
        rw [hanswer] at hsaid
        cases result with
        | error e =>
            rw [run_bind_of_error hanswer] at hrun
            cases hrun
        | ok answer =>
            have hremark : ∃ k', (say (answerRemark tag answer)).run k = (.ok (), k') ∧
                k'.selections = k.selections ∧ k.desk.journal <:+ k'.desk.journal :=
              ⟨_, rfl, rfl, List.suffix_append _ _⟩
            rcases hremark with ⟨k', hsay, hselections, hlater⟩
            rw [run_bind_of_ok hanswer, run_bind_of_ok hsay] at hrun
            have hnext : GaveUp k'.desk.journal j.desk.journal ∨ AtRest j.selections t := by
              by_cases hself : answer = tag.source
              · subst hself
                rw [if_pos rfl] at hrun
                -- the sweep goes on behind the tag, and all it has passed still stays
                rcases answerTag_reproduces ha hmarked hanswer with ⟨hkept, hstays⟩
                have hpass := (h.kept hkept).pass hfirst hstays
                rw [← hselections] at hpass
                exact ih hpass (by omega) hrun
              · -- another text takes the place of the tag, and a new sweep begins
                rw [if_neg hself] at hrun
                exact ih .start (by omega) hrun
            rcases hnext with hgave | hatRest
            · exact Or.inl (hgave.of_suffix (hsaid.trans hlater) (List.suffix_refl _))
            · exact Or.inr hatRest

/-! ## The second run -/

/-- Tags that stay are passed without a question. -/
theorem Swept.rerun {s : Selections} {m done rest : Text} {n : Nat} (h : Swept s m done rest n)
    (b : Answerer τ) (fuel : Nat) (d : Desk τ) :
    ∃ journal, (resolveFrom b (n + fuel) [] m).run ⟨d, s⟩ =
      (resolveFrom b fuel done rest).run ⟨{ d with journal := journal }, s⟩ := by
  induction h generalizing fuel with
  | start =>
      exact ⟨d.journal, by rw [Nat.zero_add]⟩
  | @pass done rest before after tag n _ hfirst hstays ih =>
      -- the tag that was passed last is answered from the selections
      rcases hstays with ⟨parts, hparts, hrepeated⟩
      rcases ih (fuel + 1) with ⟨journal, hrun⟩
      refine ⟨answerRemark tag tag.source ++ journal, ?_⟩
      rw [Nat.add_right_comm, Nat.add_assoc, hrun]
      have hanswer : (answerTag b tag).run ⟨{ d with journal := journal }, s⟩ =
          (.ok tag.source, ⟨{ d with journal := journal }, s⟩) := by
        rw [answerTag, run_bind_of_ok (run_get _)]
        simp [hparts, hrepeated]
      conv_lhs => unfold resolveFrom
      simp only [hfirst]
      rw [run_bind_of_ok hanswer, run_bind, say, run_modify, if_pos rfl]

/-- A message at rest is not changed by another run, and nothing is asked. -/
theorem AtRest.rerun {s : Selections} {m : Text} (h : AtRest s m) (b : Answerer τ) (d : Desk τ) :
    ∃ journal, (resolveFrom b answerLimit [] m).run ⟨d, s⟩ =
      (.ok m, ⟨{ d with journal := journal }, s⟩) := by
  rcases h with ⟨done, rest, n, hswept, hnone, hn⟩
  rcases Nat.exists_eq_add_of_lt hn with ⟨fuel, hlimit⟩
  rcases hswept.rerun b (fuel + 1) d with ⟨journal, hrun⟩
  refine ⟨journal, ?_⟩
  rw [hlimit, Nat.add_assoc, hrun, hswept.message_eq]
  simp only [resolveFrom, hnone, run_pure]

/-! ## Storing -/

/-- Saving writes what is remembered to the store. -/
theorem run_save (i : Interview σ) :
    save.run i =
      match i.desk.memory.save? i.desk.store with
      | some store => (.ok (), { i with desk := { i.desk with
          store := store
          journal := i.desk.store.remarks ++ i.desk.journal } })
      | none => (.error .notWritable, { i with desk := { i.desk with
          journal := i.desk.store.remarks ++ i.desk.journal } }) := by
  have hsaid : (say i.desk.store.remarks).run i = (.ok (), { i with desk := { i.desk with
      journal := i.desk.store.remarks ++ i.desk.journal } }) := rfl
  rw [save, run_bind_of_ok (run_get i), run_bind_of_ok hsaid]
  cases i.desk.memory.save? i.desk.store with
  | none =>
      rfl
  | some store =>
      rfl

/-! ## Tags that are left -/

/-- Without a first tag there are none. -/
theorem not_mem_tagPiecesFrom {t source : Text} {tag : Tag} (h : Tag.first? t = none) (fuel : Nat) :
    .tag tag source ∉ Text.tagPiecesFrom Tag.read? fuel t := by
  induction fuel generalizing t with
  | zero =>
      exact List.not_mem_nil
  | succ fuel ih =>
      cases t with
      | nil =>
          exact List.not_mem_nil
      | cons c cs =>
          cases hread : Tag.read? (c :: cs) with
          | some found =>
              simp [Tag.first?, hread] at h
          | none =>
              simp only [Tag.first?, hread, Option.map_eq_none_iff] at h
              simp [Text.tagPiecesFrom, hread, ih h]

/-- The tags of a text are its first tag and those behind it. -/
theorem mem_tagPiecesFrom {t before after source : Text} {first tag : Tag} {fuel : Nat}
    (h : Tag.first? t = some (before, first, after))
    (hmem : .tag tag source ∈ Text.tagPiecesFrom Tag.read? fuel t) :
    (tag = first ∧ source = first.source) ∨
      ∃ fuel', .tag tag source ∈ Text.tagPiecesFrom Tag.read? fuel' after := by
  induction fuel generalizing t before with
  | zero =>
      exact (List.not_mem_nil hmem).elim
  | succ fuel ih =>
      cases t with
      | nil =>
          exact (List.not_mem_nil hmem).elim
      | cons c cs =>
          cases hread : Tag.read? (c :: cs) with
          | some found =>
              -- the first tag begins right here
              rcases found with ⟨read, rest⟩
              simp only [Tag.first?, hread, Option.some.injEq, Prod.mk.injEq] at h
              rcases h with ⟨_, rfl, rfl⟩
              simp only [Text.tagPiecesFrom, hread, List.mem_cons, Piece.tag.injEq] at hmem
              rcases hmem with ⟨rfl, rfl⟩ | hmem
              · have hsource := (Tag.read?_source hread).1
                have hlength : cs.length + 1 = tag.source.length + rest.length := by
                  simpa using congrArg List.length hsource
                refine Or.inl ⟨rfl, ?_⟩
                rw [hsource, List.take_left']
                omega
              · exact Or.inr ⟨fuel, hmem⟩
          | none =>
              simp only [Tag.first?, hread, Option.map_eq_some_iff] at h
              rcases h with ⟨⟨before', first', after'⟩, hfirst, heq⟩
              simp only [Prod.mk.injEq] at heq
              rcases heq with ⟨_, rfl, rfl⟩
              simp only [Text.tagPiecesFrom, hread, List.mem_cons, reduceCtorEq, false_or] at hmem
              exact ih hfirst hmem

/-- In front of the place that a sweep has reached there are only tags that stay. -/
theorem Swept.left {s : Selections} {m done rest source : Text} {tag : Tag} {n fuel : Nat}
    (h : Swept s m done rest n) (hmem : .tag tag source ∈ Text.tagPiecesFrom Tag.read? fuel m) :
    (source = tag.source ∧ Stays s tag) ∨
      ∃ fuel', .tag tag source ∈ Text.tagPiecesFrom Tag.read? fuel' rest := by
  induction h with
  | start =>
      exact Or.inr ⟨fuel, hmem⟩
  | pass _ hfirst hstays ih =>
      rcases ih with hleft | ⟨fuel', hrest⟩
      · exact Or.inl hleft
      · rcases mem_tagPiecesFrom hfirst hrest with ⟨rfl, rfl⟩ | hafter
        · exact Or.inl ⟨rfl, hstays⟩
        · exact Or.inr hafter

theorem AtRest.left {s : Selections} {m source : Text} {tag : Tag} (h : AtRest s m)
    (hmem : .tag tag source ∈ Text.tagPieces Tag.read? m) : source = tag.source ∧ Stays s tag := by
  rcases h with ⟨done, rest, n, hswept, hnone, _⟩
  rcases hswept.left hmem with hleft | ⟨fuel, hrest⟩
  · exact hleft
  · exact (not_mem_tagPiecesFrom hnone fuel hrest).elim

/-! ## Whole messages -/

/-- What a whole run leaves: a message at rest, unless there were too many tags, and a store that can be
written again. -/
theorem resolve_rests {a : Answerer σ} (ha : a.Faithful) {message t : Text} {i j : Interview σ}
    (hrun : (resolve a message).run i = (.ok t, j)) :
    (GaveUp i.desk.journal j.desk.journal ∨ AtRest j.selections t) ∧
      ∀ m : Memory, ∃ store, m.save? j.desk.store = some store := by
  rcases hfirst : (resolveFrom a answerLimit [] message).run i with ⟨result, k⟩
  cases result with
  | error e =>
      rw [resolve, run_bind_of_error hfirst] at hrun
      cases hrun
  | ok answered =>
      rw [resolve, run_bind_of_ok hfirst, run_bind, run_save] at hrun
      cases hsave : k.desk.memory.save? k.desk.store with
      | none =>
          simp only [hsave] at hrun
          cases hrun
      | some store =>
          simp only [hsave] at hrun
          cases hrun
          -- a store that was written once can be written again
          refine ⟨?_, fun m => Store.set?_of_set? hsave _ _ _⟩
          rcases resolveFrom_rests ha .start (Nat.zero_add _).le hfirst with hgave | hatRest
          · exact Or.inl (hgave.of_suffix (List.suffix_refl _) (List.suffix_append _ _))
          · exact Or.inr hatRest

/-- If a message was answered and did not have too many tags, the result is a fixed point: whoever
answers, and whatever was asked and is remembered, answering it again with the same answers asks
nothing and changes neither the message nor the answers. The tags that are left in it are those whose
answer is their own text. -/
theorem resolve_reaches_fixed_point {a : Answerer σ} (ha : a.Faithful) {message t : Text}
    {i j : Interview σ} (hrun : (resolve a message).run i = (.ok t, j))
    (hlimit : ¬ GaveUp i.desk.journal j.desk.journal) :
    (∀ (τ : Type) (b : Answerer τ) (d : Desk τ), ∃ d' : Desk τ,
      (resolve b t).run ⟨{ d with store := j.desk.store }, j.selections⟩ =
        (.ok t, ⟨d', j.selections⟩) ∧
      d'.asked = d.asked ∧ d'.answerer = d.answerer ∧ d'.memory = d.memory) ∧
    ∀ tag source, .tag tag source ∈ Text.tagPieces Tag.read? t →
      source = tag.source ∧ Stays j.selections tag := by
  rcases resolve_rests ha hrun with ⟨hgave | hatRest, hstore⟩
  · exact (hlimit hgave).elim
  · refine ⟨?_, fun tag source hmem => hatRest.left hmem⟩
    intro τ b d
    rcases hatRest.rerun b { d with store := j.desk.store } with ⟨journal, hagain⟩
    rcases hstore d.memory with ⟨store, hsave⟩
    rw [resolve, run_bind_of_ok hagain, run_bind, run_save]
    simp only [hsave]
    exact ⟨_, rfl, rfl, rfl, rfl⟩

def echo : Script where
  texts := [("A".toList, some "?\x7bA\x7d".toList), ("B".toList, some "b".toList)]
  choices := []

def echoStart : Interview Unit := ⟨⟨(), [], ⟨"choices".toList, []⟩, .memory [], []⟩, []⟩

def echoMessage : Text := "?\x7bA\x7d ?\x7bB\x7d".toList

/-- A prompt that is answered with itself stays, and a second run asks nothing. -/
theorem resolve_reaches_fixed_point_echo :
    echo.answerer.Faithful ∧
      ∃ j, (resolve echo.answerer echoMessage).run echoStart = (.ok "?\x7bA\x7d b".toList, j) ∧
        ¬ GaveUp echoStart.desk.journal j.desk.journal ∧
        (∀ (τ : Type) (b : Answerer τ) (d : Desk τ), ∃ d' : Desk τ,
          (resolve b "?\x7bA\x7d b".toList).run ⟨{ d with store := j.desk.store }, j.selections⟩ =
            (.ok "?\x7bA\x7d b".toList, ⟨d', j.selections⟩) ∧
          d'.asked = d.asked ∧ d'.answerer = d.answerer ∧ d'.memory = d.memory) ∧
        ∀ tag source, .tag tag source ∈ Text.tagPieces Tag.read? "?\x7bA\x7d b".toList →
          source = tag.source ∧ Stays j.selections tag := by
  have hfaithful := echo.answerer_faithful
  have hresult : ((resolve echo.answerer echoMessage).run echoStart).1 =
      .ok "?\x7bA\x7d b".toList := by
    decide +kernel
  have hlimit : ¬ GaveUp echoStart.desk.journal
      ((resolve echo.answerer echoMessage).run echoStart).2.desk.journal := by
    decide +kernel
  rcases hrun : (resolve echo.answerer echoMessage).run echoStart with ⟨result, j⟩
  rw [hrun] at hresult hlimit
  subst hresult
  exact ⟨hfaithful, j, rfl, hlimit, resolve_reaches_fixed_point hfaithful hrun hlimit⟩

end Prompt

end TabletopChat
