import TabletopChat.Prompt.Script
import TabletopChat.Proofs.Prompt.FixedPoint

/-!
# Proofs/Prompt/Repeating — queries that are answered more than once

What was answered to a query is repeated where the query comes up again. But the answers to queries and
the choices that can be referred to by their labels are written down under the same names, so that a
choice which is labelled like a query takes the place of its answer. Without such a choice in between,
all tags with the same query are replaced by the same text.

- `Replacement`, `resolveLogged` : a run that lists the tags and the texts in their places
- `answerTag_settles`            : a query that is asked leaves its answer as a single part
- `answerTag_leaves`             : what answering a tag does to the answers of other queries
- `same_query_same_answer`       : whole messages
-/

namespace TabletopChat

namespace Prompt

open Act

variable {σ α β : Type}

/-! ## Runs that list their answers -/

/-- A tag that was answered, and the text that took its place. -/
structure Replacement where
  tag : Tag
  text : Text
  deriving DecidableEq, Repr

/-- Answers the tags of `rest`, which follows `done`, and lists them with their answers, the first one
first. -/
def resolveLogged (a : Answerer σ) : Nat → Text → Text → Asking σ (Text × List Replacement)
  | 0, done, rest => do
    say limitRemark
    pure (done ++ rest, [])
  | fuel + 1, done, rest =>
    match Tag.first? rest with
    | none => pure (done ++ rest, [])
    | some (before, tag, after) => do
      let answer ← answerTag a tag
      say (answerRemark tag answer)
      let next :=
        if answer = tag.source then (done ++ before ++ answer, after)
        else ([], done ++ before ++ answer ++ after)
      let r ← resolveLogged a fuel next.1 next.2
      pure (r.1, ⟨tag, answer⟩ :: r.2)

/-- Listing the answers changes nothing. -/
theorem run_resolveFrom (a : Answerer σ) (fuel : Nat) (done rest : Text) (i : Interview σ) :
    (resolveFrom a fuel done rest).run i =
      (((resolveLogged a fuel done rest).run i).1.map Prod.fst,
        ((resolveLogged a fuel done rest).run i).2) := by
  induction fuel generalizing done rest i with
  | zero => rfl
  | succ fuel ih =>
      unfold resolveFrom resolveLogged
      rcases Tag.first? rest with - | ⟨before, tag, after⟩
      · rfl
      · dsimp only
        rcases hanswer : (answerTag a tag).run i with ⟨result, j⟩
        cases result with
        | error e =>
            rw [run_bind_of_error hanswer, run_bind_of_error hanswer]
            rfl
        | ok answer =>
            obtain ⟨k, hsay⟩ : ∃ k, (say (answerRemark tag answer) : Asking σ Unit).run j =
                (.ok (), k) := ⟨_, rfl⟩
            rw [run_bind_of_ok hanswer, run_bind_of_ok hanswer, run_bind_of_ok hsay,
              run_bind_of_ok hsay, run_bind_pure]
            -- both runs go on at the same place
            by_cases hstays : answer = tag.source
            · simp only [if_pos hstays]
              rw [ih]
              cases ((resolveLogged a fuel _ _).run k).1 <;> rfl
            · simp only [if_neg hstays]
              rw [ih]
              cases ((resolveLogged a fuel _ _).run k).1 <;> rfl

/-! ## Answers of other queries -/

def Leaves (query : Text) (i j : Interview σ) : Prop :=
  Entries.get? query j.selections = Entries.get? query i.selections

theorem Leaves.refl (query : Text) (i : Interview σ) : Leaves query i i := rfl

theorem Leaves.trans {query : Text} {i j k : Interview σ} (h : Leaves query i j)
    (h' : Leaves query j k) : Leaves query i k :=
  Eq.trans h' h

section Leaving

variable {query : Text}

theorem always_bind {a : Asking σ α} {f : α → Asking σ β} (ha : Always (Leaves query) a)
    (hf : ∀ x, Always (Leaves query) (f x)) : Always (Leaves query) (a >>= f) :=
  Always.bind Leaves.trans ha hf

theorem select_leaves {name : Text} (h : name ≠ query) (parts : List Text) :
    Always (Leaves query) (select name parts : Asking σ Unit) := fun i =>
  Entries.get?_insert_of_ne parts i.selections h

theorem change_leaves (f : Memory → Except Abort Memory) :
    Always (Leaves query) (change f : Asking σ Unit) := by
  intro i
  simp only [change, Act.run]
  split <;> exact Leaves.refl query i

theorem forgetAll_leaves (tag : Tag) (cs : List Choice) :
    Always (Leaves query) (forgetAll tag cs : Asking σ Unit) := by
  induction cs with
  | nil => exact Leaves.refl query
  | cons c cs ih => exact always_bind (change_leaves _) fun _ => ih

/-- Choices with other labels leave the answer to a query. -/
theorem chooseEach_leaves {tag : Tag} (htag : tag.query ≠ query) {cs : List Choice}
    (hcs : ∀ c ∈ cs, c.label ≠ query) : Always (Leaves query) (chooseEach tag cs : Asking σ Unit) := by
  induction cs with
  | nil => exact Leaves.refl query
  | cons c cs ih =>
      rw [List.forall_mem_cons] at hcs
      have hname : selectionName tag c ≠ query := by
        unfold selectionName
        split
        · exact hcs.1
        · exact htag
      exact always_bind (select_leaves hname _) fun _ =>
        always_bind (change_leaves _) fun _ => ih hcs.2

/-- Making choices writes nothing under a name that is neither the query nor a label. -/
theorem choose_leaves {tag : Tag} (htag : tag.query ≠ query) {chosen : Option (List Choice)}
    (hlabels : ∀ cs, chosen = some cs → ∀ c ∈ cs, c.label ≠ query) :
    Always (Leaves query) (choose tag chosen : Asking σ Text) := by
  have hpure {α : Type} (x : α) : Always (Leaves query) (pure x : Asking σ α) := Leaves.refl query
  have hnothing : Always (Leaves query) (chooseNothing tag : Asking σ Text) :=
    always_bind (select_leaves htag _) fun _ => hpure _
  cases chosen with
  | none => exact hnothing
  | some cs =>
      have hcs := hlabels cs rfl
      have hmany : Always (Leaves query) (chooseMany tag cs : Asking σ Text) := by
        have hlisted : Always (Leaves query) (chooseListed tag cs : Asking σ Text) :=
          always_bind (chooseEach_leaves htag hcs) fun _ =>
            always_bind (select_leaves htag _) fun _ => hpure _
        rw [chooseMany_eq]
        split
        · exact always_bind (forgetAll_leaves tag _) fun _ => hlisted
        · exact hlisted
      simp only [choose]
      split
      · exact hnothing
      · rename_i c _ _
        exact always_bind (change_leaves _) fun _ =>
          always_bind (select_leaves (hcs c List.mem_cons_self) _) fun _ =>
            always_bind (select_leaves htag _) fun _ => hpure _
      · exact hmany

end Leaving

/-- A tag with another query has a choice that is labelled like a query. -/
def Tag.Relabels (query : Text) (tag : Tag) : Prop :=
  tag.query ≠ query ∧ ∃ c ∈ tag.choices, c.label = query

instance (query : Text) (tag : Tag) : Decidable (tag.Relabels query) :=
  inferInstanceAs (Decidable (_ ∧ _))

/-- Asking for a choice writes nothing under a name that is neither the query nor a label, if whoever
answers chooses from what is offered. -/
theorem askChoice_leaves {a : Answerer σ} (ha : a.Faithful) {tag : Tag} {query : Text}
    (htag : tag.query ≠ query) (hlabels : ∀ c ∈ tag.choices, c.label ≠ query) :
    Always (Leaves query) (askChoice a tag) := by
  intro i
  unfold askChoice
  rcases hconsult : (consult fun m => preselectAll tag m tag.choices : Asking σ _).run i with
    ⟨result, j⟩
  obtain rfl : i = j := (congrArg Prod.snd hconsult : _)
  cases result with
  | error e =>
      rw [run_bind_of_error hconsult]
      exact Leaves.refl query i
  | ok choices =>
      rw [run_bind_of_ok hconsult]
      have hpre : preselectAll tag i.desk.memory tag.choices = .ok choices := congrArg Prod.fst hconsult
      rcases hask : (ask (.choice tag.query tag.kind choices)
        (a.choice tag.query tag.kind choices)).run i with ⟨result, k⟩
      have hasked : Leaves query i k := by
        have hasking : Always (Leaves query) (ask (.choice tag.query tag.kind choices)
          (a.choice tag.query tag.kind choices)) := fun _ => rfl
        simpa only [hask] using hasking i
      cases result with
      | error e => cases hask
      | ok chosen =>
          rw [run_bind_of_ok hask]
          refine hasked.trans (choose_leaves htag ?_ k)
          -- what is chosen was offered, with labels that the tag has
          rintro cs rfl c hc
          have hanswer : (a.choice tag.query tag.kind choices i.desk.answerer).answer = some cs :=
            Except.ok.inj (congrArg Prod.fst hask)
          obtain ⟨d, hd, hlabel, -⟩ :=
            exists_of_preselectAll hpre (ha _ _ _ _ _ hanswer c hc)
          rw [hlabel]
          exact hlabels d hd

/-- Answering a tag leaves the answer of every query as it was whose tags are no others and with which
no choice is labelled. -/
theorem answerTag_leaves {a : Answerer σ} (ha : a.Faithful) {tag : Tag} {query : Text}
    (htag : tag.query ≠ query) (h : ¬ tag.Relabels query) : Always (Leaves query) (answerTag a tag) := by
  have hlabels : ∀ c ∈ tag.choices, c.label ≠ query := fun c hc hlabel => h ⟨htag, c, hc, hlabel⟩
  refine always_bind (Leaves.refl query) fun i => ?_
  split
  · exact Leaves.refl query
  · split
    · exact askChoice_leaves ha htag hlabels
    · exact always_bind (fun _ => rfl) fun _ =>
        always_bind (select_leaves htag _) fun _ => Leaves.refl query

/-! ## Answers of the query itself -/

/-- An action that writes its result down under a query, as a single part. -/
def Settling (query : Text) (a : Asking σ Text) : Prop :=
  ∀ i t j, a.run i = (.ok t, j) → Entries.get? query j.selections = some [t]

theorem Settling.bind {query : Text} {a : Asking σ α} {f : α → Asking σ Text}
    (hf : ∀ x, Settling query (f x)) : Settling query (a >>= f) := by
  intro i t j hrun
  obtain ⟨x, k, -, hrest⟩ := exists_of_run_bind hrun
  exact hf x k t j hrest

theorem select_settles (query t : Text) :
    Settling query (select query [t] >>= fun _ => pure t : Asking σ Text) := by
  intro i u j hrun
  cases hrun
  exact Entries.get?_insert_self query [t] i.selections

/-- A query that is asked has its answer as its only part, also if a choice is labelled like it. -/
theorem choose_settles (tag : Tag) (chosen : Option (List Choice)) :
    Settling tag.query (choose tag chosen : Asking σ Text) := by
  have hmany (cs : List Choice) : Settling tag.query (chooseMany tag cs : Asking σ Text) := by
    have hlisted : Settling tag.query (chooseListed tag cs : Asking σ Text) :=
      .bind fun _ => select_settles tag.query _
    rw [chooseMany_eq]
    split
    · exact .bind fun _ => hlisted
    · exact hlisted
  unfold choose
  split
  · exact select_settles tag.query []
  · split
    · exact select_settles tag.query []
    · exact .bind fun _ => .bind fun _ => select_settles tag.query _
    · exact hmany _

/-- A query without an answer has the text that takes the place of its tag as its answer afterwards. -/
theorem answerTag_settles {a : Answerer σ} {tag : Tag} {i j : Interview σ} {t : Text}
    (hnew : Entries.get? tag.query i.selections = none)
    (hrun : (answerTag a tag).run i = (.ok t, j)) :
    Entries.get? tag.query j.selections = some [t] := by
  rw [answerTag, run_bind_of_ok (run_get i), hnew] at hrun
  dsimp only at hrun
  split at hrun
  · have hchoice : Settling tag.query (askChoice a tag) :=
      .bind fun _ => .bind fun _ => choose_settles tag _
    exact hchoice i t j hrun
  · have htext : Settling tag.query (askText a tag) :=
      .bind fun _ => select_settles tag.query _
    exact htext i t j hrun

/-- A query whose answer is a single part is answered with that part, whatever the delimiter is. -/
theorem answerTag_repeats {a : Answerer σ} {tag : Tag} {i j : Interview σ} {t w : Text}
    (hold : Entries.get? tag.query i.selections = some [w])
    (hrun : (answerTag a tag).run i = (.ok t, j)) : t = w ∧ j = i := by
  rw [answerTag, run_bind_of_ok (run_get i), hold] at hrun
  cases hrun
  exact ⟨rfl, rfl⟩

/-! ## Whole runs -/

section Run

variable {a : Answerer σ} {fuel : Nat} {done rest t query : Text} {i j : Interview σ}
  {r first last : Replacement} {log front mid back : List Replacement}

/-- The first answer of a run, and the run behind it. -/
theorem exists_of_resolveLogged
    (hrun : (resolveLogged a fuel done rest).run i = (.ok (t, r :: log), j)) :
    ∃ k k' fuel' done' rest', (answerTag a r.tag).run i = (.ok r.text, k) ∧
      k'.selections = k.selections ∧
      (resolveLogged a fuel' done' rest').run k' = (.ok (t, log), j) := by
  cases fuel with
  | zero => cases hrun
  | succ fuel =>
      unfold resolveLogged at hrun
      split at hrun
      · cases hrun
      · obtain ⟨answer, k, hanswer, hrun⟩ := exists_of_run_bind hrun
        obtain ⟨_, k', hsay, hrun⟩ := exists_of_run_bind hrun
        dsimp only at hrun
        obtain ⟨later, j', hlater, hrun⟩ := exists_of_run_bind hrun
        cases hrun
        have hsaid : k'.selections = k.selections := by
          cases hsay
          rfl
        exact ⟨k, k', fuel, _, _, hanswer, hsaid, hlater⟩

/-- Once the answer to a query is a single part, it is repeated as long as no choice is made that is
labelled like the query. -/
theorem resolveLogged_repeats (ha : a.Faithful) {w : Text}
    (hold : Entries.get? query i.selections = some [w])
    (hrun : (resolveLogged a fuel done rest).run i = (.ok (t, front ++ last :: back), j))
    (hquery : last.tag.query = query) (hfront : ∀ r ∈ front, ¬ r.tag.Relabels query) :
    last.text = w := by
  induction front generalizing fuel done rest i with
  | nil =>
      obtain ⟨k, k', fuel, done, rest, hanswer, -, -⟩ := exists_of_resolveLogged hrun
      subst hquery
      exact (answerTag_repeats hold hanswer).1
  | cons r front ih =>
      rw [List.forall_mem_cons] at hfront
      obtain ⟨k, k', fuel, done, rest, hanswer, hk, hrun⟩ := exists_of_resolveLogged hrun
      have hstill : Entries.get? query k.selections = some [w] := by
        -- a tag in between either asks the same and gets the answer again, or leaves it alone
        by_cases htag : r.tag.query = query
        · subst htag
          rw [(answerTag_repeats hold hanswer).2]
          exact hold
        · have hleaves : Leaves query i k := by
            simpa only [hanswer] using answerTag_leaves ha htag hfront.1 i
          exact Eq.trans hleaves hold
      exact ih (hk ▸ hstill) hrun hfront.2

/-- A query without an answer is asked once, and from then on repeated in this way. -/
theorem resolveLogged_agrees (ha : a.Faithful) (hnew : Entries.get? query i.selections = none)
    (hrun : (resolveLogged a fuel done rest).run i =
      (.ok (t, front ++ first :: (mid ++ last :: back)), j))
    (hfirst : first.tag.query = query) (hlast : last.tag.query = query)
    (hfront : ∀ r ∈ front, ¬ r.tag.Relabels query) (hmid : ∀ r ∈ mid, ¬ r.tag.Relabels query) :
    last.text = first.text := by
  induction front generalizing fuel done rest i with
  | nil =>
      obtain ⟨k, k', fuel, done, rest, hanswer, hk, hrun⟩ := exists_of_resolveLogged hrun
      subst hfirst
      -- the first tag asks; whatever is answered is repeated from here on
      have hsettled := answerTag_settles hnew hanswer
      exact resolveLogged_repeats ha (hk ▸ hsettled) hrun hlast hmid
  | cons r front ih =>
      rw [List.forall_mem_cons] at hfront
      obtain ⟨k, k', fuel, done, rest, hanswer, hk, hrun⟩ := exists_of_resolveLogged hrun
      by_cases htag : r.tag.query = query
      · -- both tags repeat the answer that was given here
        have hsettled : Entries.get? query k'.selections = some [r.text] := by
          subst htag
          exact hk ▸ answerTag_settles hnew hanswer
        have hbetween : ∀ r ∈ front ++ first :: mid, ¬ r.tag.Relabels query := by
          intro r hr
          rcases List.mem_append.1 hr with hr | hr
          · exact hfront.2 r hr
          · rcases List.mem_cons.1 hr with rfl | hr
            · exact fun h => h.1 hfirst
            · exact hmid r hr
        have hlater : (resolveLogged a fuel done rest).run k' =
            (.ok (t, (front ++ first :: mid) ++ last :: back), j) := by
          simpa using hrun
        calc
          last.text = r.text := resolveLogged_repeats ha hsettled hlater hlast hbetween
          _ = first.text := (resolveLogged_repeats ha hsettled hrun hfirst hfront.2).symm
      · have hleaves : Leaves query i k := by
          simpa only [hanswer] using answerTag_leaves ha htag hfront.1 i
        -- the query is still without an answer behind a tag that asks something else
        have hstill : Entries.get? query k.selections = none := Eq.trans hleaves hnew
        exact ih (hk ▸ hstill) hrun hfront.2

end Run

/-- All tags of a run with the same query are replaced by the same text, if nothing was answered before
and no choice that is labelled like the query was offered by a tag with another query in front of the
later one. -/
theorem same_query_same_answer {a : Answerer σ} (ha : a.Faithful) {message t : Text}
    {i j : Interview σ} (hempty : i.selections = [])
    (hrun : (resolve a message).run i = (.ok t, j)) :
    ∃ log k, (resolveLogged a answerLimit [] message).run i = (.ok (t, log), k) ∧
      ∀ front first mid last back, log = front ++ first :: (mid ++ last :: back) →
        last.tag.query = first.tag.query →
        (∀ r ∈ front ++ mid, ¬ r.tag.Relabels first.tag.query) → last.text = first.text := by
  obtain ⟨answered, k, hfirst, hrun⟩ := exists_of_run_bind hrun
  obtain ⟨_, k', -, hrun⟩ := exists_of_run_bind hrun
  cases hrun
  -- the run that keeps a log is the same run
  rw [run_resolveFrom] at hfirst
  rcases hlogged : (resolveLogged a answerLimit [] message).run i with ⟨result, l⟩
  rw [hlogged] at hfirst
  cases result with
  | error e => cases hfirst
  | ok x =>
      rcases x with ⟨u, log⟩
      cases hfirst
      refine ⟨log, _, rfl, ?_⟩
      rintro front first mid last back rfl hquery hrelabels
      have hnew : Entries.get? first.tag.query i.selections = none := by
        rw [hempty]
        rfl
      exact resolveLogged_agrees ha hnew hlogged rfl hquery
        (fun r hr => hrelabels r (List.mem_append_left _ hr))
        (fun r hr => hrelabels r (List.mem_append_right _ hr))

def preparedAnswers : Script where
  texts := [("A".toList, some "x".toList)]
  choices := [("Q".toList, some (.positions [1]))]

def unanswered : Interview Unit := ⟨⟨(), [], ⟨"choices".toList, []⟩, .memory [], []⟩, []⟩

/-- A query on both sides of a choice with another label. -/
theorem same_query_same_answer_beside_choice :
    let a := preparedAnswers.answerer
    let message := "?\x7bA\x7d ?\x7bQ|B,1\x7d ?\x7b[checkbox|;]A|C,2\x7d".toList
    a.Faithful ∧ unanswered.selections = [] ∧
      ∃ t j, (resolve a message).run unanswered = (.ok t, j) ∧
        ∃ log k, (resolveLogged a answerLimit [] message).run unanswered = (.ok (t, log), k) ∧
          ∀ front first mid last back, log = front ++ first :: (mid ++ last :: back) →
            last.tag.query = first.tag.query →
            (∀ r ∈ front ++ mid, ¬ r.tag.Relabels first.tag.query) → last.text = first.text := by
  intro a message
  have hok : ((resolve a message).run unanswered).1.toOption.isSome = true := by decide +kernel
  rcases hrun : (resolve a message).run unanswered with ⟨result, j⟩
  rw [hrun] at hok
  cases result with
  | error e => cases hok
  | ok t =>
      exact ⟨preparedAnswers.answerer_faithful, rfl, t, j, rfl,
        same_query_same_answer preparedAnswers.answerer_faithful rfl hrun⟩

def Replacement.short (r : Replacement) : Text × Text := (r.tag.query, r.text)

/-- Between two tags with one query, a choice is made that is labelled like the query. The later tag is
replaced by the value of that choice. -/
theorem same_query_other_answer :
    let message := "?\x7bA\x7d ?\x7bQ|A,1\x7d ?\x7bA\x7d".toList
    ((resolve preparedAnswers.answerer message).run unanswered).1.toOption = some "x 1 1".toList ∧
      (((resolveLogged preparedAnswers.answerer answerLimit [] message).run unanswered).1.toOption.map
        fun x => x.2.map Replacement.short) =
        some [("A".toList, "x".toList), ("Q".toList, "1".toList), ("A".toList, "1".toList)] := by
  decide +kernel

end Prompt

end TabletopChat
