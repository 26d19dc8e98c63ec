import TabletopChat.Proofs.Prompt.Atoms
import TabletopChat.Proofs.Text.Numeral
import TabletopChat.Proofs.Prompt.Repeating
import TabletopChat.Regex.Splicing

/-!
# Proofs/Prompt/Segments — the parts of a choice, and the references to them

The value of a choice has parts between its commas. They are written down under a name, the first one is
written down as the answer to the query, and a reference finds a part by the name and its number. Where
the name is the query itself, the answer takes the place of the parts, and only the first one is left.

- `referenceTo`         : a reference to a part by its number
- `choiceName`          : the name of the parts of a choice
- `Tag.kept`            : the parts that are left under that name
- `Confirms`            : a choice is the only one that is made
- `segments_referenced` : a message that is a tag with choices, and the references to the one that was made
-/

namespace TabletopChat

namespace Text

/-! ## Integers -/

/-- A run of digits is a numeral. -/
theorem isNumeral_of_digits {ds : Text} (h : ∀ c ∈ ds, c.isDigit = true) (hne : ds ≠ []) (b : Bool) :
    isNumeral b ds = true := by
  induction ds generalizing b with
  | nil => exact absurd rfl hne
  | cons c cs ih =>
      rw [List.forall_mem_cons] at h
      rw [isNumeral, if_pos (isDigit_of_isDigit h.1)]
      cases cs with
      | nil => rfl
      | cons d ds => exact ih h.2 (List.cons_ne_nil d ds) true

/-- A numeral is read as its number, unless it has too many digits. -/
theorem toNat?_ofNat (n : Nat) :
    toNat? (ofNat n) = if (ofNat n).length ≤ maxNumeral then some n else none := by
  have hdigits : ∀ c ∈ ofNat n, c.isDigit = true := fun c => isDigit_of_mem_ofNat
  have hfilter : (ofNat n).filter isDigit = ofNat n :=
    List.filter_eq_self.mpr fun c hc => isDigit_of_isDigit (hdigits c hc)
  simp [toNat?, isNumeral_of_digits hdigits (ofNat_ne_nil n), hfilter]

end Text

namespace Prompt

open Act

variable {σ : Type}

/-! ## References -/

def referenceTo (label : Text) (number : Nat) : Text :=
  '?' :: '\x7b' :: ':' :: label ++ '|' :: Text.ofNat number ++ ['\x7d']

/-- A name that references can write: it is not blank, and holds no bar and no braces. -/
structure Referable (label : Text) : Prop where
  nonblank : Text.allBlank label = false
  unmarked : ∀ c ∈ label, c ≠ '|' ∧ c ≠ '\x7b' ∧ c ≠ '\x7d'

theorem referable_iff {label : Text} : Referable label ↔
    Text.allBlank label = false ∧ label.all (fun c => c ≠ '|' ∧ c ≠ '\x7b' ∧ c ≠ '\x7d') = true := by
  rw [List.all_eq_true]
  simp only [decide_eq_true_eq]
  exact ⟨fun h => ⟨h.nonblank, h.unmarked⟩, fun h => ⟨h.1, h.2⟩⟩

instance (label : Text) : Decidable (Referable label) := decidable_of_iff' _ referable_iff

/-- The number of a part as it is read: one with too many digits means the first part. -/
theorem indexOf_ofNat (n : Nat) :
    indexOf (Text.ofNat n) = if (Text.ofNat n).length ≤ Text.maxNumeral then n else 1 := by
  have hstrip : Text.strip (Text.ofNat n) = Text.ofNat n :=
    Text.stripBy_ofNat (fun _ => Text.isBlank_of_isDigit) n
  have hread : Text.toInt? (Text.ofNat n) = (Text.toNat? (Text.ofNat n)).map Int.ofNat := by
    unfold Text.toInt?
    rw [Text.stripBy_ofNat (fun c hc => by simp [Text.isNumeralBlank, Text.isBlank_of_isDigit hc])]
    split
    · rename_i hminus
      exact absurd (Text.isDigit_of_mem_ofNat (hminus ▸ List.mem_cons_self)) (by decide)
    · rename_i hplus
      exact absurd (Text.isDigit_of_mem_ofNat (hplus ▸ List.mem_cons_self)) (by decide)
    · rfl
  rw [indexOf, hstrip, hread, Text.toNat?_ofNat]
  split <;> rfl

/-- A numeral in front of the closing brace, as atoms. -/
theorem span_ofNat (n : Nat) :
    Atom.span (Text.ofNat n ++ ['\x7d']) = ((Text.ofNat n).map .plain, ['\x7d']) := by
  have hnumeral : ∀ c ∈ Text.ofNat n, noBrace c = true := by
    intro c hc
    have hdigit := Text.isDigit_of_mem_ofNat hc
    have hopen : c ≠ '\x7b' := by
      rintro rfl
      exact absurd hdigit (by decide)
    have hclose : c ≠ '\x7d' := by
      rintro rfl
      exact absurd hdigit (by decide)
    simp [noBrace, hopen, hclose]
  have hspan := Atom.span_append (e := ['\x7d']) (written_plain hnumeral) rfl
  rwa [sourceOf_plain] at hspan

/-- A reference is read as a whole. -/
theorem reference?_referenceTo {label : Text} (h : Referable label) (n : Nat) :
    reference? (referenceTo label n) = some (⟨Text.strip label, indexOf (Text.ofNat n)⟩, []) := by
  have hne : label ≠ [] := by
    rintro rfl
    cases h.nonblank
  have hcut := takeWhile_dropWhile_append (p := fun c => decide (c ≠ '|') && decide (c ≠ '\x7d'))
    (t := '|' :: (Text.ofNat n ++ ['\x7d'])) (fun c (hc : c ∈ label) => by simp [h.unmarked c hc]) (by simp)
  have hsource : referenceTo label n =
      '?' :: '\x7b' :: ':' :: (label ++ '|' :: (Text.ofNat n ++ ['\x7d'])) := by
    simp [referenceTo]
  simp only [hsource, reference?, hcut.1, hcut.2, if_neg hne, span_ofNat, sourceOf_plain]

/-- What a reference to a part by its number is replaced by. -/
theorem substitute_referenceTo {label : Text} (h : Referable label) {s : Selections} {parts : List Text}
    (hparts : Entries.get? (Text.strip label) s = some parts) (n : Nat) :
    substitute (referenceTo label (n + 1)) s =
      parts.getD (if (Text.ofNat (n + 1)).length ≤ Text.maxNumeral then n else 0) [] := by
  rw [substitute, Text.replaceTags_whole _ (reference?_referenceTo h (n + 1)) (List.cons_ne_nil _ _),
    indexOf_ofNat]
  by_cases hlength : (Text.ofNat (n + 1)).length ≤ Text.maxNumeral
  · rw [if_pos hlength, if_pos hlength]
    simp only [Selections.resolve, hparts]
  · rw [if_neg hlength, if_neg hlength]
    simp only [Selections.resolve, hparts]

/-! ## Names that a tag writes -/

/-- A tag is put together from the atoms between its braces. -/
theorem Tag.exists_of_read? {t rest : Text} {tag : Tag} (h : Tag.read? t = some (tag, rest)) :
    ∃ head source as, Tag.ofAtoms? head source as = some tag := by
  unfold Tag.read? at h
  split at h
  · obtain ⟨read, hread, heq⟩ := Option.map_eq_some_iff.1 h
    cases heq
    unfold Tag.ofInner? at hread
    split at hread
    · cases hread
    · split at hread
      · rename_i headed hheaded
        cases hread
        unfold Tag.headed? at hheaded
        split at hheaded
        · obtain ⟨as, -, hatoms⟩ := Option.bind_eq_some_iff.1 hheaded
          exact ⟨_, _, as, hatoms⟩
        · cases hheaded
      · obtain ⟨as, -, hatoms⟩ := Option.bind_eq_some_iff.1 hread
        exact ⟨_, _, as, hatoms⟩
  · cases h

/-- Queries and labels have no blanks at their ends. -/
theorem Tag.strip_of_read? {t rest : Text} {tag : Tag} (h : Tag.read? t = some (tag, rest)) :
    Text.strip tag.query = tag.query ∧ ∀ c ∈ tag.choices, Text.strip c.label = c.label := by
  obtain ⟨head, source, as, hatoms⟩ := Tag.exists_of_read? h
  unfold Tag.ofAtoms? at hatoms
  split at hatoms
  · cases hatoms
    refine ⟨Text.strip_strip _, fun c hc => ?_⟩
    obtain ⟨item, -, rfl⟩ := List.mem_map.1 hc
    unfold Choice.ofItem
    split <;> exact Text.strip_strip _
  · cases hatoms

/-! ## Making a choice -/

/-- The name under which the parts of a choice are written down: its label in a list or among boxes, and
otherwise the query. -/
def choiceName (tag : Tag) (c : Choice) : Text :=
  match tag.kind with
  | .list => c.label
  | .checkbox => c.label
  | _ => tag.query

/-- The name of a choice has no blanks at its ends. -/
theorem strip_choiceName {t rest : Text} {tag : Tag} {c : Choice} (h : Tag.read? t = some (tag, rest))
    (hoffered : ∃ d ∈ tag.choices, c.label = d.label) :
    Text.strip (choiceName tag c) = choiceName tag c := by
  obtain ⟨hquery, hlabels⟩ := Tag.strip_of_read? h
  obtain ⟨d, hd, hlabel⟩ := hoffered
  have hstrip : Text.strip c.label = c.label := hlabel ▸ hlabels d hd
  unfold choiceName
  split
  · exact hstrip
  · exact hstrip
  · exact hquery

def Tag.kept (tag : Tag) (c : Choice) : List Text :=
  if choiceName tag c = tag.query then [c.mainPart] else c.parts

/-- Two names that are written down one after the other. -/
theorem get?_select_twice (tag : Tag) (c : Choice) (s : Selections) :
    Entries.get? (choiceName tag c)
      (Entries.insert tag.query [c.mainPart] (Entries.insert (choiceName tag c) c.parts s)) =
      some (tag.kept c) := by
  unfold Tag.kept
  split
  · rename_i hname
    rw [hname, Entries.get?_insert_self]
  · rename_i hname
    rw [Entries.get?_insert_of_ne _ _ (Ne.symm hname), Entries.get?_insert_self]

theorem change_selections {f : Memory → Except Abort Memory} {i j : Interview σ} {u : Unit}
    (hrun : (change f : Asking σ Unit).run i = (.ok u, j)) : j.selections = i.selections := by
  simp only [change, Act.run] at hrun
  split at hrun <;> cases hrun
  rfl

/-- A single choice answers with its first part, and leaves its parts under its name. -/
theorem choose_single {tag : Tag} {c : Choice} {i j : Interview σ} {t : Text}
    (hrun : (choose tag (some [c])).run i = (.ok t, j)) :
    t = c.mainPart ∧ Entries.get? (choiceName tag c) j.selections = some (tag.kept c) := by
  have hlisted (hkind : tag.kind ≠ .list) {i : Interview σ}
      (hrun : (chooseListed tag [c]).run i = (.ok t, j)) :
      t = c.mainPart ∧ Entries.get? (choiceName tag c) j.selections = some (tag.kept c) := by
    obtain ⟨_, k, heach, hrun⟩ := exists_of_run_bind hrun
    obtain ⟨_, l, hselect, heach⟩ := exists_of_run_bind heach
    obtain ⟨_, m, hchange, heach⟩ := exists_of_run_bind heach
    cases heach
    cases hrun
    cases hselect
    have hm := change_selections hchange
    -- only a choice from a list is written down under a name of its own
    have hname : selectionName tag c = choiceName tag c := by
      cases hkind' : tag.kind with
      | list => exact absurd hkind' hkind
      | checkbox | radio | other _ => simp only [selectionName, choiceName, hkind']
    have hjoined : Text.joinWith tag.delimiter ([c].map Choice.mainPart) = c.mainPart := rfl
    refine ⟨hjoined, ?_⟩
    simp only [hjoined, hm, hname]
    exact get?_select_twice tag c i.selections
  have hmany (hkind : tag.kind ≠ .list) (hrun : (chooseMany tag [c]).run i = (.ok t, j)) :
      t = c.mainPart ∧ Entries.get? (choiceName tag c) j.selections = some (tag.kept c) := by
    -- what boxes forget first touches no selections
    rw [chooseMany_eq] at hrun
    split at hrun
    · obtain ⟨_, k, -, hrun⟩ := exists_of_run_bind hrun
      exact hlisted hkind hrun
    · exact hlisted hkind hrun
  cases hkind : tag.kind with
  | list =>
      simp only [choose, hkind] at hrun
      obtain ⟨_, k, -, hrun⟩ := exists_of_run_bind hrun
      cases hrun
      have hname : choiceName tag c = c.label := by simp only [choiceName, hkind]
      exact ⟨rfl, hname ▸ get?_select_twice tag c k.selections⟩
  | checkbox | radio | other _ =>
      simp only [choose, hkind] at hrun
      exact hmany (by simp [hkind]) hrun

/-! ## Messages -/

/-- Whoever answers makes this one choice, whatever is preselected. -/
def Confirms (a : Answerer σ) (tag : Tag) (c : Choice) (i : Interview σ) : Prop :=
  ∀ choices, preselectAll tag i.desk.memory tag.choices = .ok choices →
    (a.choice tag.query tag.kind choices i.desk.answerer).answer = some [c]

section Run

variable {a : Answerer σ} {tag : Tag} {c : Choice} {i j : Interview σ} {t : Text}

/-- A tag with choices is asked if there is no answer yet, and the choice that is made, which is one of
them, leaves its parts. -/
theorem answerTag_confirmed (ha : a.Faithful) (hnew : Entries.get? tag.query i.selections = none)
    (hchoice : tag.isChoice = true) (hconfirms : Confirms a tag c i)
    (hrun : (answerTag a tag).run i = (.ok t, j)) :
    (∃ d ∈ tag.choices, c.label = d.label) ∧ t = c.mainPart ∧
      Entries.get? (choiceName tag c) j.selections = some (tag.kept c) := by
  rw [answerTag, run_bind_of_ok (run_get i), hnew] at hrun
  simp only [hchoice, if_true] at hrun
  obtain ⟨choices, k, hconsult, hrun⟩ := exists_of_run_bind hrun
  obtain ⟨chosen, l, hask, hrun⟩ := exists_of_run_bind hrun
  obtain rfl : i = k := congrArg Prod.snd hconsult
  have hpreselected : preselectAll tag i.desk.memory tag.choices = .ok choices :=
    congrArg Prod.fst hconsult
  have hanswer : (a.choice tag.query tag.kind choices i.desk.answerer).answer = chosen :=
    Except.ok.inj (congrArg Prod.fst hask)
  have hconfirmed := hconfirms choices hpreselected
  -- marking what is remembered changes no label
  obtain ⟨d, hd, hlabel, -⟩ := exists_of_preselectAll hpreselected
    (ha _ _ _ _ _ hconfirmed c (List.mem_singleton.mpr rfl))
  rw [hconfirmed] at hanswer
  subst hanswer
  exact ⟨⟨d, hd, hlabel⟩, choose_single hrun⟩

/-- What is written down under a name stays there as long as no choice is made that is labelled with the
name. -/
theorem resolveLogged_keeps (ha : a.Faithful) {name : Text} {parts : List Text} {log : List Replacement}
    {fuel : Nat} {done rest : Text} (hold : Entries.get? name i.selections = some parts)
    (hrun : (resolveLogged a fuel done rest).run i = (.ok (t, log), j))
    (hlog : ∀ r ∈ log, ¬ r.tag.Relabels name) : Entries.get? name j.selections = some parts := by
  induction log generalizing fuel done rest i with
  | nil =>
      cases fuel with
      | zero =>
          cases hrun
          exact hold
      | succ fuel =>
          unfold resolveLogged at hrun
          split at hrun
          · cases hrun
            exact hold
          · obtain ⟨_, _, -, hrun⟩ := exists_of_run_bind hrun
            obtain ⟨_, _, -, hrun⟩ := exists_of_run_bind hrun
            obtain ⟨_, _, -, hrun⟩ := exists_of_run_bind hrun
            cases hrun
  | cons r log ih =>
      rw [List.forall_mem_cons] at hlog
      obtain ⟨k, k', fuel, done, rest, hanswer, hk, hrun⟩ := exists_of_resolveLogged hrun
      have hstill : Entries.get? name k.selections = some parts := by
        by_cases htag : r.tag.query = name
        · -- a query that has an answer is not asked again
          rw [answerTag, run_bind_of_ok (run_get i), htag, hold] at hanswer
          obtain rfl : i = k := congrArg Prod.snd hanswer
          exact hold
        · have hleaves : Leaves name i k := by
            simpa only [hanswer] using answerTag_leaves ha htag hlog.1 i
          exact Eq.trans hleaves hold
      exact ih (hk ▸ hstill) hrun hlog.2

theorem Tag.first?_of_read {t rest : Text} (h : Tag.read? t = some (tag, rest)) :
    Tag.first? t = some ([], tag, rest) := by
  cases t with
  | nil => cases h
  | cons c cs => rw [Tag.first?, h]

/-- Saving changes nothing about what was answered. -/
theorem save_selections {u : Unit} (hrun : (save : Asking σ Unit).run i = (.ok u, j)) :
    j.selections = i.selections := by
  rw [save, run_bind_of_ok (run_get i)] at hrun
  obtain ⟨_, k, hsay, hrun⟩ := exists_of_run_bind hrun
  cases hsay
  split at hrun <;> cases hrun
  rfl

/-- The first answer of a run, if there is a tag to answer, and the run behind it. -/
theorem exists_of_first {fuel : Nat} {done rest before after : Text} {log : List Replacement}
    (hfirst : Tag.first? rest = some (before, tag, after))
    (hrun : (resolveLogged a (fuel + 1) done rest).run i = (.ok (t, log), j)) :
    ∃ answer later k k' done' rest', (answerTag a tag).run i = (.ok answer, k) ∧
      k'.selections = k.selections ∧ log = ⟨tag, answer⟩ :: later ∧
      (resolveLogged a fuel done' rest').run k' = (.ok (t, later), j) := by
  unfold resolveLogged at hrun
  rw [hfirst] at hrun
  obtain ⟨answer, k, hanswer, hrun⟩ := exists_of_run_bind hrun
  obtain ⟨_, k', hsay, hrun⟩ := exists_of_run_bind hrun
  dsimp only at hrun
  obtain ⟨⟨u, later⟩, j', hlater, hrun⟩ := exists_of_run_bind hrun
  cases hrun
  have hsaid : k'.selections = k.selections := by
    cases hsay
    rfl
  exact ⟨answer, later, k, k', _, _, hanswer, hsaid, rfl, hlater⟩

end Run

/-- After a message that is a tag with choices was answered by a single choice, a reference to one of
its parts is replaced by this part, and by nothing if there are less parts, unless the name of the parts is
the query itself: then only the first part is left. A number with too many digits means the first part. This
holds as long as no tag in the answer asks for a choice that is labelled with the same name. -/
theorem segments_referenced {a : Answerer σ} (ha : a.Faithful) {message t : Text} {tag : Tag}
    {c : Choice} {i j : Interview σ} (hempty : i.selections = [])
    (hmessage : Tag.read? message = some (tag, [])) (hchoice : tag.isChoice = true)
    (hconfirms : Confirms a tag c i) (hname : Referable (choiceName tag c))
    (hrun : (resolve a message).run i = (.ok t, j)) :
    ∃ later k, (resolveLogged a answerLimit [] message).run i = (.ok (t, ⟨tag, c.mainPart⟩ :: later), k) ∧
      ((∀ r ∈ later, ¬ r.tag.Relabels (choiceName tag c)) → ∀ n,
        substitute (referenceTo (choiceName tag c) (n + 1)) j.selections =
          (tag.kept c).getD (if (Text.ofNat (n + 1)).length ≤ Text.maxNumeral then n else 0) []) := by
  obtain ⟨answered, k, hfirst, hrun⟩ := exists_of_run_bind hrun
  obtain ⟨_, k', hsave, hrun⟩ := exists_of_run_bind hrun
  obtain ⟨rfl, rfl⟩ : answered = t ∧ k' = j := by
    cases hrun
    exact ⟨rfl, rfl⟩
  rw [run_resolveFrom] at hfirst
  rcases hlogged : (resolveLogged a answerLimit [] message).run i with ⟨result, l⟩
  rw [hlogged] at hfirst
  cases result with
  | error e => cases hfirst
  | ok x =>
      rcases x with ⟨u, log⟩
      cases hfirst
      obtain ⟨answer, later, k₁, k₂, done, rest, hanswer, hk, rfl, hlater⟩ :=
        exists_of_first (Tag.first?_of_read hmessage) hlogged
      have hnew : Entries.get? tag.query i.selections = none := by
        rw [hempty]
        rfl
      obtain ⟨hoffered, rfl, hkept⟩ := answerTag_confirmed ha hnew hchoice hconfirms hanswer
      refine ⟨later, _, rfl, fun hrelabels n => ?_⟩
      -- the tags that the answer brings in come after it, so they cannot take its parts away
      have hstill := resolveLogged_keeps ha (hk ▸ hkept) hlater hrelabels
      rw [← save_selections hsave, ← strip_choiceName hmessage hoffered] at hstill
      exact substitute_referenceTo hname hstill n

/-- The value of a label in a list: the second part, and one that there is not. -/
theorem segments_referenced_list :
    let a := preparedAnswers.answerer
    let message := "?\x7bQ|a,x,y\x7d".toList
    ∃ j, (resolve a message).run unanswered = (.ok "x".toList, j) ∧
      substitute (referenceTo "a".toList 2) j.selections = "y".toList ∧
      substitute (referenceTo "a".toList 3) j.selections = [] := by
  intro a message
  let tag : Tag := ⟨message, .list, "Q".toList, [⟨"a".toList, "x,y".toList, false⟩], [], standardDelimiter⟩
  let c : Choice := ⟨"a".toList, "x,y".toList, false⟩
  have hread : Tag.read? message = some (tag, []) := by decide +kernel
  have hconfirms : Confirms a tag c unanswered := by
    intro choices hchoices
    cases hchoices
    rfl
  have hname : Referable (choiceName tag c) := by decide
  have hlog : ((resolveLogged a answerLimit [] message).run unanswered).1.toOption =
      some ("x".toList, [⟨tag, "x".toList⟩]) := by decide +kernel
  have hok : ((resolve a message).run unanswered).1.toOption = some "x".toList := by decide +kernel
  rcases hrun : (resolve a message).run unanswered with ⟨result, j⟩
  rw [hrun] at hok
  cases result with
  | error e => cases hok
  | ok t =>
      cases hok
      obtain ⟨later, k, hlogged, hparts⟩ := segments_referenced preparedAnswers.answerer_faithful rfl hread
        rfl hconfirms hname hrun
      rw [hlogged] at hlog
      cases hlog
      have hparts := hparts (List.forall_mem_nil _)
      exact ⟨j, rfl, (hparts 1).trans (by decide +kernel), (hparts 2).trans (by decide +kernel)⟩

/-- Among choices that exclude each other, the parts are written down under the query, where the answer
takes their place: the second part of a value with two parts is not found. -/
theorem second_segment_lost :
    let a := preparedAnswers.answerer
    let message := "?\x7b[radio]Q|a,x,y\x7d".toList
    let tag : Tag :=
      ⟨message, .radio, "Q".toList, [⟨"a".toList, "x,y".toList, false⟩], [], standardDelimiter⟩
    let c : Choice := ⟨"a".toList, "x,y".toList, false⟩
    Tag.read? message = some (tag, []) ∧ Confirms a tag c unanswered ∧ c.parts = ["x".toList, "y".toList] ∧
      ∃ j, (resolve a message).run unanswered = (.ok "x".toList, j) ∧
        substitute (referenceTo tag.query 2) j.selections = [] := by
  intro a message tag c
  have hconfirms : Confirms a tag c unanswered := by
    intro choices hchoices
    cases hchoices
    rfl
  have hok : ((resolve a message).run unanswered).1.toOption = some "x".toList := by decide +kernel
  have hempty : substitute (referenceTo tag.query 2) ((resolve a message).run unanswered).2.selections = [] := by
    decide +kernel
  rcases hrun : (resolve a message).run unanswered with ⟨result, j⟩
  rw [hrun] at hok hempty
  cases result with
  | error e => cases hok
  | ok t =>
      cases hok
      exact ⟨by decide +kernel, hconfirms, by decide +kernel, j, rfl, hempty⟩

end Prompt

end TabletopChat
