import TabletopChat.Proofs.Evaluation.Postorder
import TabletopChat.Regex.Splicing

/-!
# Proofs/Evaluation/Overwriting — results that are written over

The names that rolls write and the numbers that are given to the others are names of one kind, and a
result is written over when another one comes under its name. A roll that takes a number can do this to
the result of a roll with a name only if the name is that number. As numbers go up, only a roll that
writes a number as its name can do this to the result of a roll that took it.

- `BreaksOff`, `Goes`   : the rolls that an evaluation goes through, also if it breaks off before its end
- `Chain.get?_of_last` : the last result under a name is kept
- `referenceTo`         : a reference to a result
- `results_stay_unless_renamed` : messages
-/

namespace TabletopChat

namespace Act

variable {ε σ α β : Type}

/-- What stops stops in one of its parts. -/
theorem stops_of_run_bind {a : Act ε σ α} {f : α → Act ε σ β} {s s' : σ} {e : ε}
    (h : (a >>= f).run s = (.error e, s')) :
    a.run s = (.error e, s') ∨ ∃ x t, a.run s = (.ok x, t) ∧ (f x).run t = (.error e, s') := by
  rcases ha : a.run s with ⟨result, t⟩
  cases result with
  | ok x => exact .inr ⟨x, t, rfl, run_bind_of_ok ha ▸ h⟩
  | error e' =>
      rw [run_bind_of_error ha] at h
      cases h
      exact .inl rfl

end Act

namespace Evaluation

open Text Markup Diagnostics

variable {roller : Roller} {s t u s' : State} {v w : Visit} {vs : List Visit} {ns : List Node}

/-! ## Evaluations that stop -/

/-- An evaluation of nodes breaks off: the rolls that it has gone through, and the state that it leaves
behind. -/
inductive BreaksOff (roller : Roller) : State → List Node → List Visit → State → Prop
  /-- the roll in front has no result -/
  | here {s u s' : State} {kind : Kind} {closed : Bool} {es : List Evaluated} {span : Span}
      {ns : List Node} {e : Abort} :
      Chain roller s (visitsOf es) u →
      (interpret roller (.node kind) (es.flatMap Evaluated.result)).run u = (.error e, s') →
      BreaksOff roller s (.roll kind closed (nodesOf es) span :: ns) (visitsOf es) s'
  | inside {s s' : State} {kind : Kind} {closed : Bool} {children : List Node} {span : Span}
      {ns : List Node} {vs : List Visit} :
      BreaksOff roller s children vs s' → BreaksOff roller s (.roll kind closed children span :: ns) vs s'
  | behind {s t s' : State} {e : Evaluated} {ns : List Node} {vs : List Visit} :
      Chain roller s e.visits t → BreaksOff roller t ns vs s' →
      BreaksOff roller s (e.node :: ns) (e.visits ++ vs) s'

/-- An evaluation of nodes goes through rolls until it ends or breaks off. -/
def Goes (roller : Roller) (s : State) (ns : List Node) (vs : List Visit) (s' : State) : Prop :=
  (∃ es, nodesOf es = ns ∧ visitsOf es = vs ∧ Chain roller s vs s') ∨ BreaksOff roller s ns vs s'

mutual

/-- If a node stops, the rolls in front of the one that stops have results. -/
theorem evaluateNode_stops (n : Node) (ns : List Node) {s s' : State} {e : Abort}
    (hrun : (evaluateNode roller n).run s = (.error e, s')) : ∃ vs, BreaksOff roller s (n :: ns) vs s' := by
  cases n with
  | text u span => cases hrun
  | roll kind closed children span =>
      rcases Act.stops_of_run_bind hrun with hchildren | ⟨expression, u, hchildren, hstop⟩
      · obtain ⟨vs, hstops⟩ := evaluateNodes_stops children hchildren
        exact ⟨vs, .inside hstops⟩
      · obtain ⟨es, rfl, rfl, hchain⟩ := evaluateNodes_chain children hchildren
        exact ⟨visitsOf es, .here hchain hstop⟩

/-- Nodes that stop break off at one of them. -/
theorem evaluateNodes_stops (ns : List Node) {s s' : State} {e : Abort}
    (hrun : (evaluateNodes roller ns).run s = (.error e, s')) : ∃ vs, BreaksOff roller s ns vs s' := by
  cases ns with
  | nil => cases hrun
  | cons n ns =>
      rcases Act.stops_of_run_bind hrun with hfirst | ⟨t, u, hfirst, hbehind⟩
      · exact evaluateNode_stops n ns hfirst
      · obtain ⟨first, rfl, -, hchain⟩ := evaluateNode_chain n hfirst
        rcases Act.stops_of_run_bind hbehind with hrest | ⟨ts, w, -, hdone⟩
        · obtain ⟨vs, hstops⟩ := evaluateNodes_stops ns hrest
          exact ⟨first.visits ++ vs, .behind hchain hstops⟩
        · cases hdone

end

/-- And so do the nodes of a message. -/
theorem evaluateTop_stops (tooltips : Bool) (ns : List Node) {s s' : State} {e : Abort}
    (hrun : (evaluateTop roller tooltips ns).run s = (.error e, s')) : ∃ vs, BreaksOff roller s ns vs s' := by
  induction ns generalizing s with
  | nil => cases hrun
  | cons n ns ih =>
      rcases Act.stops_of_run_bind hrun with hfirst | ⟨t, u, hfirst, hbehind⟩
      · exact evaluateNode_stops n ns hfirst
      · obtain ⟨first, rfl, -, hchain⟩ := evaluateNode_chain n hfirst
        rcases Act.stops_of_run_bind hbehind with hrest | ⟨ts, w, -, hdone⟩
        · obtain ⟨vs, hstops⟩ := ih hrest
          exact ⟨first.visits ++ vs, .behind hchain hstops⟩
        · cases hdone

/-- Every evaluation of a message goes through rolls. -/
theorem evaluateRolls_goes (settings : Settings) (message : Text) (s : State) :
    ∃ vs, Goes settings.roller s (parse settings.inlineMath message).children vs
      ((evaluateRolls settings message).run s).2 := by
  rcases hrun : (evaluateRolls settings message).run s with ⟨result, s'⟩
  cases result with
  | ok t =>
      obtain ⟨es, hnodes, -, hchain⟩ := evaluateTop_chain _ _ hrun
      exact ⟨visitsOf es, .inl ⟨es, hnodes, rfl, hchain⟩⟩
  | error e =>
      obtain ⟨vs, hstops⟩ := evaluateTop_stops _ _ hrun
      exact ⟨vs, .inr hstops⟩

/-- An expression that stops is live, and it takes its name before it does. -/
theorem stops_of_interpret {kind : Kind} {source : Text} {e : Abort}
    (hrun : (interpret roller (.node kind) source).run s = (.error e, s')) :
    allBlank (explicitName source).2 = false ∧
      ∃ name t, (chooseName (explicitName source).1).run s = (.ok name, t) ∧
        (produce roller (explicitName source).2 kind).run t = (.error e, s') := by
  unfold interpret at hrun
  dsimp only at hrun
  split at hrun
  · cases hrun
  · rename_i hlive
    refine ⟨by simpa using hlive, ?_⟩
    rcases Act.stops_of_run_bind hrun with hname | ⟨name, t, hname, hrun⟩
    · cases hown : (explicitName source).1 <;> rw [hown] at hname <;> cases hname
    · rcases Act.stops_of_run_bind hrun with hproduce | ⟨rec, u, -, hrun⟩
      · exact ⟨name, t, hname, hproduce⟩
      · cases hrun

/-- An expression without a result leaves the results as they are. -/
theorem entries_of_interpret_stops {kind : Kind} {source : Text} {e : Abort}
    (hrun : (interpret roller (.node kind) source).run s = (.error e, s')) :
    s'.records.entries = s.records.entries := by
  obtain ⟨-, name, t, hname, hproduce⟩ := stops_of_interpret hrun
  have hkept := produce_recordless roller (explicitName source).2 kind t
  rw [hproduce] at hkept
  rw [show s'.records = t.records from hkept, (chooseName_recorded hname).1]

/-- When an evaluation breaks off, what was written down stays. -/
theorem BreaksOff.chain (h : BreaksOff roller s ns vs s') :
    ∃ u, Chain roller s vs u ∧ s'.records.entries = u.records.entries := by
  induction h with
  | here hchain hstop => exact ⟨_, hchain, entries_of_interpret_stops hstop⟩
  | inside _ ih => exact ih
  | behind hchain _ ih =>
      obtain ⟨u, hrest, hentries⟩ := ih
      exact ⟨u, hchain.append hrest, hentries⟩

/-- What an evaluation has written down is what its rolls have. -/
theorem Goes.chain (h : Goes roller s ns vs s') :
    ∃ u, Chain roller s vs u ∧ s'.records.entries = u.records.entries := by
  rcases h with ⟨es, -, -, hchain⟩ | hstops
  · exact ⟨s', hchain, rfl⟩
  · exact hstops.chain

/-! ## The last result under a name -/

namespace Chain

variable {before after : List Visit} {name : Text} {rec : Record}

/-- A result that is not written over is kept. -/
theorem get?_of_last (h : Chain roller s (before ++ v :: after) u) (hv : v.made = some (name, rec))
    (hlast : ∀ w ∈ after, ∀ m, w.made = some m → m.1 ≠ name) :
    Entries.get? name u.records.entries = some rec := by
  have hnone : ((after.filterMap Visit.made).reverse.find? fun m => decide (m.1 = name)) = none := by
    rw [List.find?_eq_none]
    intro m hm
    obtain ⟨w, hw, hmade⟩ := List.mem_filterMap.1 (List.mem_reverse.1 hm)
    simpa using hlast w hw m hmade
  -- what is kept is the last thing that was made under the name
  rw [h.entries_eq, Entries.get?_update, List.filterMap_append, List.filterMap_cons, hv]
  simp [hnone]

/-- The name of a roll behind others is the one that it writes, or a number that they have not
taken. -/
theorem name_behind (h : Chain roller s (before ++ v :: after) u) (hfresh : s.records = .empty)
    (hw : w ∈ after) {m : Text × Record} (hm : w.made = some m) :
    w.isLive = true ∧ (w.ownName? = some m.1 ∨ ∃ k, m.1 = Text.ofNat k ∧
      (before ++ [v]).countP Visit.isNumbered < k ∧
        k ≤ (before ++ v :: after).countP Visit.isNumbered) := by
  obtain ⟨between, rest, rfl⟩ := List.append_of_mem hw
  -- the later roll is the one that is looked at, with everything up to it in front
  have hsplit : before ++ v :: (between ++ w :: rest) = (before ++ v :: between) ++ w :: rest := by simp
  rw [hsplit] at h ⊢
  obtain ⟨t, t', hruns, hcounter⟩ := h.runs_behind
  have hlive : w.isLive = true := by rw [← hruns.made_isSome, hm, Option.isSome_some]
  have hname := hruns.name_eq hm
  rw [hcounter, hfresh] at hname
  refine ⟨hlive, ?_⟩
  cases hown : w.ownName? with
  | some own => exact .inl (by rw [hname, Visit.nameBehind, hown, Option.getD_some])
  | none =>
      have hnumbered : w.isNumbered = true := by simp [Visit.isNumbered, hlive, hown]
      refine .inr ⟨(before ++ v :: between).countP Visit.isNumbered + 1, ?_, ?_, ?_⟩
      · rw [hname, Visit.nameBehind, hown, Option.getD_none]
        simp [Records.empty]
      · simp only [List.countP_append, List.countP_cons, List.countP_nil]
        omega
      · simp only [List.countP_append, List.countP_cons, hnumbered, if_true]
        omega

end Chain

/-! ## References -/

def referenceTo (name : Text) : Text := '@' :: '\x7b' :: (name ++ ['\x7d'])

/-- A name that references can write: it is not empty, it has no blanks at its ends, and it holds neither
a bar nor a closing brace. -/
structure Referable (name : Text) : Prop where
  nonempty : name ≠ []
  stripped : Text.strip name = name
  unmarked : ∀ c ∈ name, c ≠ '|' ∧ c ≠ '\x7d'

/-- A number can be referred to. -/
theorem referable_ofNat (n : Nat) : Referable (Text.ofNat n) := by
  refine ⟨ofNat_ne_nil n, stripBy_ofNat (fun _ => isBlank_of_isDigit) n, fun c hc => ?_⟩
  have hdigit := isDigit_of_mem_ofNat hc
  constructor
  · rintro rfl
    exact absurd hdigit (by decide)
  · rintro rfl
    exact absurd hdigit (by decide)

theorem reference?_referenceTo {name : Text} (h : Referable name) :
    reference? (referenceTo name) = some (⟨name, standardMode, [[]]⟩, []) := by
  have hcut := takeWhile_dropWhile_append (p := fun c => decide (c ≠ '|') && decide (c ≠ '\x7d'))
    (t := ['\x7d']) (fun c (hc : c ∈ name) => by simp [h.unmarked c hc]) (by simp)
  simp only [referenceTo, reference?, hcut.1, hcut.2, if_neg h.nonempty, h.stripped]

/-- A reference to a result is replaced by it. -/
theorem substitute_referenceTo {name : Text} (h : Referable name) {r : Records} {rec : Record}
    (hrec : r.get? name = some rec) : substitute (referenceTo name) r = rec.result := by
  rw [substitute, Text.replaceTags_whole _ (reference?_referenceTo h) (List.cons_ne_nil _ _),
    Records.resolve, hrec]
  rfl

/-! ## Messages -/

def Retrievable (s : State) (name : Text) (rec : Record) : Prop :=
  s.records.get? name = some rec ∧
    (Referable name → substitute (referenceTo name) s.records = rec.result)

theorem retrievable_of_get? {name : Text} {rec : Record} (h : s.records.get? name = some rec) :
    Retrievable s name rec := ⟨h, fun hname => substitute_referenceTo hname h⟩

/-- Whatever an evaluation of a message has gone through when it ends or stops, the result of a roll that
writes a name is written over only by a later roll with the same name, or by a roll that takes a number
if the name is that number. The result of a roll that takes a number is written over only by a later roll
that writes it as its name. -/
theorem results_stay_unless_renamed (settings : Settings) (message : Text) (s : State)
    (hfresh : s.records = .empty) :
    let s' := ((evaluateRolls settings message).run s).2
    ∃ vs, Goes settings.roller s (parse settings.inlineMath message).children vs s' ∧
      (∀ before v after name, vs = before ++ v :: after → v.isLive = true → v.ownName? = some name →
        (∀ w ∈ after, w.isLive = true → w.ownName? ≠ some name) →
        (∀ k, before.countP Visit.isNumbered < k → k ≤ vs.countP Visit.isNumbered →
          name ≠ Text.ofNat k) →
        ∃ rec, v.made = some (name, rec) ∧ Retrievable s' name rec) ∧
      ∀ before v after, vs = before ++ v :: after → v.isNumbered = true →
        let name := Text.ofNat (before.countP Visit.isNumbered + 1)
        (∀ w ∈ after, w.isLive = true → w.ownName? ≠ some name) →
        ∃ rec, v.made = some (name, rec) ∧ Retrievable s' name rec ∧ Referable name := by
  intro s'
  obtain ⟨vs, hgoes⟩ := evaluateRolls_goes settings message s
  obtain ⟨u, hchain, hentries⟩ := hgoes.chain
  have hget? (name : Text) : s'.records.get? name = Entries.get? name u.records.entries := by
    rw [Records.get?, hentries]
  refine ⟨vs, hgoes, fun before v after name hsplit hlive hown hlater hnumber => ?_,
    fun before v after hsplit hnumbered => ?_⟩
  · subst hsplit
    obtain ⟨rec, hrec, -⟩ := hchain.made_of_live hfresh hlive
    rw [Visit.nameBehind, hown, Option.getD_some] at hrec
    refine ⟨rec, hrec, retrievable_of_get? ?_⟩
    rw [hget?]
    refine hchain.get?_of_last hrec fun w hw m hm hsame => ?_
    obtain ⟨hwlive, hwown | ⟨k, hk, hbehind, hle⟩⟩ := hchain.name_behind hfresh hw hm
    · exact hlater w hw hwlive (by rw [hwown, hsame])
    -- a number that is the name is excluded, from the rolls in front of this one on
    · refine hnumber k ?_ hle (hsame ▸ hk)
      rw [List.countP_append] at hbehind
      omega
  · intro name hlater
    simp only [Visit.isNumbered, Bool.and_eq_true, Option.isNone_iff_eq_none] at hnumbered
    subst hsplit
    obtain ⟨rec, hrec, -⟩ := hchain.made_of_live hfresh hnumbered.1
    rw [Visit.nameBehind, hnumbered.2, Option.getD_none] at hrec
    refine ⟨rec, hrec, retrievable_of_get? ?_, referable_ofNat _⟩
    rw [hget?]
    refine hchain.get?_of_last hrec fun w hw m hm hsame => ?_
    obtain ⟨hwlive, hwown | ⟨k, hk, hbehind, -⟩⟩ := hchain.name_behind hfresh hw hm
    · exact hlater w hw hwlive (by rw [hwown, hsame])
    · -- numbers go up
      have hequal : k = before.countP Visit.isNumbered + 1 := by
        rw [← digitsValue_ofNat k, ← hk, hsame, digitsValue_ofNat]
      have hself : [v].countP Visit.isNumbered = 1 := by
        simp [Visit.isNumbered, hnumbered.1, hnumbered.2]
      rw [List.countP_append, hself] at hbehind
      omega

/-- A roll with a name, two that take numbers, and one that writes a number which was not taken. -/
theorem results_stay_unless_renamed_mixed :
    let settings : Settings := ⟨.shorthand, false, false⟩
    let message := "[[@a:1d6]] [[2]] [[[[3]]]] [[@7:4]]".toList
    let s := untouched (.fixed 5)
    let s' := ((evaluateRolls settings message).run s).2
    s.records = .empty ∧ ∃ vs, Goes settings.roller s (parse settings.inlineMath message).children vs s' ∧
      ∀ before v after, vs = before ++ v :: after → v.isNumbered = true →
        let name := Text.ofNat (before.countP Visit.isNumbered + 1)
        (∀ w ∈ after, w.isLive = true → w.ownName? ≠ some name) →
        ∃ rec, v.made = some (name, rec) ∧ Retrievable s' name rec ∧ Referable name := by
  intro settings message s s'
  obtain ⟨vs, hgoes, -, hnumbered⟩ := results_stay_unless_renamed settings message s rfl
  exact ⟨rfl, vs, hgoes, hnumbered⟩

/-- A roll with the name `1` comes to 5 and the next roll, which takes the first number, to 6. Only the
second of them is kept, and a reference to the first shows it. -/
theorem number_takes_name :
    let run := (evaluateRolls ⟨.shorthand, false, false⟩ "[[@1:5]] [[6]]".toList).run
      (untouched (.fixed 1))
    (explicitName "@1:5".toList).1 = some "1".toList ∧ (explicitName "6".toList).1 = none ∧
      run.1.toOption = some "5 6".toList ∧ run.2.records.names = ["1".toList] ∧
      (run.2.records.get? "1".toList).map Record.result = some "6".toList ∧
      referenceTo "1".toList = "@\x7b1\x7d".toList ∧
      substitute (referenceTo "1".toList) run.2.records = "6".toList := by
  decide +kernel

end Evaluation

end TabletopChat
