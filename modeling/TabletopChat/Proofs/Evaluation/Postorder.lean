import TabletopChat.Proofs.Diagnostics.KnownNames

/-!
# Proofs/Evaluation/Postorder — the rolls of a message in the order in which they are evaluated

Whether something is left of a roll depends on the results of the rolls inside of it, so that the tree
alone does not tell which rolls are written down. The tree together with what was written down does: the
expression of a roll is made of the results of its children, and the rolls follow one another from the
inside out and from left to right.

- `Visit`, `Visit.Runs` : a roll and what was written down for it; what it does to the state
- `Chain`               : rolls, one after another
- `Evaluated`           : nodes with what was written down for them; their results and their rolls
- `evaluateNodes_chain` : an evaluation that ends goes through all rolls of the nodes
- `records_follow_postorder` : messages
-/

namespace TabletopChat

namespace Evaluation

open Text Markup Diagnostics

/-! ## Rolls -/

/-- A roll that was evaluated. -/
structure Visit where
  kind : Kind
  /-- the text inside of the roll, with the results of the rolls there -/
  expression : Text
  /-- what was written down, and under which name -/
  made : Option (Text × Record)

namespace Visit

def ownName? (v : Visit) : Option Text := (explicitName v.expression).1

/-- Whether anything but blanks is left when the name in front is taken away. -/
def isLive (v : Visit) : Bool := !allBlank (explicitName v.expression).2

def isNumbered (v : Visit) : Bool := v.isLive && v.ownName?.isNone

/-- The name of a roll behind `count` others that took a number. -/
def nameBehind (count : Nat) (v : Visit) : Text := v.ownName?.getD (Text.ofNat (count + 1))

/-- The text in place of a roll: the result that was written down, or nothing. -/
def text (v : Visit) : Text := v.made.elim [] fun m => m.2.result

end Visit

variable {roller : Roller} {s t u s' : State} {v : Visit} {vs ws : List Visit}

/-- A roll that is not live does nothing. Any other takes a name and is rolled, and what comes out is
written down. -/
inductive Visit.Runs (roller : Roller) : State → Visit → State → Prop
  | blank {kind : Kind} {expression : Text} {s : State} (h : allBlank (explicitName expression).2 = true) :
      Runs roller s ⟨kind, expression, none⟩ s
  | live {kind : Kind} {expression name : Text} {rec : Record} {s t u s' : State}
      (h : allBlank (explicitName expression).2 = false)
      (hname : (chooseName (explicitName expression).1).run s = (.ok name, t))
      (hproduce : (produce roller (explicitName expression).2 kind).run t = (.ok rec, u))
      (hrecord : (record kind name (explicitName expression).2 rec).run u = (.ok (), s')) :
      Runs roller s ⟨kind, expression, some (name, rec)⟩ s'

/-- This is how an expression is evaluated. -/
theorem runs_of_interpret {kind : Kind} {source result : Text}
    (hrun : (interpret roller (.node kind) source).run s = (.ok result, s')) :
    ∃ made, (⟨kind, source, made⟩ : Visit).text = result ∧
      Visit.Runs roller s ⟨kind, source, made⟩ s' := by
  unfold interpret at hrun
  dsimp only at hrun
  split at hrun
  · rename_i hblank
    cases hrun
    exact ⟨none, rfl, .blank hblank⟩
  · rename_i hlive
    obtain ⟨name, t, hname, hrun⟩ := Act.exists_of_run_bind hrun
    obtain ⟨rec, u, hproduce, hrun⟩ := Act.exists_of_run_bind hrun
    obtain ⟨done, w, hrecord, hrun⟩ := Act.exists_of_run_bind hrun
    cases hrun
    exact ⟨some (name, rec), rfl, .live (by simpa using hlive) hname hproduce hrecord⟩

namespace Visit.Runs

/-- Something is written down exactly for a live roll. -/
theorem made_isSome (h : v.Runs roller s s') : v.made.isSome = v.isLive := by
  cases h with
  | blank hblank => simp [Visit.isLive, hblank]
  | live hlive => simp [Visit.isLive, hlive]

/-- The name is the one that the roll writes, or else the next number. -/
theorem name_eq (h : v.Runs roller s s') {m : Text × Record} (hm : v.made = some m) :
    m.1 = v.nameBehind s.records.counter := by
  cases h with
  | blank => cases hm
  | @live _ expression name rec _ _ _ _ _ hname =>
      cases hm
      unfold Visit.nameBehind Visit.ownName?
      dsimp only at hname ⊢
      generalize (explicitName expression).1 = explicit at hname ⊢
      cases explicit <;> cases hname <;> rfl

/-- A result is never blank. -/
theorem solid (h : v.Runs roller s s') {m : Text × Record} (hm : v.made = some m) :
    Solid m.2.result := by
  cases h with
  | blank => cases hm
  | live _ _ hproduce =>
      cases hm
      exact produce_solid _ _ _ _ _ _ hproduce

/-- What is written down is added to the results. -/
theorem entries_eq (h : v.Runs roller s s') :
    s'.records.entries = Entries.update s.records.entries v.made.toList := by
  cases h with
  | blank => rfl
  | @live kind expression name rec _ t u _ hlive hname hproduce hrecord =>
      have hkept := produce_recordless roller (explicitName expression).2 kind t
      rw [hproduce] at hkept
      cases hrecord
      have hentries := (chooseName_recorded hname).1
      change Entries.insert name rec u.records.entries = Entries.insert name rec _
      rw [show u.records = t.records from hkept, hentries]

/-- A roll that takes a number uses it up. -/
theorem counter_eq (h : v.Runs roller s s') :
    s'.records.counter = s.records.counter + [v].countP Visit.isNumbered := by
  cases h with
  | blank hblank => simp [Visit.isNumbered, Visit.isLive, hblank]
  | @live kind expression name rec _ t u _ hlive hname hproduce hrecord =>
      have hkept := produce_recordless roller (explicitName expression).2 kind t
      rw [hproduce] at hkept
      cases hrecord
      have hcounter := (chooseName_recorded hname).2.2
      change u.records.counter = _
      rw [show u.records = t.records from hkept, hcounter]
      rw [List.countP_singleton, Visit.isNumbered, Visit.isLive, Visit.ownName?, hlive]
      cases (explicitName expression).1 <;> rfl

end Visit.Runs

/-! ## Rolls, one after another -/

/-- Rolls that follow one another, each from the state that the one before it has left. -/
inductive Chain (roller : Roller) : State → List Visit → State → Prop
  | nil {s : State} : Chain roller s [] s
  | cons {v : Visit} {vs : List Visit} {s t u : State} :
      v.Runs roller s t → Chain roller t vs u → Chain roller s (v :: vs) u

namespace Chain

theorem single (h : v.Runs roller s t) : Chain roller s [v] t := .cons h .nil

theorem append (hst : Chain roller s vs t) (htu : Chain roller t ws u) : Chain roller s (vs ++ ws) u := by
  induction hst with
  | nil => exact htu
  | cons hv _ ih => exact .cons hv (ih htu)

/-- Rolls can be divided anywhere. -/
theorem split (h : Chain roller s (vs ++ ws) u) : ∃ t, Chain roller s vs t ∧ Chain roller t ws u := by
  induction vs generalizing s with
  | nil => exact ⟨s, .nil, h⟩
  | cons v vs ih =>
      cases h with
      | cons hv h =>
          obtain ⟨t, hvs, hws⟩ := ih h
          exact ⟨t, .cons hv hvs, hws⟩

/-- The numbers that are used up. -/
theorem counter_eq (h : Chain roller s vs u) :
    u.records.counter = s.records.counter + vs.countP Visit.isNumbered := by
  induction h with
  | nil => rfl
  | @cons v vs s t u hv _ ih =>
      rw [ih, hv.counter_eq, Nat.add_assoc, ← List.countP_append, List.singleton_append]

/-- All that is written down is added to the results in its order. -/
theorem entries_eq (h : Chain roller s vs u) :
    u.records.entries = Entries.update s.records.entries (vs.filterMap Visit.made) := by
  induction h with
  | nil => rfl
  | @cons v vs s t u hv _ ih =>
      rw [ih, hv.entries_eq, List.filterMap_cons]
      cases v.made <;> rfl

/-- Each of the rolls is evaluated in a state in which the numbers of those in front of it are used
up. -/
theorem runs_behind {before after : List Visit} (h : Chain roller s (before ++ v :: after) u) :
    ∃ t t', v.Runs roller t t' ∧
      t.records.counter = s.records.counter + before.countP Visit.isNumbered := by
  obtain ⟨t, hbefore, hrest⟩ := h.split
  cases hrest with
  | cons hv _ => exact ⟨t, _, hv, hbefore.counter_eq⟩

theorem made_isSome (h : Chain roller s vs u) (hv : v ∈ vs) : v.made.isSome = v.isLive := by
  obtain ⟨before, after, rfl⟩ := List.append_of_mem hv
  obtain ⟨t, t', hruns, -⟩ := h.runs_behind
  exact hruns.made_isSome

/-- What is written down for a live roll, where nothing was before. -/
theorem made_of_live {before after : List Visit} (h : Chain roller s (before ++ v :: after) u)
    (hfresh : s.records = .empty) (hlive : v.isLive = true) :
    ∃ rec, v.made = some (v.nameBehind (before.countP Visit.isNumbered), rec) ∧ Solid rec.result := by
  obtain ⟨t, t', hruns, hcounter⟩ := h.runs_behind
  obtain ⟨⟨name, rec⟩, hm⟩ := Option.isSome_iff_exists.1 (hruns.made_isSome.trans hlive)
  have hname := hruns.name_eq hm
  rw [hcounter, hfresh, Records.empty, Nat.zero_add] at hname
  exact ⟨rec, by rw [hm, ← hname], hruns.solid hm⟩

end Chain

/-! ## Nodes with what was written down -/

/-- A node with what was written down for its rolls. -/
inductive Evaluated
  | text (value : Text) (span : Span)
  | roll (kind : Kind) (closed : Bool) (children : List Evaluated) (span : Span)
      (made : Option (Text × Record))

mutual

def Evaluated.node : Evaluated → Node
  | .text t span => .text t span
  | .roll kind closed children span _ => .roll kind closed (nodesOf children) span

def nodesOf : List Evaluated → List Node
  | [] => []
  | e :: es => e.node :: nodesOf es

end

/-- The text in place of a node: a text itself, or what was written down for a roll. -/
def Evaluated.result : Evaluated → Text
  | .text t _ => t
  | .roll _ _ _ _ made => made.elim [] fun m => m.2.result

mutual

/-- The rolls of a node, from the inside out and from left to right. The expression of a roll is made of
the results of its children. -/
def Evaluated.visits : Evaluated → List Visit
  | .text _ _ => []
  | .roll kind _ children _ made =>
    visitsOf children ++ [⟨kind, children.flatMap Evaluated.result, made⟩]

def visitsOf : List Evaluated → List Visit
  | [] => []
  | e :: es => e.visits ++ visitsOf es

end

mutual

/-- The evaluation of one node goes through its rolls. -/
theorem evaluateNode_chain (n : Node) {s s' : State} {t : Text}
    (hrun : (evaluateNode roller n).run s = (.ok t, s')) :
    ∃ e : Evaluated, e.node = n ∧ e.result = t ∧ Chain roller s e.visits s' := by
  cases n with
  | text u span =>
      cases hrun
      exact ⟨.text t span, rfl, rfl, .nil⟩
  | roll kind closed children span =>
      obtain ⟨expression, u, hchildren, hrun⟩ := Act.exists_of_run_bind hrun
      obtain ⟨es, hnodes, hresults, hinner⟩ := evaluateNodes_chain children hchildren
      obtain ⟨made, htext, hruns⟩ := runs_of_interpret hrun
      subst hnodes hresults
      exact ⟨.roll kind closed es span made, rfl, htext, hinner.append (.single hruns)⟩

/-- The same for neighbouring nodes. -/
theorem evaluateNodes_chain (ns : List Node) {s s' : State} {t : Text}
    (hrun : (evaluateNodes roller ns).run s = (.ok t, s')) :
    ∃ es, nodesOf es = ns ∧ es.flatMap Evaluated.result = t ∧ Chain roller s (visitsOf es) s' := by
  cases ns with
  | nil =>
      cases hrun
      exact ⟨[], rfl, rfl, .nil⟩
  | cons n ns =>
      obtain ⟨first, u, hfirst, hrun⟩ := Act.exists_of_run_bind hrun
      obtain ⟨rest, w, hrest, hrun⟩ := Act.exists_of_run_bind hrun
      cases hrun
      obtain ⟨e, rfl, rfl, hchain⟩ := evaluateNode_chain n hfirst
      obtain ⟨es, rfl, rfl, hchains⟩ := evaluateNodes_chain ns hrest
      exact ⟨e :: es, rfl, rfl, hchain.append hchains⟩

end

def Evaluated.shown (tooltips : Bool) (e : Evaluated) : Text := decorate tooltips e.node e.result

/-- The same for the nodes of a message. -/
theorem evaluateTop_chain (tooltips : Bool) (ns : List Node) {s s' : State} {t : Text}
    (hrun : (evaluateTop roller tooltips ns).run s = (.ok t, s')) :
    ∃ es, nodesOf es = ns ∧ es.flatMap (Evaluated.shown tooltips) = t ∧
      Chain roller s (visitsOf es) s' := by
  induction ns generalizing s t with
  | nil =>
      cases hrun
      exact ⟨[], rfl, rfl, .nil⟩
  | cons n ns ih =>
      obtain ⟨first, u, hfirst, hrun⟩ := Act.exists_of_run_bind hrun
      obtain ⟨rest, w, hrest, hrun⟩ := Act.exists_of_run_bind hrun
      cases hrun
      obtain ⟨e, rfl, rfl, hchain⟩ := evaluateNode_chain n hfirst
      obtain ⟨es, rfl, rfl, hchains⟩ := ih hrest
      exact ⟨e :: es, rfl, rfl, hchain.append hchains⟩

/-! ## Messages -/

/-- Something is written down for each live roll of a message, in the order in which the rolls are
evaluated, and for no other. A roll is live if something is left of it with the results of the rolls
inside of it. Its name is the one in front of it, or else the number of live rolls without such a name up
to it. Its result takes its place and is not empty. Of the results under a name the last one is kept, and
names stand where they first came up. -/
theorem records_follow_postorder {settings : Settings} {message t : Text} {s s' : State}
    (hfresh : s.records = .empty) (hrun : (evaluateRolls settings message).run s = (.ok t, s')) :
    ∃ es : List Evaluated,
      nodesOf es = (parse settings.inlineMath message).children ∧
      t = es.flatMap (Evaluated.shown (settings.tooltips && !isCommand message)) ∧
      Chain settings.roller s (visitsOf es) s' ∧
      (∀ v ∈ visitsOf es, v.made.isSome = v.isLive ∧ (v.isLive = true → v.text ≠ [])) ∧
      (∀ before v after, visitsOf es = before ++ v :: after → v.isLive = true →
        v.made.map Prod.fst = some (v.nameBehind (before.countP Visit.isNumbered))) ∧
      s'.records.names = (((visitsOf es).filterMap Visit.made).map Prod.fst).eraseDups ∧
      ∀ name, s'.records.get? name =
        (((visitsOf es).filterMap Visit.made).reverse.find? fun m => decide (m.1 = name)).map
          Prod.snd := by
  obtain ⟨es, hnodes, htext, hchain⟩ := evaluateTop_chain _ _ hrun
  -- what is recorded is what the visits made, in their order
  have hentries : s'.records.entries = Entries.update [] ((visitsOf es).filterMap Visit.made) := by
    rw [hchain.entries_eq, hfresh]
    rfl
  refine ⟨es, hnodes, htext.symm, hchain, fun v hv => ⟨hchain.made_isSome hv, fun hlive hempty => ?_⟩,
    fun before v after hsplit hlive => ?_, ?_, ?_⟩
  · obtain ⟨before, after, hsplit⟩ := List.append_of_mem hv
    obtain ⟨rec, hrec, hsolid⟩ := (hsplit ▸ hchain).made_of_live hfresh hlive
    rw [Visit.text, hrec] at hempty
    exact not_solid_nil (hempty ▸ hsolid)
  · obtain ⟨rec, hrec, -⟩ := (hsplit ▸ hchain).made_of_live hfresh hlive
    rw [hrec, Option.map_some]
  · rw [Records.names, hentries, Entries.keys_update_nil]
    rfl
  · intro name
    rw [Records.get?, hentries, Entries.get?_update, Entries.get?_nil, Option.or_none]

/-- A roll inside of a named one, a blank roll, and a roll that takes the second number. -/
theorem records_follow_postorder_nested :
    let settings : Settings := ⟨.shorthand, true, true⟩
    let message := "[[@a:[[1d4]]+1]] [[ ]] <<[[@:]]2>>".toList
    let s := untouched (.fixed 3)
    ∃ t s', s.records = .empty ∧ (evaluateRolls settings message).run s = (.ok t, s') ∧
      ∃ es : List Evaluated, nodesOf es = (parse settings.inlineMath message).children ∧
        Chain settings.roller s (visitsOf es) s' ∧
        s'.records.names = (((visitsOf es).filterMap Visit.made).map Prod.fst).eraseDups := by
  intro settings message s
  obtain ⟨t, s', hrun⟩ := Act.exists_of_run (s := s) (a := evaluateRolls settings message)
    (by decide +kernel)
  obtain ⟨es, hnodes, -, hchain, -, -, hnames, -⟩ := records_follow_postorder (s := s) rfl hrun
  exact ⟨t, s', rfl, hrun, es, hnodes, hchain, hnames⟩

end Evaluation

end TabletopChat
