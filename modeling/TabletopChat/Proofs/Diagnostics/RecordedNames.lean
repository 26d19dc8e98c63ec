import TabletopChat.Diagnostics.Check
import TabletopChat.Proofs.Entries
import TabletopChat.Proofs.Evaluation.Leading
import TabletopChat.Proofs.Markup.Strictness

/-!
# Proofs/Diagnostics/RecordedNames — the names that an evaluation records

Which rolls of a message get a result, and under which names, can be told from the tree alone if `@`
stands only where a roll writes its name. Then the names that are known without an evaluation contain
all that an evaluation records; and they contain no others unless a roll comes to nothing although it
writes a name or has rolls inside of it.

- `isHollow`, `marks`       : rolls that come to nothing, and the other rolls in their order
- `evaluateNode_recorded`   : what the evaluation of one node records
- `evaluateRolls_recorded`  : what the evaluation of a message records
-/

namespace TabletopChat

namespace Evaluation

open Text Markup

/-! ## What the tree tells -/

mutual

/-- Whether a node comes to nothing but blanks; a name does not count if the node stands in front. -/
def isHollow (inFront : Bool) : Node → Bool
  | .text t _ => allBlank (if inFront then (explicitName t).2 else t)
  | .roll _ _ children _ => areHollow true children

def areHollow (inFront : Bool) : List Node → Bool
  | [] => true
  | n :: ns => isHollow inFront n && areHollow false ns

end

mutual

/-- The rolls of a node that get a result, in the order in which they are evaluated, each with the name
that it writes, if it writes one. -/
def marks : Node → List (Option Text)
  | .text _ _ => []
  | .roll _ _ children _ =>
    marksOf children ++
      (if areHollow true children then [] else [Diagnostics.ownName? children])

def marksOf : List Node → List (Option Text)
  | [] => []
  | n :: ns => marks n ++ marksOf ns

end

/-- The names of results: those that are written, and numbers behind `counter` for the others. -/
def numbered (counter : Nat) : List (Option Text) → List Text
  | [] => []
  | some name :: ms => name :: numbered counter ms
  | none :: ms => Text.ofNat (counter + 1) :: numbered (counter + 1) ms

mutual

/-- Whether `@` stands only where the name of a roll begins. A text in front of the other children of a
roll may write a name, which it has to write as a whole. -/
def namesInFront (inFront : Bool) : Node → Bool
  | .text t _ => !t.contains '@' || (inFront && (explicitName t).1.isSome)
  | .roll _ _ children _ => allNamesInFront true children

/-- Whether `@` stands only where names begin in neighbouring nodes. -/
def allNamesInFront (inFront : Bool) : List Node → Bool
  | [] => true
  | n :: ns => namesInFront inFront n && allNamesInFront false ns

end

/-- Whether inside of the rolls of a message `@` stands only where their names begin. -/
def rollsNamedInFront (m : Message) : Bool :=
  m.children.all fun n => n.isText || namesInFront false n

/-! ## Writing results down -/

/-- Names are numbered through the whole of a message. -/
theorem numbered_append (counter : Nat) (ms ns : List (Option Text)) :
    numbered counter (ms ++ ns) =
      numbered counter ms ++ numbered (counter + ms.count none) ns := by
  induction ms generalizing counter with
  | nil => rfl
  | cons mark ms ih =>
      cases mark with
      | some name => simp [numbered, ih]
      | none =>
          have hcount : counter + 1 + ms.count none = counter + (ms.count none + 1) := by omega
          simp [numbered, ih, hcount]

/-- From one state to the next, results were written down for some rolls, and for no others. -/
structure Recorded (ms : List (Option Text)) (s s' : State) : Prop where
  names : ∀ name, name ∈ s'.records.names ↔
    name ∈ s.records.names ∨ name ∈ numbered s.records.counter ms
  counter : s'.records.counter = s.records.counter + ms.count none

namespace Recorded

variable {ms ns : List (Option Text)} {s t u : State}

theorem nothing (h : t.records = s.records) : Recorded [] s t := by
  refine ⟨fun name => ?_, ?_⟩
  · simp [h, numbered]
  · simp [h]

theorem append (hst : Recorded ms s t) (htu : Recorded ns t u) : Recorded (ms ++ ns) s u := by
  refine ⟨fun name => ?_, ?_⟩
  · rw [htu.names, hst.names, hst.counter, numbered_append, List.mem_append, or_assoc]
  · rw [htu.counter, hst.counter, List.count_append, Nat.add_assoc]

end Recorded

/-! ## One expression -/

def Recordless {α : Type} (a : Step α) : Prop := Act.Always (fun s s' => s'.records = s.records) a

theorem Recordless.bind {α β : Type} {a : Step α} {f : α → Step β} (ha : Recordless a)
    (hf : ∀ x, Recordless (f x)) : Recordless (a >>= f) :=
  Act.Always.bind (fun hst htu => Eq.trans htu hst) ha hf

theorem recordless_pure {α : Type} (x : α) : Recordless (pure x) := fun _ => rfl

theorem recordless_warn (message : Text) : Recordless (Act.modify (State.warn message)) := fun _ => rfl

/-- Arithmetic records nothing. -/
theorem arithmetic_recordless (expression : Text) (calls : Option Nat) :
    Recordless (arithmetic expression calls) := by
  have hensure : Recordless
      (Act.ensure (Arithmetic.affordable calls expression) .callsTooDeep) := by
    intro s
    rw [Act.run_ensure]
  refine hensure.bind fun _ => ?_
  split
  · exact recordless_pure _
  · exact (recordless_warn _).bind fun _ => recordless_pure _
  · exact fun _ => rfl

theorem rollShorthand_recordless (expression : Text) (calls : Option Nat) :
    Recordless (rollShorthand expression calls) := by
  refine Recordless.bind (fun _ => rfl) fun r => ?_
  split
  · exact Recordless.bind (fun _ => rfl) fun _ => recordless_pure _
  · exact recordless_pure _

/-- Rolling dice notation writes nothing down. -/
theorem rollNotation_recordless (expression : Text) : Recordless (rollNotation expression) := by
  intro s
  rcases hroll : (Notation.roll expression).run ⟨s.dice, s.cache⟩ with ⟨r, t⟩
  simp only [rollNotation, Act.run] at hroll ⊢
  rw [hroll]
  cases r with
  | ok o => rfl
  | error h => cases h <;> rfl

theorem evaluateNotation_recordless (expression : Text) (calls : Option Nat) :
    Recordless (evaluateNotation expression calls) := by
  refine (rollNotation_recordless expression).bind fun rolled => ?_
  cases rolled with
  | ok o => exact (arithmetic_recordless _ _).bind fun _ => recordless_pure _
  | error f => exact (recordless_warn _).bind fun _ => recordless_pure _

/-- Rolling and calculating write nothing down. -/
theorem produce_recordless (roller : Roller) (expression : Text) (kind : Kind) :
    Recordless (produce roller expression kind) := by
  cases kind with
  | math => exact (arithmetic_recordless expression _).bind fun _ => recordless_pure _
  | roll =>
      cases roller with
      | shorthand calls => exact rollShorthand_recordless expression calls
      | extended calls => exact evaluateNotation_recordless expression calls

/-- A name for a result. -/
theorem chooseName_recorded {explicit : Option Text} {s s' : State} {name : Text}
    (hrun : (chooseName explicit).run s = (.ok name, s')) :
    s'.records.entries = s.records.entries ∧ numbered s.records.counter [explicit] = [name] ∧
      s'.records.counter = s.records.counter + [explicit].count none := by
  cases explicit with
  | some n =>
      cases hrun
      exact ⟨rfl, rfl, rfl⟩
  | none =>
      cases hrun
      exact ⟨rfl, rfl, rfl⟩

/-- A blank expression comes to nothing; any other has a solid result, which is written down. -/
theorem interpret_recorded {kind : Kind} {source t : Text} {s s' : State}
    (hrun : (interpret .shorthand (.node kind) source).run s = (.ok t, s')) :
    if allBlank (explicitName source).2 then t = [] ∧ s' = s
    else Solid t ∧ Recorded [(explicitName source).1] s s' := by
  unfold interpret at hrun
  generalize explicitName source = named at hrun ⊢
  rcases named with ⟨explicit, expression⟩
  dsimp only at hrun ⊢
  split
  · rename_i hblank
    rw [if_pos hblank] at hrun
    cases hrun
    exact ⟨rfl, rfl⟩
  · rename_i hblank
    rw [if_neg hblank] at hrun
    obtain ⟨name, u, hname, hrun⟩ := Act.exists_of_run_bind hrun
    obtain ⟨rec, v, hproduce, hrun⟩ := Act.exists_of_run_bind hrun
    obtain ⟨hentries, hnumbered, hcounter⟩ := chooseName_recorded hname
    have hkept : v.records = u.records := by
      simpa only [hproduce] using produce_recordless .shorthand expression kind u
    cases hrun
    refine ⟨produce_solid .shorthand expression kind u rec v hproduce, fun n => ?_, ?_⟩
    · -- the names are those from before, and the one that was chosen
      simp only [Records.names, Records.insert]
      rw [Entries.mem_keys_insert, hkept, hentries, hnumbered, List.mem_singleton]
    · simp only [Records.insert]
      rw [hkept, hcounter]

/-! ## Names in front -/

/-- A cut does not change if a text goes on. -/
theorem cutAt_append {sep : Char} {t before after : Text} (u : Text)
    (h : Text.cutAt sep t = (before, some after)) :
    Text.cutAt sep (t ++ u) = (before, some (after ++ u)) := by
  induction t generalizing before with
  | nil => cases h
  | cons c cs ih =>
      by_cases hc : c = sep
      · subst hc
        simp only [Text.cutAt, if_true, Prod.mk.injEq, Option.some.injEq] at h
        obtain ⟨rfl, rfl⟩ := h
        simp [Text.cutAt]
      · rcases hcut : Text.cutAt sep cs with ⟨b, a⟩
        simp only [Text.cutAt, hc, if_false, hcut, Prod.mk.injEq] at h
        obtain ⟨rfl, rfl⟩ := h
        simp [Text.cutAt, hc, ih hcut]

/-- A name in front of a text is also in front of a longer one. -/
theorem explicitName_append {t name : Text} (u : Text) (h : (explicitName t).1 = some name) :
    explicitName (t ++ u) = (some name, (explicitName t).2 ++ u) := by
  unfold explicitName at h
  split at h
  · rename_i cs
    split at h
    · rename_i c name' rest hcut
      cases h
      simp [explicitName, hcut, cutAt_append u hcut]
    · cases h
  · cases h

/-- A text that does not begin like a name has none. -/
theorem explicitName_of_head {t : Text} (h : t.head? ≠ some '@') : explicitName t = (none, t) := by
  unfold explicitName
  split
  · exact absurd rfl h
  · rfl

/-- What nodes behind the first one of a roll evaluate to: something blank exactly if they are hollow,
and nothing that begins like a name. -/
structure Behind (hollow : Bool) (t : Text) : Prop where
  blank : allBlank t = hollow
  head : t.head? ≠ some '@'

/-- Texts for two rows of nodes, one behind the other: they are hollow together if each of them is. -/
theorem Behind.append {a b : Bool} {t u : Text} (ht : Behind a t) (hu : Behind b u) :
    Behind (a && b) (t ++ u) := by
  refine ⟨?_, ?_⟩
  · rw [Text.allBlank, List.all_append, ← ht.blank, ← hu.blank, Text.allBlank, Text.allBlank]
  · cases t with
    | nil => exact hu.head
    | cons c cs => exact ht.head

/-- What the children of a roll evaluate to: the name that the roll writes, and an expression that is
blank exactly if they are hollow. -/
structure Inside (own : Option Text) (hollow : Bool) (t : Text) : Prop where
  name : (explicitName t).1 = own
  blank : allBlank (explicitName t).2 = hollow

theorem Behind.inside {hollow : Bool} {t : Text} (h : Behind hollow t) : Inside none hollow t := by
  have hname := explicitName_of_head h.head
  exact ⟨by rw [hname], by rw [hname, h.blank]⟩

/-- A text in front of nodes, with or without a name. -/
theorem inside_text {t u : Text} {span : Span} {rest : List Node} {hollow : Bool}
    (ht : namesInFront true (.text t span) = true) (hu : Behind hollow u) :
    Inside (Diagnostics.ownName? (.text t span :: rest))
      (isHollow true (.text t span) && hollow) (t ++ u) := by
  simp only [Diagnostics.ownName?, isHollow, if_true]
  cases hname : (explicitName t).1 with
  | some name =>
      -- what follows the whole name belongs to the expression
      have happend := explicitName_append u hname
      refine ⟨by rw [happend], ?_⟩
      rw [happend, Text.allBlank, List.all_append, ← hu.blank, Text.allBlank, Text.allBlank]
  | none =>
      have hfree : '@' ∉ t := by
        simpa [namesInFront, hname] using ht
      have hhead : t.head? ≠ some '@' := fun h => hfree (List.mem_of_mem_head? h)
      rw [explicitName_of_head hhead]
      exact (Behind.append ⟨rfl, hhead⟩ hu).inside

/-! ## Nodes -/

mutual

/-- The evaluation of a node records a result for each of its rolls that are not hollow, from the inside
out and from left to right. -/
theorem evaluateNode_recorded (n : Node) (hn : namesInFront false n = true) {s s' : State} {t : Text}
    (hrun : (evaluateNode .shorthand n).run s = (.ok t, s')) :
    Recorded (marks n) s s' ∧ Behind (isHollow false n) t := by
  cases n with
  | text u span =>
      cases hrun
      have hfree : '@' ∉ t := by
        simpa [namesInFront] using hn
      exact ⟨.nothing rfl, rfl, fun h => hfree (List.mem_of_mem_head? h)⟩
  | roll kind closed children span =>
      obtain ⟨expression, u, hchildren, hrun⟩ := Act.exists_of_run_bind hrun
      obtain ⟨hrecorded, hinside⟩ := evaluateChildren_recorded children hn hchildren
      have hinterpret := interpret_recorded hrun
      rw [hinside.name, hinside.blank] at hinterpret
      unfold marks isHollow
      split at hinterpret
      · -- the roll is hollow, so only the rolls inside of it are written down
        rename_i hhollow
        obtain ⟨rfl, rfl⟩ := hinterpret
        rw [hhollow]
        exact ⟨by simpa using hrecorded, rfl, by simp⟩
      · rename_i hhollow
        obtain ⟨hsolid, hown⟩ := hinterpret
        rw [if_neg hhollow]
        rw [Bool.not_eq_true] at hhollow
        rw [hhollow]
        exact ⟨hrecorded.append hown, hsolid.allBlank, hsolid.head⟩

/-- The same for all children of a roll. -/
theorem evaluateChildren_recorded (ns : List Node) (hns : allNamesInFront true ns = true)
    {s s' : State} {t : Text} (hrun : (evaluateNodes .shorthand ns).run s = (.ok t, s')) :
    Recorded (marksOf ns) s s' ∧ Inside (Diagnostics.ownName? ns) (areHollow true ns) t := by
  cases ns with
  | nil =>
      cases hrun
      exact ⟨.nothing rfl, rfl, rfl⟩
  | cons n ns =>
      simp only [allNamesInFront, Bool.and_eq_true] at hns
      obtain ⟨u, v, hnode, hrun⟩ := Act.exists_of_run_bind hrun
      obtain ⟨w, x, hrest, hrun⟩ := Act.exists_of_run_bind hrun
      cases hrun
      obtain ⟨hrecorded, hbehind⟩ := evaluateNodes_recorded ns hns.2 hrest
      -- a roll in front writes no name, as its result does not begin like one
      cases n with
      | text text span =>
          cases hnode
          exact ⟨(Recorded.nothing rfl).append hrecorded, inside_text hns.1 hbehind⟩
      | roll kind closed children span =>
          obtain ⟨hfirst, hfront⟩ := evaluateNode_recorded (.roll kind closed children span) hns.1 hnode
          exact ⟨hfirst.append hrecorded, (hfront.append hbehind).inside⟩

/-- The same for nodes behind the first one of a roll. -/
theorem evaluateNodes_recorded (ns : List Node) (hns : allNamesInFront false ns = true)
    {s s' : State} {t : Text} (hrun : (evaluateNodes .shorthand ns).run s = (.ok t, s')) :
    Recorded (marksOf ns) s s' ∧ Behind (areHollow false ns) t := by
  cases ns with
  | nil =>
      cases hrun
      exact ⟨.nothing rfl, rfl, by simp⟩
  | cons n ns =>
      simp only [allNamesInFront, Bool.and_eq_true] at hns
      obtain ⟨u, v, hnode, hrun⟩ := Act.exists_of_run_bind hrun
      obtain ⟨w, x, hrest, hrun⟩ := Act.exists_of_run_bind hrun
      cases hrun
      obtain ⟨hfirst, hfront⟩ := evaluateNode_recorded n hns.1 hnode
      obtain ⟨hrecorded, hbehind⟩ := evaluateNodes_recorded ns hns.2 hrest
      exact ⟨hfirst.append hrecorded, hfront.append hbehind⟩

end

/-! ## Messages -/

/-- The evaluation of the nodes of a message; its own texts may hold anything. -/
theorem evaluateTop_recorded (tooltips : Bool) (ns : List Node)
    (hns : ∀ n ∈ ns, (n.isText || namesInFront false n) = true) {s s' : State} {t : Text}
    (hrun : (evaluateTop .shorthand tooltips ns).run s = (.ok t, s')) : Recorded (marksOf ns) s s' := by
  induction ns generalizing s t with
  | nil =>
      cases hrun
      exact .nothing rfl
  | cons n ns ih =>
      rw [List.forall_mem_cons] at hns
      obtain ⟨u, v, hnode, hrun⟩ := Act.exists_of_run_bind hrun
      obtain ⟨w, x, hrest, hrun⟩ := Act.exists_of_run_bind hrun
      cases hrun
      have hrecorded := ih hns.2 hrest
      cases n with
      | text text span =>
          cases hnode
          exact (Recorded.nothing rfl).append hrecorded
      | roll kind closed children span =>
          exact (evaluateNode_recorded (.roll kind closed children span) hns.1 hnode).1.append hrecorded

/-- The evaluation of a message records a result for each of its rolls that are not hollow, under the
name that the roll writes or else under the next number. -/
theorem evaluateRolls_recorded {inlineMath tooltips : Bool} {source t : Text} {s s' : State}
    (hnames : rollsNamedInFront (parse inlineMath source) = true) (hempty : s.records = .empty)
    (hrun : (evaluateRolls ⟨.shorthand, tooltips, inlineMath⟩ source).run s = (.ok t, s')) (name : Text) :
    name ∈ s'.records.names ↔ name ∈ numbered 0 (marksOf (parse inlineMath source).children) := by
  have hrecorded := evaluateTop_recorded _ _ (List.all_eq_true.1 hnames) hrun
  rw [hrecorded.names, hempty]
  simp [Records.names, Records.empty, Entries.keys]

end Evaluation

end TabletopChat
