import Mathlib.Logic.Relation
import TabletopChat.Library.Lookup
import TabletopChat.Proofs.Entries

/-!
# Proofs/Library/Precedence — which of several macros a tag invokes

Labels that differ may have the same tag, and macros of all scopes and owners stand side by side in a
library. For an actor a tag invokes the first of the macros that the actor can use: by scope, narrow
scopes first, and among those of one scope by place. What the actor cannot use makes no difference,
wherever it stands.

- `Applicable`, `Foreign`   : macros that can be used for an actor, and all others
- `Scope.rank`, `First`     : which macro takes precedence
- `get?_lookup`             : what is found is the first candidate with the tag
- `Edit`                    : changes of a library that an actor cannot notice
- `lookup_by_precedence`    : the macro that a tag invokes
-/

namespace TabletopChat

namespace Library

variable {actor : Option Text} {ms ms' : Macros} {m n : Macro} {tag : Text} {scope : Scope} {i j : Nat}

/-! ## What an actor can use -/

/-- A macro that can be used for an actor, or for none: it belongs to this actor, to the world or to all. -/
def Applicable (actor : Option Text) (m : Macro) : Prop :=
  (m.scope = .actor ∧ ∃ a, actor = some a ∧ m.owner = some a) ∨ m.scope = .world ∨ m.scope = .all

/-- A macro that is of no use to an actor: it belongs to somebody else, or has a scope of another name. -/
def Foreign (actor : Option Text) (m : Macro) : Prop :=
  (m.scope = .actor ∧ ∀ a, actor = some a → m.owner ≠ some a) ∨ ∃ name, m.scope = .other name

theorem not_applicable_iff : ¬ Applicable actor m ↔ Foreign actor m := by
  unfold Applicable Foreign
  cases m.scope <;> simp

/-- What is looked up in a scope are the macros of this scope that the actor can use. -/
theorem appliesTo_iff (hscope : scope ∈ scopes) :
    appliesTo actor scope m = true ↔ m.scope = scope ∧ Applicable actor m := by
  have hknown : ∀ name, scope ≠ .other name := by
    rintro name rfl
    simp [scopes] at hscope
  unfold appliesTo Applicable
  cases scope with
  | actor => cases actor <;> simp +contextual
  | world => simp +contextual
  | all => simp +contextual
  | other name => exact absurd rfl (hknown name)

/-- A macro that can be used has a scope in which is looked. -/
theorem Applicable.scope_mem (h : Applicable actor m) : m.scope ∈ scopes := by
  rcases h with ⟨h, -⟩ | h | h <;> simp [scopes, h]

/-- It is found where its scope is looked up. -/
theorem Applicable.appliesTo (h : Applicable actor m) : Library.appliesTo actor m.scope m = true :=
  (appliesTo_iff h.scope_mem).2 ⟨rfl, h⟩

/-! ## Precedence -/

def Scope.rank : Scope → Nat
  | .actor => 0
  | .world => 1
  | .all => 2
  | .other _ => 3

/-- Scopes are looked up in the order of their ranks. -/
theorem rank_lt {narrower wider : List Scope} {later : Scope} (h : scopes = narrower ++ scope :: wider)
    (hlater : later ∈ wider) : scope.rank < later.rank := by
  have hranks : scopes.Pairwise fun s t => s.rank < t.rank := by decide
  rw [h, List.pairwise_append, List.pairwise_cons] at hranks
  exact hranks.2.1.1 later hlater

/-- A macro at a place of a library is the first of those that an actor can use by a tag: no other has a
narrower scope, and none of the same scope stands in front of it. -/
structure First (actor : Option Text) (ms : Macros) (tag : Text) (i : Nat) (m : Macro) : Prop where
  here : ms[i]? = some m
  applicable : Applicable actor m
  tagged : m.tag = tag
  first : ∀ j n, ms[j]? = some n → Applicable actor n → n.tag = tag →
    m.scope.rank < n.scope.rank ∨ m.scope.rank = n.scope.rank ∧ i ≤ j

/-- Only one macro is the first. -/
theorem First.unique (hm : First actor ms tag i m) (hn : First actor ms tag j n) : m = n := by
  have hle := hm.first j n hn.here hn.applicable hn.tagged
  have hge := hn.first i m hm.here hm.applicable hm.tagged
  obtain rfl : i = j := by omega
  have hsame := hm.here.symm.trans hn.here
  exact Option.some.inj hsame

/-! ## What is found -/

/-- Entries that are written only where they are new keep what they hold, and behind it the first macro
with a tag counts. -/
theorem get?_foldl_insertNew (tag : Text) (ms : List Macro) (es : Entries Macro) :
    Entries.get? tag (ms.foldl (fun found m => Entries.insertNew m.tag m found) es) =
      (Entries.get? tag es).or (ms.find? fun m => m.tag = tag) := by
  induction ms generalizing es with
  | nil => simp
  | cons m ms ih =>
    rw [List.foldl_cons, ih, Entries.insertNew]
    by_cases htag : m.tag = tag
    · subst htag
      cases hes : Entries.get? m.tag es with
      | none => simp [Entries.has, hes]
      | some old => simp [Entries.has, hes]
    · have hother : Entries.get? tag (Entries.insert m.tag m es) = Entries.get? tag es :=
        Entries.get?_insert_of_ne m es htag
      split <;> simp [hother, htag]

/-- A tag is looked up scope by scope, and in each of them from the front. -/
theorem get?_lookup (actor : Option Text) (ms : Macros) (tag : Text) :
    Entries.get? tag (lookup actor ms) =
      scopes.findSome? fun scope => ms.find? fun m => appliesTo actor scope m && m.tag = tag := by
  rw [lookup, get?_foldl_insertNew, candidates, List.find?_flatMap]
  simp [List.find?_filter]

/-- What is found under a tag is the first macro that can be used by it. -/
theorem exists_first (h : Entries.get? tag (lookup actor ms) = some m) : ∃ i, First actor ms tag i m := by
  rw [get?_lookup] at h
  obtain ⟨narrower, scope, wider, hscopes, hfind, hnone⟩ := List.findSome?_eq_some_iff.1 h
  have hscope : scope ∈ scopes := by simp [hscopes]
  obtain ⟨hm, i, hi, hhere, hbefore⟩ := List.find?_eq_some_iff_getElem.1 hfind
  rw [Bool.and_eq_true, appliesTo_iff hscope, decide_eq_true_eq] at hm
  obtain ⟨⟨hmscope, happlicable⟩, htag⟩ := hm
  refine ⟨i, by rw [List.getElem?_eq_getElem hi, hhere], happlicable, htag, fun j n hj hn hntag => ?_⟩
  have hfits : (appliesTo actor n.scope n && decide (n.tag = tag)) = true := by
    rw [hn.appliesTo, hntag, decide_eq_true rfl, Bool.and_self]
  -- the scope of the other macro was looked up before, is the same, or comes later
  have hwhere := hn.scope_mem
  rw [hscopes, List.mem_append, List.mem_cons] at hwhere
  rcases hwhere with hnarrower | hsame | hwider
  · have hnot := List.find?_eq_none.1 (hnone _ hnarrower) n (List.mem_of_getElem? hj)
    exact absurd hfits hnot
  · refine .inr ⟨by rw [hmscope, hsame], ?_⟩
    by_contra hlate
    obtain ⟨hlt, hjn⟩ := List.getElem?_eq_some_iff.1 hj
    have hnot := hbefore j (by omega)
    rw [hjn, ← hsame, hfits] at hnot
    cases hnot
  · rw [hmscope]
    exact .inl (rank_lt hscopes hwider)

/-- A tag is found exactly if an applicable macro has it. -/
theorem isSome_get?_lookup :
    (Entries.get? tag (lookup actor ms)).isSome = true ↔ ∃ m ∈ ms, Applicable actor m ∧ m.tag = tag := by
  constructor
  · intro h
    obtain ⟨m, hm⟩ := Option.isSome_iff_exists.1 h
    obtain ⟨i, hfirst⟩ := exists_first hm
    exact ⟨m, List.mem_of_getElem? hfirst.here, hfirst.applicable, hfirst.tagged⟩
  · rintro ⟨m, hmem, happlicable, htag⟩
    rw [get?_lookup, List.findSome?_isSome_iff]
    refine ⟨m.scope, happlicable.scope_mem, List.find?_isSome.2 ⟨m, hmem, ?_⟩⟩
    rw [happlicable.appliesTo, htag, decide_eq_true rfl, Bool.and_self]

/-- What is found is the first applicable macro with the tag. -/
theorem get?_lookup_iff :
    Entries.get? tag (lookup actor ms) = some m ↔ ∃ i, First actor ms tag i m := by
  constructor
  · exact exists_first
  · rintro ⟨i, hfirst⟩
    have hsome : (Entries.get? tag (lookup actor ms)).isSome = true :=
      isSome_get?_lookup.2 ⟨m, List.mem_of_getElem? hfirst.here, hfirst.applicable, hfirst.tagged⟩
    obtain ⟨n, hn⟩ := Option.isSome_iff_exists.1 hsome
    obtain ⟨j, hother⟩ := exists_first hn
    rw [hn, hfirst.unique hother]

/-! ## What makes no difference -/

/-- One change of a library that is of no use to an actor: a macro that is foreign is added, is removed or
becomes another one that is. -/
inductive Edit (actor : Option Text) : Macros → Macros → Prop
  | add {m : Macro} (before after : Macros) (hm : Foreign actor m) :
      Edit actor (before ++ after) (before ++ m :: after)
  | remove {m : Macro} (before after : Macros) (hm : Foreign actor m) :
      Edit actor (before ++ m :: after) (before ++ after)
  | change {m n : Macro} (before after : Macros) (hm : Foreign actor m) (hn : Foreign actor n) :
      Edit actor (before ++ m :: after) (before ++ n :: after)

theorem Foreign.not_appliesTo (h : Foreign actor m) (hscope : scope ∈ scopes) :
    appliesTo actor scope m = false := by
  rw [← Bool.not_eq_true, appliesTo_iff hscope]
  exact fun hboth => not_applicable_iff.2 h hboth.2

/-- An edit leaves the same candidates in the same order. -/
theorem Edit.candidates_eq (h : Edit actor ms ms') : candidates actor ms' = candidates actor ms := by
  refine List.flatMap_congr fun scope hscope => ?_
  cases h with
  | add before after hm => simp [hm.not_appliesTo hscope]
  | remove before after hm => simp [hm.not_appliesTo hscope]
  | change before after hm hn => simp [hm.not_appliesTo hscope, hn.not_appliesTo hscope]

theorem lookup_of_edits (h : Relation.ReflTransGen (Edit actor) ms ms') :
    lookup actor ms' = lookup actor ms := by
  induction h with
  | refl => rfl
  | tail _ hedit ih => rw [← ih, lookup, lookup, hedit.candidates_eq]

/-! ## The macro that a tag invokes -/

/-- A tag invokes a macro exactly if some macro with this tag can be used by the actor, namely the first
one by scope and then by place; and no edits of macros that the actor cannot use change anything about
it. -/
theorem lookup_by_precedence (actor : Option Text) (ms : Macros) :
    (∀ tag, (Entries.get? tag (lookup actor ms)).isSome = true ↔
      ∃ m ∈ ms, Applicable actor m ∧ m.tag = tag) ∧
    (∀ tag m, Entries.get? tag (lookup actor ms) = some m ↔ ∃ i, First actor ms tag i m) ∧
    ∀ ms', Relation.ReflTransGen (Edit actor) ms ms' → lookup actor ms' = lookup actor ms :=
  ⟨fun _ => isSome_get?_lookup, fun _ _ => get?_lookup_iff, fun _ => lookup_of_edits⟩

/-- Macros whose labels have one tag: one for all, one of another actor, one of the world, and two of Ann. -/
def fireBalls : Macros :=
  let fireBall (label content : String) (scope : Scope) (owner : Option String) : Macro :=
    ⟨label.toList, .custom, content.toList, [], scope, owner.map String.toList⟩
  [fireBall "Fire Ball" "1d4" .all none, fireBall "fire ball!" "1d6" .actor (some "bob"),
    fireBall "FIRE BALL" "1d8" .world none, fireBall "fire-ball" "1d10" .actor (some "ann"),
    fireBall "Fire ball" "1d12" .actor (some "ann")]

/-- Ann invokes the first of her own, and still does so without the one of Bob. -/
theorem lookup_by_precedence_shared :
    let ann := some "ann".toList
    let fewer := fireBalls.eraseIdx 1
    Relation.ReflTransGen (Edit ann) fireBalls fewer ∧
      Entries.get? "#\x7bcustom|fire-ball\x7d".toList (lookup ann fireBalls) = fireBalls[3]? ∧
      lookup ann fewer = lookup ann fireBalls := by
  intro ann fewer
  have hremove : Relation.ReflTransGen (Edit ann) fireBalls fewer :=
    .single (.remove (fireBalls.take 1) (fireBalls.drop 2) (.inl ⟨rfl, by decide⟩))
  exact ⟨hremove, by decide, (lookup_by_precedence ann fireBalls).2.2 fewer hremove⟩

end Library

end TabletopChat
