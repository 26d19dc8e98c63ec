import TabletopChat.Expansion.Expand
import TabletopChat.Proofs.Prompt.Answering

/-!
# Proofs/Expansion/NulFree — null characters do not come from anywhere

What takes the place of a reference, of the data of an actor or of a macro holds no null character, if
there is none in the texts that it is taken from.

- `Json.NulFree`, `Actor.nulFree_substitute`    : data of an actor
- `Library.Macro.NulFree`, `nulFree_lookup`     : macros
- `Selections.NulFree`, `Prompt.nulFree_substitute` : answers
- `Hooks.NulFree`, `Hooks.nulFree_call`         : handlers
-/

namespace TabletopChat

open Text

/-! ## Data of an actor -/

inductive Json.NulFree : Json → Prop
  | null : Json.null.NulFree
  | bool (b : Bool) : (Json.bool b).NulFree
  | int (n : Int) : (Json.int n).NulFree
  | float (x : Float) : (Json.float x).NulFree
  | text {t : Text} (h : Text.NulFree t) : (Json.text t).NulFree
  | list {items : List Json} (h : ∀ v ∈ items, v.NulFree) : (Json.list items).NulFree
  | object {members : List (Text × Json)} (h : ∀ m ∈ members, m.2.NulFree) :
      (Json.object members).NulFree

namespace Actor

/-- A leaf among members is a leaf of one of them. -/
theorem leaf_of_memberLeaves {path : Text} {ms : List (Text × Json)} {e : Text × Text}
    (h : e ∈ memberLeaves path ms) : ∃ m ∈ ms, e ∈ leaves (extend path m.1) m.2 := by
  induction ms with
  | nil =>
      simp [memberLeaves] at h
  | cons m ms ih =>
      rcases m with ⟨k, v⟩
      simp only [memberLeaves, List.mem_append] at h
      rcases h with h | h
      · exact ⟨_, List.mem_cons_self, h⟩
      · rcases ih h with ⟨m, hm, hleaf⟩
        exact ⟨m, List.mem_cons_of_mem _ hm, hleaf⟩

/-- A leaf among items is a leaf of one of them. -/
theorem leaf_of_itemLeaves {path : Text} {i : Nat} {vs : List Json} {e : Text × Text}
    (h : e ∈ itemLeaves path i vs) : ∃ v ∈ vs, ∃ p, e ∈ leaves p v := by
  induction vs generalizing i with
  | nil =>
      simp [itemLeaves] at h
  | cons v vs ih =>
      simp only [itemLeaves, List.mem_append] at h
      rcases h with h | h
      · exact ⟨v, List.mem_cons_self, _, h⟩
      · rcases ih h with ⟨w, hw, hleaf⟩
        exact ⟨w, List.mem_cons_of_mem _ hw, hleaf⟩

/-- The leaves of data without null characters have none. -/
theorem nulFree_leaves {v : Json} (h : v.NulFree) (path : Text) :
    Entries.Every NulFree (leaves path v) := by
  induction h generalizing path with
  | null => exact List.forall_mem_nil _
  | bool b =>
      refine List.forall_mem_singleton.2 ?_
      cases b <;> exact nulFree_of_ofList rfl (by decide)
  | int n => exact List.forall_mem_singleton.2 (nulFree_ofInt n)
  | float x => exact List.forall_mem_singleton.2 (Arithmetic.Number.nulFree_display (.real x))
  | text ht => exact List.forall_mem_singleton.2 ht
  | list _ ih =>
      intro e he
      rcases leaf_of_itemLeaves he with ⟨v, hv, p, hleaf⟩
      exact ih v hv p e hleaf
  | object _ ih =>
      intro e he
      rcases leaf_of_memberLeaves he with ⟨m, hm, hleaf⟩
      exact ih m hm _ e hleaf

theorem nulFree_flatten {data : Entries Json} (h : data.Every Json.NulFree) (path : Text) :
    (flatten path data).Every NulFree := by
  have hleaves : Entries.Every NulFree (leaves path (.object data)) := nulFree_leaves (.object h) path
  exact Entries.Every.update (List.forall_mem_nil _) hleaves

theorem leavesPart_tag? : LeavesPart tag? := by
  rintro t ⟨name, rest⟩ h
  rw [tag?_source h]
  exact fun c hc => by simp [hc]

theorem nulFree_substitute {message : Text} (h : NulFree message) {values : Entries Text}
    (hvalues : values.Every NulFree) : NulFree (substitute message values) := by
  refine nulFree_replaceTags leavesPart_tag? h fun name source hsource => ?_
  cases hvalue : Entries.get? (strip name) values with
  | none => exact hsource
  | some t => exact hvalues.get? hvalue

end Actor

/-! ## Macros -/

namespace Library

def Macro.NulFree (m : Macro) : Prop :=
  Text.NulFree m.content ∧ ∀ e ∈ m.table, Text.NulFree e.value

/-- Nor have the macros that apply to an actor. -/
theorem nulFree_lookup {ms : Macros} (h : ∀ m ∈ ms, m.NulFree) (actor : Option Text) :
    (lookup actor ms).Every Macro.NulFree := by
  have hfold (cs : List Macro) (hcs : ∀ m ∈ cs, m.NulFree) (found : Entries Macro)
      (hfound : found.Every Macro.NulFree) :
      (cs.foldl (fun found m => Entries.insertNew m.tag m found) found).Every Macro.NulFree := by
    induction cs generalizing found with
    | nil =>
        exact hfound
    | cons m cs ih =>
        rcases List.forall_mem_cons.1 hcs with ⟨hm, hrest⟩
        refine ih hrest _ ?_
        dsimp only [Entries.insertNew]
        split
        · exact hfound
        · exact hfound.insert _ hm
  refine hfold _ (fun m hm => ?_) [] (List.forall_mem_nil _)
  rcases List.mem_flatMap.1 hm with ⟨scope, _, hm⟩
  exact h m (List.mem_filter.1 hm).1

theorem leavesPart_invocation? : LeavesPart invocation? := by
  have hof (kind : Kind) (t : Text) : Gives (fun x => x.2 ⊆ t) (invocationOf? kind t) := by
    refine gives_ite ?_ gives_none
    split
    · rename_i heq
      refine gives_some ?_
      intro c hc
      have hmem := List.dropWhile_subset (fun c => decide (c ≠ '\x7d'))
        (l := t.drop (kind.name ++ ['|']).length)
      rw [heq] at hmem
      exact List.drop_subset _ _ (hmem (List.mem_cons_of_mem _ hc))
    · exact gives_none
  intro t
  unfold invocation?
  split
  · rename_i u
    have hcons {r : Text} (hr : r ⊆ u) : r ⊆ '#' :: '\x7b' :: u := fun c hc => by simp [hr hc]
    split
    · rename_i heq
      exact gives_some (hcons (hof _ _ _ heq))
    · intro x hx
      exact hcons (hof _ _ x hx)
  · exact gives_none

end Library

namespace Expansion

open Prompt

/-! ## Answers -/

theorem leavesPart_reference? : LeavesPart Prompt.reference? := by
  intro t
  unfold Prompt.reference?
  split
  · rename_i u
    have hcons {r : Text} (hr : r ⊆ u) : r ⊆ '?' :: '\x7b' :: ':' :: u := fun c hc => by simp [hr hc]
    have hdrop {p : Char → Bool} {c : Char} {r : Text} (h : u.dropWhile p = c :: r) : r ⊆ u :=
      fun d hd => List.dropWhile_subset p (h ▸ List.mem_cons_of_mem _ hd)
    refine gives_ite gives_none ?_
    split
    · rename_i heq
      exact gives_some (hcons (hdrop heq))
    · rename_i more heq
      split
      · rename_i rest hspan
        have hmore := Prompt.Atom.span_source hspan
        refine gives_some (hcons fun c hc => hdrop heq ?_)
        rw [hmore]
        simp [hc]
      · exact gives_none
    · exact gives_none
  · exact gives_none

/-- Replacing references puts no null characters in. -/
theorem nulFree_substitute {message : Text} (h : Text.NulFree message) {s : Selections}
    (hs : s.NulFree) : Text.NulFree (Prompt.substitute message s) := by
  refine nulFree_replaceTags leavesPart_reference? h fun ref _ _ => ?_
  unfold Selections.resolve
  split
  · rename_i parts n hget _
    have hparts : ∀ t ∈ parts, Text.NulFree t := Entries.Every.get? hs hget
    cases hpart : parts[n]? with
    | none => simp [List.getD_eq_getElem?_getD, hpart]
    | some t => simpa [List.getD_eq_getElem?_getD, hpart] using hparts t (List.mem_of_getElem? hpart)
  · exact nulFree_nil

/-! ## Handlers -/

variable {σ : Type}

def Hooks.NulFree (hs : Hooks σ) : Prop :=
  hs.Every fun handlers => ∀ h ∈ handlers, ∀ message args s t, Text.NulFree message →
    (h.change message args s).1 = some t → Text.NulFree t

/-- A handler without null characters leaves a message without them. -/
theorem Hooks.nulFree_apply {h : Handler σ} {args : List Json} {message : Text} {s : σ}
    (hh : ∀ t, (h.change message args s).1 = some t → Text.NulFree t) (hmessage : Text.NulFree message) :
    Text.NulFree (Hooks.apply args (message, s) h).1 := by
  unfold Hooks.apply
  split
  · rename_i heq
    exact hh _ (congrArg Prod.fst heq)
  · exact hmessage

/-- Handlers one after the other put no null characters in. -/
theorem Hooks.nulFree_call {hooks : Hooks σ} (hhooks : hooks.NulFree) (moment : Text) {message : Text}
    (h : Text.NulFree message) (args : List Json) (s : σ) :
    Text.NulFree (Hooks.call moment message args hooks s).1 := by
  have hhandlers : ∀ h ∈ Hooks.handlers moment hooks, ∀ message args s t, Text.NulFree message →
      (h.change message args s).1 = some t → Text.NulFree t := by
    unfold Hooks.handlers
    cases hget : Entries.get? moment hooks with
    | none => exact List.forall_mem_nil _
    | some handlers => exact hhooks.get? hget
  unfold Hooks.call
  generalize Hooks.handlers moment hooks = handlers at hhandlers
  induction handlers generalizing message s with
  | nil => exact h
  | cons handler handlers ih =>
      rcases List.forall_mem_cons.1 hhandlers with ⟨hhandler, hrest⟩
      exact ih (nulFree_apply (fun t => hhandler message args s t h) h) _ hrest

/-! ## Actors -/

/-- Data of an actor whose strings hold no null characters. -/
def ActorData.NulFree (actor : ActorData) : Prop := ∀ data ∈ actor, Entries.Every Json.NulFree data

end Expansion

end TabletopChat
