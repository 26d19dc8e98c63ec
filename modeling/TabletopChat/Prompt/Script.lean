import TabletopChat.Prompt.Answerer
import TabletopChat.Entries

/-!
# Prompt/Script — answers that are prepared

- `Picks`  : a prepared choice
- `Script` : prepared answers by query
- `Script.answerer` : an answerer that gives them
-/

namespace TabletopChat

namespace Prompt

/-- A prepared choice: by positions, which are counted from one, or by labels. -/
inductive Picks
  | positions (ns : List Int)
  | labels (ls : List Text)
  deriving DecidableEq, Repr

/-- The choices that are picked. Positions are taken in their order, and those that do not exist are
left out; labels pick choices in the order in which they are offered. -/
def Picks.from (choices : List Choice) : Picks → List Choice
  | .positions ns => ns.filterMap fun
    | .ofNat (n + 1) => choices[n]?
    | _ => none
  | .labels ls => choices.filter fun c => ls.contains c.label

/-- Prepared answers by query; a query without an answer is dismissed. -/
structure Script where
  texts : Entries (Option Text)
  choices : Entries (Option Picks)
  deriving Repr

/-- Gives the prepared answers. Where there is none, the fallback and the choices that were made last
time are the answer. -/
def Script.answerer (s : Script) : Answerer Unit where
  text query fallback _ := ⟨(Entries.get? query s.texts).getD (some fallback), [], ()⟩
  choice query _ choices _ :=
    match Entries.get? query s.choices with
    | none => ⟨some (choices.filter Choice.selected), [], ()⟩
    | some none => ⟨none, [], ()⟩
    | some (some picks) => ⟨some (picks.from choices), [], ()⟩

/-- Only choices that are offered are picked. -/
theorem Picks.mem_of_mem_from {choices : List Choice} {picks : Picks} {c : Choice}
    (h : c ∈ picks.from choices) : c ∈ choices := by
  cases picks with
  | positions ns =>
    rcases List.mem_filterMap.1 h with ⟨n, _, hc⟩
    split at hc
    · exact List.mem_of_getElem? hc
    · cases hc
  | labels ls => exact (List.mem_filter.1 h).1

/-- Prepared answers choose only from what is offered. -/
theorem Script.answerer_faithful (s : Script) : s.answerer.Faithful := by
  intro query kind choices _ chosen h c hc
  simp only [Script.answerer] at h
  split at h
  · cases h
    exact (List.mem_filter.1 hc).1
  · cases h
  · cases h
    exact Picks.mem_of_mem_from hc

end Prompt

end TabletopChat
