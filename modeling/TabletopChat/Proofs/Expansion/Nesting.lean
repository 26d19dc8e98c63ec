import Mathlib.Data.List.Dedup
import Mathlib.Data.List.Perm.Subperm
import TabletopChat.Expansion.Expand
import TabletopChat.Prompt.Script

/-!
# Proofs/Expansion/Nesting — macros inside of macros come to an end

A macro may invoke itself, directly or through others, and answers, handlers and data of the actor may
write new invocations into every text. What ends the expansion is the stack of macros that are being
expanded: a macro on it is not expanded again.

- `Expands`            : the expansion by rules, without any bound, with the stacks under which nested
  macros are expanded
- `Expands.unique`, `Expands.nested_eq` : the rules leave no choice, and they keep the stack
- `unused`             : how many macros may still be put on the stack
- `expandText_expands` : the bounded expansion follows the rules, since its bound is never reached
- `nested_expansion_ends` : the whole result
-/

namespace TabletopChat

namespace Expansion

open Library Prompt

variable {σ α β : Type}

/-! ## The expansion by rules -/

def dropRemark (i : Invocation) : Journal :=
  Journal.detail .pipeline ("dropping nested macro ".toList ++ i.tag) []

/-- What is expanded: a text, the pieces that are left of one, or a macro inside of it. -/
inductive Task
  | text (t : Text)
  | pieces (ps : List (Piece Invocation))
  | invocation (i : Invocation)

/-- The stages before the rolls, from a task and a run to the outcome. The list holds the stack of macros
for each nested macro, in the order in which they begin to be expanded. -/
inductive Expands (setup : Setup σ) (actor : ActorData) (macros : Entries Macro) :
    Task → Run σ → List (List Text) → Except Abort Text × Run σ → Prop
  /-- the stages in front of the macros stop -/
  | stopped {t : Text} {r r' : Run σ} {e : Abort} :
      (prepare setup actor t).run r = (.error e, r') →
      Expands setup actor macros (.text t) r [] (.error e, r')
  /-- the macros of the text that the other stages leave -/
  | prepared {t u : Text} {r r' : Run σ} {visited : List (List Text)}
      {outcome : Except Abort Text × Run σ} :
      (prepare setup actor t).run r = (.ok u, r') →
      Expands setup actor macros (.pieces (Text.tagPieces invocation? u)) r' visited outcome →
      Expands setup actor macros (.text t) r visited outcome
  | done {r : Run σ} :
      Expands setup actor macros (.pieces []) r [] (.ok [], r)
  | plain {c : Char} {ps : List (Piece Invocation)} {r r' : Run σ} {visited : List (List Text)}
      {result : Except Abort Text} :
      Expands setup actor macros (.pieces ps) r visited (result, r') →
      Expands setup actor macros (.pieces (.plain c :: ps)) r visited (result.map (c :: ·), r')
  /-- what replaces a macro is not looked at again -/
  | tag {i : Invocation} {source t : Text} {ps : List (Piece Invocation)} {r r' r'' : Run σ}
      {visited visited' : List (List Text)} {result : Except Abort Text} :
      Expands setup actor macros (.invocation i) r visited (.ok t, r') →
      Expands setup actor macros (.pieces ps) r' visited' (result, r'') →
      Expands setup actor macros (.pieces (.tag i source :: ps)) r (visited ++ visited')
        (result.map (t ++ ·), r'')
  | tagStopped {i : Invocation} {source : Text} {ps : List (Piece Invocation)} {r r' : Run σ}
      {visited : List (List Text)} {e : Abort} :
      Expands setup actor macros (.invocation i) r visited (.error e, r') →
      Expands setup actor macros (.pieces (.tag i source :: ps)) r visited (.error e, r')
  | dropped {i : Invocation} {r : Run σ} :
      Entries.get? i.tag macros = none ∨ i.tag ∈ r.nested →
      Expands setup actor macros (.invocation i) r [] (.ok [], ((say (dropRemark i)).run r).2)
  | table {i : Invocation} {m : Macro} {r : Run σ} :
      Entries.get? i.tag macros = some m → i.tag ∉ r.nested → m.kind ≠ .custom →
      Expands setup actor macros (.invocation i) r [] ((rollNested i.tag m.table).run r)
  /-- the tag is on the stack during the expansion, and is taken from it however the expansion ends -/
  | custom {i : Invocation} {m : Macro} {r r' : Run σ} {visited : List (List Text)}
      {result : Except Abort Text} :
      Entries.get? i.tag macros = some m → i.tag ∉ r.nested → m.kind = .custom →
      Expands setup actor macros (.text m.content) { r with nested := i.tag :: r.nested } visited
        (result, r') →
      Expands setup actor macros (.invocation i) r ((i.tag :: r.nested) :: visited)
        (result, { r' with nested := r'.nested.tail })

/-! ## The rules leave no choice -/

variable {setup : Setup σ} {actor : ActorData} {macros : Entries Macro}

/-- A macro that is known and not being expanded is not dropped. -/
theorem not_dropped {tag : Text} {m : Macro} {nested : List Text}
    (hm : Entries.get? tag macros = some m) (hnot : tag ∉ nested) :
    ¬ (Entries.get? tag macros = none ∨ tag ∈ nested) := by
  rintro (hnone | hmem)
  · rw [hm] at hnone
    cases hnone
  · exact hnot hmem

/-- A task and a run have one outcome. -/
theorem Expands.unique {task : Task} {r : Run σ} {visited visited' : List (List Text)}
    {outcome outcome' : Except Abort Text × Run σ}
    (h : Expands setup actor macros task r visited outcome)
    (h' : Expands setup actor macros task r visited' outcome') :
    visited' = visited ∧ outcome' = outcome := by
  -- the rules for a task exclude each other, so both derivations end with the same one
  induction h generalizing visited' outcome' with
  | stopped hp =>
      cases h' with
      | stopped hp' =>
          rw [hp] at hp'
          cases hp'
          exact ⟨rfl, rfl⟩
      | prepared hp' _ =>
          rw [hp] at hp'
          cases hp'
  | prepared hp _ ih =>
      cases h' with
      | stopped hp' =>
          rw [hp] at hp'
          cases hp'
      | prepared hp' hps' =>
          rw [hp] at hp'
          cases hp'
          exact ih hps'
  | done =>
      cases h'
      exact ⟨rfl, rfl⟩
  | plain _ ih =>
      cases h' with
      | plain hps' =>
          rcases ih hps' with ⟨rfl, heq⟩
          cases heq
          exact ⟨rfl, rfl⟩
  | tag _ _ ihi ihps =>
      cases h' with
      | tag hi' hps' =>
          rcases ihi hi' with ⟨rfl, heq⟩
          cases heq
          rcases ihps hps' with ⟨rfl, heq⟩
          cases heq
          exact ⟨rfl, rfl⟩
      | tagStopped hi' =>
          cases (ihi hi').2
  | tagStopped _ ihi =>
      cases h' with
      | tag hi' _ =>
          cases (ihi hi').2
      | tagStopped hi' =>
          exact ihi hi'
  | dropped hdrop =>
      cases h' with
      | dropped _ =>
          exact ⟨rfl, rfl⟩
      | table hm hnot _ =>
          exact (not_dropped hm hnot hdrop).elim
      | custom hm hnot _ _ =>
          exact (not_dropped hm hnot hdrop).elim
  | table hm hnot hkind =>
      cases h' with
      | dropped hdrop =>
          exact (not_dropped hm hnot hdrop).elim
      | table hm' _ _ =>
          rw [hm] at hm'
          cases hm'
          exact ⟨rfl, rfl⟩
      | custom hm' _ hkind' _ =>
          rw [hm] at hm'
          cases hm'
          exact (hkind hkind').elim
  | custom hm hnot hkind _ ih =>
      cases h' with
      | dropped hdrop =>
          exact (not_dropped hm hnot hdrop).elim
      | table hm' _ hkind' =>
          rw [hm] at hm'
          cases hm'
          exact (hkind' hkind).elim
      | custom hm' _ _ ht' =>
          rw [hm] at hm'
          cases hm'
          rcases ih ht' with ⟨rfl, heq⟩
          cases heq
          exact ⟨rfl, rfl⟩

/-! ## The stack is kept -/

def KeepsNested (a : Step σ α) : Prop := Act.Always (fun r r' => r'.nested = r.nested) a

theorem KeepsNested.bind {a : Step σ α} {f : α → Step σ β} (ha : KeepsNested a)
    (hf : ∀ x, KeepsNested (f x)) : KeepsNested (a >>= f) :=
  Act.Always.bind (fun h h' => h'.trans h) ha hf

theorem keepsNested_pure (x : α) : KeepsNested (pure x : Step σ α) := fun _ => rfl

theorem keepsNested_asking (a : Prompt.Asking σ α) : KeepsNested (asking a) := fun _ => rfl

theorem keepsNested_say (entries : Journal) : KeepsNested (say entries : Step σ Unit) :=
  keepsNested_asking _

theorem keepsNested_prepare (setup : Setup σ) (actor : ActorData) (t : Text) :
    KeepsNested (prepare setup actor t) := by
  have hget : KeepsNested (Act.get : Step σ (Run σ)) := fun _ => rfl
  have hcall (u : Text) : KeepsNested (callHooks setup actor Hooks.afterPrompts u) :=
    (keepsNested_say _).bind fun _ _ => rfl
  exact (keepsNested_asking _).bind fun _ => hget.bind fun _ => (hcall _).bind fun _ =>
    keepsNested_pure _

/-- A table leaves the stack of macros as it is. -/
theorem keepsNested_rollNested (tag : Text) (table : List TableEntry) :
    KeepsNested (rollNested tag table : Step σ Text) := by
  have hattempt : KeepsNested
      (Act.attempt (rolling (rollTable table)) : Step σ (Except Abort Text)) := fun _ => rfl
  refine hattempt.bind fun result => ?_
  cases result with
  | ok t =>
      exact keepsNested_pure t
  | error e =>
      simp only
      split
      · exact (keepsNested_say _).bind fun _ => keepsNested_pure _
      · exact fun _ => rfl

/-- However a task ends, the stack is what it was. -/
theorem Expands.nested_eq {task : Task} {r : Run σ} {visited : List (List Text)}
    {outcome : Except Abort Text × Run σ} (h : Expands setup actor macros task r visited outcome) :
    outcome.2.nested = r.nested := by
  induction h with
  | @stopped t r r' e hp =>
      have hkeep := keepsNested_prepare setup actor t r
      rwa [hp] at hkeep
  | @prepared t u r r' visited outcome hp _ ih =>
      have hkeep := keepsNested_prepare setup actor t r
      rw [hp] at hkeep
      exact ih.trans hkeep
  | done =>
      rfl
  | plain _ ih =>
      exact ih
  | tag _ _ ihi ihps =>
      exact ihps.trans ihi
  | tagStopped _ ihi =>
      exact ihi
  | dropped _ =>
      rfl
  | @table i m r _ _ _ =>
      exact keepsNested_rollNested i.tag m.table r
  | custom _ _ _ _ ih =>
      -- the inner expansion leaves the tag on top, and only this tag is taken away
      simp only at ih
      simp [ih]

/-! ## How the stack grows -/

/-- A stack that grew out of another one by tags of known macros, none of them twice. -/
def Grown (macros : Entries Macro) (nested stack : List Text) : Prop :=
  ∃ pushed, stack = pushed ++ nested ∧ pushed.Nodup ∧
    ∀ tag ∈ pushed, tag ∈ Entries.keys macros ∧ tag ∉ nested

/-- What has grown from a stack with a tag pushed has grown from the stack below. -/
theorem Grown.of_push {tag : Text} {nested stack : List Text} (hkey : tag ∈ Entries.keys macros)
    (hnot : tag ∉ nested) (h : Grown macros (tag :: nested) stack) : Grown macros nested stack := by
  rcases h with ⟨pushed, rfl, hnodup, hpushed⟩
  refine ⟨pushed ++ [tag], by simp, ?_, ?_⟩
  · rw [List.nodup_append]
    refine ⟨hnodup, List.nodup_singleton tag, ?_⟩
    intro a ha b hb hab
    rw [List.mem_singleton.1 hb] at hab
    exact (hpushed a ha).2 (by simp [hab])
  · intro a ha
    rcases List.mem_append.1 ha with ha | ha
    · have hnew := hpushed a ha
      exact ⟨hnew.1, fun hmem => hnew.2 (List.mem_cons_of_mem _ hmem)⟩
    · rw [List.mem_singleton.1 ha]
      exact ⟨hkey, hnot⟩

/-- The stack of macros has no tag twice. -/
theorem Grown.nodup {nested stack : List Text} (h : Grown macros nested stack)
    (hnested : nested.Nodup) : stack.Nodup := by
  rcases h with ⟨pushed, rfl, hnodup, hpushed⟩
  rw [List.nodup_append]
  refine ⟨hnodup, hnested, ?_⟩
  intro a ha b hb hab
  exact (hpushed a ha).2 (hab ▸ hb)

/-- The stack is no deeper than there are macros. -/
theorem Grown.length_le {nested stack : List Text} (h : Grown macros nested stack) :
    stack.length ≤ nested.length + (Entries.keys macros).dedup.length := by
  rcases h with ⟨pushed, rfl, hnodup, hpushed⟩
  have hsub : pushed ⊆ (Entries.keys macros).dedup := by
    intro tag htag
    exact List.mem_dedup.2 (hpushed tag htag).1
  have hle := (hnodup.subperm hsub).length_le
  rw [List.length_append]
  omega

/-- Each nested macro is expanded under a stack that grew out of the one at the beginning. -/
theorem Expands.grown {task : Task} {r : Run σ} {visited : List (List Text)}
    {outcome : Except Abort Text × Run σ} (h : Expands setup actor macros task r visited outcome) :
    ∀ stack ∈ visited, Grown macros r.nested stack := by
  induction h with
  | stopped _ => simp
  | done => simp
  | dropped _ => simp
  | table _ _ _ => simp
  | @prepared t u r r' visited outcome hp _ ih =>
      have hkeep := keepsNested_prepare setup actor t r
      rw [hp] at hkeep
      rwa [← hkeep]
  | plain _ ih =>
      exact ih
  | tag hi _ ihi ihps =>
      -- the rest of the text begins with the stack with which the macro began
      have hkeep := hi.nested_eq
      simp only at hkeep
      rw [hkeep] at ihps
      intro stack hstack
      rcases List.mem_append.1 hstack with hfirst | hrest
      · exact ihi stack hfirst
      · exact ihps stack hrest
  | tagStopped _ ihi =>
      exact ihi
  | @custom i m r r' visited result hm hnot _ _ ih =>
      have hkey := Entries.mem_keys_of_get? hm
      intro stack hstack
      rcases List.mem_cons.1 hstack with rfl | hinner
      · exact Grown.of_push hkey hnot ⟨[], rfl, List.nodup_nil, by simp⟩
      · exact (ih stack hinner).of_push hkey hnot

/-! ## The bound is never reached -/

def unused (macros : Entries Macro) (nested : List Text) : Nat :=
  ((Entries.keys macros).filter (· ∉ nested)).length

/-- With each tag on the stack, one fewer is unused. -/
theorem unused_push_lt {tag : Text} {nested : List Text} (hkey : tag ∈ Entries.keys macros)
    (hnot : tag ∉ nested) : unused macros (tag :: nested) < unused macros nested := by
  have hfilter : (Entries.keys macros).filter (· ∉ tag :: nested) =
      ((Entries.keys macros).filter (· ∉ nested)).filter (· ≠ tag) := by
    rw [List.filter_filter]
    congr 1
    funext a
    simp [not_or]
  unfold unused
  rw [hfilter, List.length_filter_lt_length_iff_exists]
  exact ⟨tag, by simp [hkey, hnot], by simp⟩

theorem unused_le (macros : Entries Macro) (nested : List Text) :
    unused macros nested ≤ macros.length := by
  have hle := List.length_filter_le (fun a => decide (a ∉ nested)) (Entries.keys macros)
  simpa [unused, Entries.keys] using hle

theorem run_isNested (tag : Text) (r : Run σ) :
    (isNested tag : Step σ Bool).run r = (.ok (decide (tag ∈ r.nested)), r) := rfl

/-- A macro that is dropped leaves nothing but a remark. -/
theorem run_expandInvocation_dropped {expand : Text → Step σ Text} {i : Invocation} {r : Run σ}
    (h : Entries.get? i.tag macros = none ∨ i.tag ∈ r.nested) :
    (expandInvocation macros expand i).run r = (.ok [], ((say (dropRemark i)).run r).2) := by
  rw [expandInvocation, Act.run_bind_of_ok (run_isNested i.tag r)]
  rcases h with hnone | hmem
  · rw [hnone]
    rfl
  · rw [decide_eq_true hmem]
    cases Entries.get? i.tag macros <;> rfl

theorem run_expandInvocation_found {expand : Text → Step σ Text} {i : Invocation} {m : Macro}
    {r : Run σ} (hm : Entries.get? i.tag macros = some m) (hnot : i.tag ∉ r.nested) :
    (expandInvocation macros expand i).run r =
      (if m.kind = .custom then within i.tag (expand m.content)
        else rollNested i.tag m.table).run r := by
  rw [expandInvocation, Act.run_bind_of_ok (run_isNested i.tag r), hm, decide_eq_false hnot]

/-- Expanding an invocation is one of the steps of an expansion. -/
theorem expandInvocation_expands {expand : Text → Step σ Text} (i : Invocation) (r : Run σ)
    (hexpand : ∀ m, Entries.get? i.tag macros = some m → i.tag ∉ r.nested →
      ∃ visited, Expands setup actor macros (.text m.content) { r with nested := i.tag :: r.nested }
        visited ((expand m.content).run { r with nested := i.tag :: r.nested })) :
    ∃ visited, Expands setup actor macros (.invocation i) r visited
      ((expandInvocation macros expand i).run r) := by
  by_cases hdrop : Entries.get? i.tag macros = none ∨ i.tag ∈ r.nested
  · rw [run_expandInvocation_dropped hdrop]
    exact ⟨[], .dropped hdrop⟩
  · rw [not_or] at hdrop
    rcases Option.ne_none_iff_exists'.1 hdrop.1 with ⟨m, hm⟩
    rw [run_expandInvocation_found hm hdrop.2]
    by_cases hkind : m.kind = .custom
    · rcases hexpand m hm hdrop.2 with ⟨visited, hvisited⟩
      simp only [hkind, if_true]
      exact ⟨_, .custom hm hdrop.2 hkind hvisited⟩
    · simp only [hkind, if_false]
      exact ⟨[], .table hm hdrop.2 hkind⟩

/-- Expanding the pieces of a text is a row of such steps. -/
theorem expandPieces_expands {expand : Text → Step σ Text} (nested : List Text)
    (hexpand : ∀ tag m (r : Run σ), Entries.get? tag macros = some m → tag ∉ nested →
      r.nested = tag :: nested →
      ∃ visited, Expands setup actor macros (.text m.content) r visited ((expand m.content).run r))
    (ps : List (Piece Invocation)) (r : Run σ) (hr : r.nested = nested) :
    ∃ visited, Expands setup actor macros (.pieces ps) r visited
      ((expandPieces macros expand ps).run r) := by
  induction ps generalizing r with
  | nil =>
      exact ⟨[], .done⟩
  | cons p ps ih =>
      cases p with
      | plain c =>
          rcases ih r hr with ⟨visited, hvisited⟩
          rw [expandPieces, Act.run_bind_pure]
          exact ⟨visited, .plain hvisited⟩
      | tag i source =>
          have hinvocation : ∃ visited, Expands setup actor macros (.invocation i) r visited
              ((expandInvocation macros expand i).run r) := by
            -- what is invoked is expanded with its own tag among those that are open
            refine expandInvocation_expands i r fun m hm hnot => ?_
            exact hexpand i.tag m _ hm (hr ▸ hnot) (by simp [hr])
          rcases hinvocation with ⟨visited, hvisited⟩
          rw [expandPieces]
          rcases h : (expandInvocation macros expand i).run r with ⟨result, r'⟩
          rw [h] at hvisited
          cases result with
          | error e =>
              rw [Act.run_bind_of_error h]
              exact ⟨visited, .tagStopped hvisited⟩
          | ok t =>
              rcases ih r' (hvisited.nested_eq.trans hr) with ⟨rest, hrest⟩
              rw [Act.run_bind_of_ok h, Act.run_bind_pure]
              exact ⟨visited ++ rest, .tag hvisited hrest⟩

/-- The stages before the rolls follow the rules if the expansion of the macros inside does. -/
theorem prepare_expands {expand : Text → Step σ Text} (t : Text) (r : Run σ)
    (hexpand : ∀ tag m (s : Run σ), Entries.get? tag macros = some m → tag ∉ r.nested →
      s.nested = tag :: r.nested →
      ∃ visited, Expands setup actor macros (.text m.content) s visited ((expand m.content).run s)) :
    ∃ visited, Expands setup actor macros (.text t) r visited
      ((prepare setup actor t >>= fun u =>
        expandPieces macros expand (Text.tagPieces invocation? u)).run r) := by
  have hkeep := keepsNested_prepare setup actor t r
  rcases hp : (prepare setup actor t).run r with ⟨result, r'⟩
  rw [hp] at hkeep
  cases result with
  | error e =>
      rw [Act.run_bind_of_error hp]
      exact ⟨[], .stopped hp⟩
  | ok u =>
      rw [Act.run_bind_of_ok hp]
      rcases expandPieces_expands r.nested hexpand (Text.tagPieces invocation? u) r' hkeep with
        ⟨visited, hvisited⟩
      exact ⟨visited, .prepared hp hvisited⟩

/-- With a bound as large as the number of macros that are not on the stack, the bounded expansion
follows the rules. -/
theorem expandText_expands (setup : Setup σ) (actor : ActorData) (macros : Entries Macro) (depth : Nat)
    (t : Text) (r : Run σ) (hdepth : unused macros r.nested ≤ depth) :
    ∃ visited, Expands setup actor macros (.text t) r visited
      ((expandText setup actor macros depth t).run r) := by
  induction depth generalizing t r with
  | zero =>
      refine prepare_expands t r fun tag m s hm hnot _ => ?_
      -- all macros are on the stack
      have hlt := unused_push_lt (Entries.mem_keys_of_get? hm) hnot
      omega
  | succ depth ih =>
      refine prepare_expands t r fun tag m s hm hnot hs => ?_
      have hlt := unused_push_lt (Entries.mem_keys_of_get? hm) hnot
      exact ih m.content s (by rw [hs]; omega)

/-- The expansion of a text ends, whatever the macros, the answers, the hooks and the actor are: it
follows the rules, which have no bound, and they leave no other outcome. The stack never holds a tag
twice, it grows by no more tags than can be looked up, and after each macro inside of a text, also one
that stops, it is what it was before. -/
theorem nested_expansion_ends (setup : Setup σ) (actor : ActorData) (t : Text) (r : Run σ)
    (hr : r.nested.Nodup) :
    let macros := lookup (actorId actor) setup.library
    ∃ visited,
      Expands setup actor macros (.text t) r visited
        ((expandText setup actor macros macros.length t).run r) ∧
      (∀ visited' outcome, Expands setup actor macros (.text t) r visited' outcome →
        visited' = visited ∧ outcome = (expandText setup actor macros macros.length t).run r) ∧
      (∀ stack ∈ visited, stack.Nodup ∧
        stack.length ≤ r.nested.length + (Entries.keys macros).dedup.length) ∧
      ∀ i s inner outcome, Expands setup actor macros (.invocation i) s inner outcome →
        outcome.2.nested = s.nested := by
  intro macros
  rcases expandText_expands setup actor macros macros.length t r (unused_le macros r.nested) with
    ⟨visited, hvisited⟩
  refine ⟨visited, hvisited, ?_, ?_, ?_⟩
  · intro visited' outcome h'
    exact hvisited.unique h'
  · intro stack hstack
    have hgrown := hvisited.grown stack hstack
    exact ⟨hgrown.nodup hr, hgrown.length_le⟩
  · intro i s inner outcome h
    exact h.nested_eq

def pingPong : Macros :=
  [⟨"ping".toList, .custom, "a #\x7bcustom|pong\x7d".toList, [], .all, none⟩,
    ⟨"pong".toList, .custom, "b #\x7bcustom|ping\x7d".toList, [], .all, none⟩]

/-- An expansion that knows the two macros and leaves all questions to their fallbacks. -/
def pingPongSetup : Setup Unit where
  answerer := Script.answerer ⟨[], []⟩
  roller := .shorthand
  library := pingPong
  hooks := []
  inlineMath := false

def pingPongRun : Run Unit where
  session := ⟨⟨(), [], ⟨"choices".toList, []⟩, .memory [], []⟩, .fixed 1, []⟩
  selections := []
  nested := [tagOf "custom".toList "ping".toList]

/-- Two macros that invoke each other. -/
theorem nested_expansion_ends_pingPong :
    pingPongRun.nested.Nodup ∧
      let macros := lookup (actorId none) pingPong
      let t := "#\x7bcustom|pong\x7d".toList
      ∃ visited,
        Expands pingPongSetup none macros (.text t) pingPongRun visited
          ((expandText pingPongSetup none macros macros.length t).run pingPongRun) ∧
        ∀ stack ∈ visited, stack.Nodup ∧
          stack.length ≤ pingPongRun.nested.length + (Entries.keys macros).dedup.length := by
  have hstart : pingPongRun.nested.Nodup := by decide
  rcases nested_expansion_ends pingPongSetup none "#\x7bcustom|pong\x7d".toList pingPongRun hstart with
    ⟨visited, hexpands, _, hstack, _⟩
  exact ⟨hstart, visited, hexpands, hstack⟩

end Expansion

end TabletopChat
