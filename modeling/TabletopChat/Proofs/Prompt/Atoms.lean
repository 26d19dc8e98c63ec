import TabletopChat.Regex.Match
import TabletopChat.Proofs.Prompt.TagSource

/-!
# Proofs/Prompt/Atoms — atoms as a pattern

The atoms of a prompt tag are characters and tags for actor data. A text that begins with atoms is their
source with something behind it that is none, and in one way only. So a pattern that repeats atoms takes
the same as the reader of atoms, and gives nothing back.

- `Atom.Written`      : atoms that occur in texts
- `Atom.span_append`  : the atoms at the beginning of a text
- `takes_atomOf`      : the pattern of an atom
- `run_several_atoms` : the pattern of several atoms
- `run_maybe_atoms`   : all atoms in front of a closing brace
-/

namespace TabletopChat

namespace Prompt

open Regex

/-! ## Atoms in texts -/

def notClosing (c : Char) : Bool := c ≠ '\x7d'

namespace Atom

/-- An atom that occurs in texts: no brace, or a tag with a name. -/
def Written : Atom → Prop
  | .plain c => c ≠ '\x7b' ∧ c ≠ '\x7d'
  | .actor name => name ≠ [] ∧ ∀ c ∈ name, notClosing c = true

instance : DecidablePred Written
  | .plain c => inferInstanceAs (Decidable (c ≠ '\x7b' ∧ c ≠ '\x7d'))
  | .actor name =>
    decidable_of_iff (name ≠ [] ∧ name.all notClosing = true) (and_congr_right fun _ => List.all_eq_true)

theorem source_ne_nil (a : Atom) : a.source ≠ [] := by
  cases a <;> simp [source]

theorem sourceOf_cons (a : Atom) (as : List Atom) : sourceOf (a :: as) = a.source ++ sourceOf as :=
  List.flatMap_cons

theorem sourceOf_append (as bs : List Atom) : sourceOf (as ++ bs) = sourceOf as ++ sourceOf bs :=
  List.flatMap_append

/-- The source of an atom is read as this atom, whatever follows. -/
theorem first?_append {a : Atom} (ha : a.Written) (rest : Text) : first? (a.source ++ rest) = some (a, rest) := by
  cases a with
  | plain c => simp [source, first?, ha.1, ha.2]
  | actor name =>
    rcases name with _ | ⟨n, name⟩
    · exact absurd rfl ha.1
    · have hcut := takeWhile_dropWhile_append (p := notClosing)
        (t := '\x7d' :: '\x7d' :: rest) ha.2 (by simp [notClosing])
      have htag : Actor.tag? ('\x7b' :: '\x7b' :: ((n :: name) ++ '\x7d' :: '\x7d' :: rest)) =
          some (n :: name, rest) := by
        simp only [Actor.tag?]
        have hdrop : ((n :: name) ++ '\x7d' :: '\x7d' :: rest).dropWhile (fun c => decide (c ≠ '\x7d')) =
            '\x7d' :: '\x7d' :: rest := hcut.2
        have htake : ((n :: name) ++ '\x7d' :: '\x7d' :: rest).takeWhile (fun c => decide (c ≠ '\x7d')) =
            n :: name := hcut.1
        simp only [hdrop, htake]
      have hsource : (actor (n :: name)).source ++ rest =
          '\x7b' :: '\x7b' :: ((n :: name) ++ '\x7d' :: '\x7d' :: rest) := by simp [source]
      rw [hsource, first?, if_pos rfl, htag]

/-- What is read as an atom is one. -/
theorem written_of_first? {t rest : Text} {a : Atom} (h : first? t = some (a, rest)) : a.Written := by
  cases t with
  | nil => cases h
  | cons c cs =>
    by_cases hopen : c = '\x7b'
    · simp only [first?, hopen, if_true] at h
      split at h
      · rename_i n name after htag
        cases h
        refine ⟨List.cons_ne_nil n name, fun d hd => ?_⟩
        unfold Actor.tag? at htag
        split at htag
        · split at htag
          · simp only [Option.some.injEq, Prod.mk.injEq] at htag
            rw [← htag.1] at hd
            exact List.mem_takeWhile_imp (p := notClosing) hd
          · cases htag
        · cases htag
      · cases h
    · by_cases hclose : c = '\x7d'
      · simp [first?, hclose] at h
      · simp only [first?, hopen, hclose, if_false, Option.some.injEq, Prod.mk.injEq] at h
        rcases h with ⟨rfl, rfl⟩
        exact ⟨hopen, hclose⟩

/-- Every text is cut where its atoms end. -/
theorem exists_atoms (t : Text) :
    ∃ as e, t = sourceOf as ++ e ∧ (∀ a ∈ as, a.Written) ∧ first? e = none := by
  induction hn : t.length using Nat.strong_induction_on generalizing t with
  | _ n ih =>
    cases hfirst : first? t with
    | none => exact ⟨[], t, rfl, List.forall_mem_nil _, hfirst⟩
    | some x =>
      rcases x with ⟨a, rest⟩
      have hsource := first?_source hfirst
      have hshort : rest.length < n := by
        have hpos := List.length_pos_iff.2 a.source_ne_nil
        rw [← hn, hsource, List.length_append]
        omega
      rcases ih rest.length hshort rest rfl with ⟨as, e, hrest, has, he⟩
      exact ⟨a :: as, e, by rw [sourceOf_cons, List.append_assoc, ← hrest, hsource],
        List.forall_mem_cons.2 ⟨written_of_first? hfirst, has⟩, he⟩

/-- The atoms at the beginning of a text are those in front of what is no atom. -/
theorem span_append {as : List Atom} {e : Text} (has : ∀ a ∈ as, a.Written) (he : first? e = none) :
    span (sourceOf as ++ e) = (as, e) := by
  have hfrom {fuel : Nat} (hfuel : (sourceOf as ++ e).length ≤ fuel) :
      spanFrom fuel (sourceOf as ++ e) = (as, e) := by
    induction as generalizing fuel with
    | nil => cases fuel <;> simp [sourceOf, spanFrom, he]
    | cons a as ih =>
      have hpos := List.length_pos_iff.2 a.source_ne_nil
      rw [sourceOf_cons, List.append_assoc] at hfuel ⊢
      rw [List.length_append] at hfuel
      rcases fuel with _ | fuel
      · omega
      · have hrest : spanFrom fuel (sourceOf as ++ e) = (as, e) :=
          ih (fun b hb => has b (List.mem_cons_of_mem a hb)) (by omega)
        simp only [spanFrom, first?_append (has a List.mem_cons_self), hrest]
  exact hfrom le_rfl

/-- A text that consists of atoms is read as these. -/
theorem all?_sourceOf {as : List Atom} (has : ∀ a ∈ as, a.Written) : all? (sourceOf as) = some as := by
  have hspan := span_append has (e := []) rfl
  rw [List.append_nil] at hspan
  rw [all?, hspan]

/-- An atom whose character belongs to a class; a tag for actor data belongs to every class. -/
def In (p : Char → Bool) : Atom → Bool
  | .plain c => p c
  | .actor _ => true

def after? (p : Char → Bool) (t : Text) : Option Text :=
  (first? t).bind fun (a, rest) => if a.In p then some rest else none

theorem after?_append {p : Char → Bool} {a : Atom} (ha : a.Written) (hp : a.In p = true) (rest : Text) :
    after? p (a.source ++ rest) = some rest := by
  simp only [after?, first?_append ha, Option.bind_some, hp, if_true]

theorem after?_eq_none {p : Char → Bool} {t : Text} (h : first? t = none) : after? p t = none := by
  rw [after?, h, Option.bind_none]

end Atom

/-! ## The patterns -/

def actorPattern : Regex :=
  .row [.word ['\x7b', '\x7b'], .several (.char notClosing), .word ['\x7d', '\x7d']]

def atomOf (p : Char → Bool) : Regex := .either (.char p) actorPattern

variable {β : Type} {k : Follow β} {g : Groups} {t rest : Text} {p : Char → Bool}

theorem fitsOnly_word (c : Char) (w : Text) (k : Follow β) : FitsOnly [c] ((word (c :: w)).run k) :=
  fitsOnly_sign c _

theorem run_actorPattern_open (u : Text) :
    actorPattern.run k ('\x7b' :: '\x7b' :: u) g =
      (several (char notClosing)).run ((word ['\x7d', '\x7d']).run k) u g :=
  run_word_append (k := (row [several (char notClosing), word ['\x7d', '\x7d']]).run k) ['\x7b', '\x7b']

theorem stuck_closing (k : Follow β) : Stuck (oneOf notClosing) ((word ['\x7d', '\x7d']).run k) :=
  (fitsOnly_word '\x7d' ['\x7d'] k).stuck_oneOf (by simp [notClosing])

theorem run_actorPattern_source {name : Text} (h : (Atom.actor name).Written) :
    actorPattern.run k ((Atom.actor name).source ++ rest) g = k rest g := by
  have hsource : (Atom.actor name).source ++ rest =
      '\x7b' :: '\x7b' :: (name ++ (['\x7d', '\x7d'] ++ rest)) := by simp [Atom.source]
  rw [hsource, run_actorPattern_open, run_several_append (stuck_closing k) h.2 (by simp [notClosing]),
    if_neg h.1, run_word_append]

/-- The pattern of an atom fails where no atom begins. -/
theorem run_actorPattern_of_none (h : Atom.first? t = none) : actorPattern.run k t g = none := by
  by_cases hopen : ['\x7b', '\x7b'] <+: t
  · rcases hopen with ⟨u, rfl⟩
    rcases exists_cut notClosing u with ⟨name, tail, rfl, hname, htail⟩
    have hrun : actorPattern.run k (['\x7b', '\x7b'] ++ (name ++ tail)) g =
        if name = [] then none else (word ['\x7d', '\x7d']).run k tail g :=
      (run_actorPattern_open _).trans (run_several_append (stuck_closing k) hname htail)
    rw [hrun]
    by_cases hnil : name = []
    · rw [if_pos hnil]
    · rw [if_neg hnil]
      apply run_word_of_not_begins
      rintro ⟨after, rfl⟩
      -- otherwise there is a tag
      have hatom : Atom.first? ((Atom.actor name).source ++ after) = some (.actor name, after) :=
        Atom.first?_append (a := .actor name) ⟨hnil, hname⟩ after
      have hsource : (Atom.actor name).source ++ after =
          ['\x7b', '\x7b'] ++ (name ++ (['\x7d', '\x7d'] ++ after)) := by simp [Atom.source]
      rw [hsource, h] at hatom
      cases hatom
  · exact run_word_of_not_begins hopen

def Braceless (p : Char → Bool) : Prop := p '\x7b' = false ∧ p '\x7d' = false

/-- An atom of a class takes an atom whose character is in it. -/
theorem takes_atomOf (hp : Braceless p) : (atomOf p).Takes (Atom.after? p) := by
  intro β k t g
  have hrun : (atomOf p).run k t g = ((char p).run k t g).or (actorPattern.run k t g) := rfl
  rw [hrun, takes_char]
  cases hfirst : Atom.first? t with
  | none =>
    have hchar : oneOf p t = none := by
      rcases t with _ | ⟨c, cs⟩
      · rfl
      · -- what is no atom begins with a brace
        have hbrace : c = '\x7b' ∨ c = '\x7d' := by
          by_contra hnot
          rw [not_or] at hnot
          simp [Atom.first?, hnot.1, hnot.2] at hfirst
        rcases hbrace with rfl | rfl
        · rw [oneOf, hp.1]; rfl
        · rw [oneOf, hp.2]; rfl
    rw [hchar, run_actorPattern_of_none hfirst, Atom.after?_eq_none hfirst]
    rfl
  | some x =>
    rcases x with ⟨a, rest⟩
    have hwritten := Atom.written_of_first? hfirst
    rw [Atom.after?, hfirst, Option.bind_some, Atom.first?_source hfirst]
    cases a with
    | plain c =>
      -- a plain character is no brace, so it begins no tag of an actor
      have hactor : actorPattern.run k (c :: rest) g = none := by
        apply run_word_of_not_begins
        rintro ⟨u, hu⟩
        exact hwritten.1 (List.head_eq_of_cons_eq hu).symm
      change ((oneOf p (c :: rest)).bind fun rest => k rest g).or (actorPattern.run k (c :: rest) g) = _
      rw [hactor, Option.or_none]
      rfl
    | actor name =>
      -- the class has no braces, so only the tag as a whole is taken
      have hchar : oneOf p ((Atom.actor name).source ++ rest) = none := by
        change (if p '\x7b' = true then some _ else none) = none
        rw [hp.1]
        rfl
      rw [hchar, run_actorPattern_source hwritten]
      rfl

def Atom.All (p : Char → Bool) (as : List Atom) : Prop := ∀ a ∈ as, a.Written ∧ a.In p = true

instance (p : Char → Bool) (as : List Atom) : Decidable (Atom.All p as) :=
  inferInstanceAs (Decidable (∀ a ∈ as, a.Written ∧ a.In p = true))

theorem Atom.All.takesEach {as : List Atom} (has : Atom.All p as) :
    TakesEach (Atom.after? p) (as.map Atom.source) := by
  intro u hu
  rcases List.mem_map.1 hu with ⟨a, ha, rfl⟩
  exact ⟨a.source_ne_nil, Atom.after?_append (has a ha).1 (has a ha).2⟩

variable {as : List Atom} {tail : Text}

theorem run_many_atoms (hp : Braceless p) (hk : Stuck (Atom.after? p) k) (has : Atom.All p as)
    (htail : Atom.after? p tail = none) :
    (many (atomOf p)).run k (Atom.sourceOf as ++ tail) g = k tail g :=
  run_many_flatten (takes_atomOf hp) hk has.takesEach htail

/-- Atoms of a class are taken up to the end of the class, and one at least. -/
theorem run_several_atoms (hp : Braceless p) (hk : Stuck (Atom.after? p) k) (has : Atom.All p as)
    (htail : Atom.after? p tail = none) :
    (several (atomOf p)).run k (Atom.sourceOf as ++ tail) g = if as = [] then none else k tail g := by
  have hrun := run_several_flatten (g := g) (takes_atomOf hp) hk has.takesEach htail
  simpa [Atom.sourceOf, List.flatMap] using hrun

theorem run_several_atoms_of_some (hp : Braceless p) (hne : as ≠ []) (has : Atom.All p as)
    (htail : Atom.after? p tail = none) {x : β} (h : k tail g = some x) :
    (several (atomOf p)).run k (Atom.sourceOf as ++ tail) g = some x :=
  run_several_of_some (takes_atomOf hp) (by simpa using hne) has.takesEach htail h

theorem run_group_atoms (name : Text) (hp : Braceless p) (hk : Stuck (Atom.after? p) k)
    (has : Atom.All p as) (htail : Atom.after? p tail = none) :
    (group name (several (atomOf p))).run k (Atom.sourceOf as ++ tail) g =
      if as = [] then none else k tail ((name, Atom.sourceOf as) :: g) := by
  rw [run_group, run_several_atoms hp (fun t rest h hf => hk t rest _ hf) has htail]
  simp

/-! ## All atoms -/

def noBrace (c : Char) : Bool := c ≠ '\x7b' && c ≠ '\x7d'

theorem braceless_noBrace : Braceless noBrace := ⟨by decide, by decide⟩

theorem Atom.Written.in_noBrace {a : Atom} (h : a.Written) : a.In noBrace = true := by
  cases a with
  | plain c => simp [In, noBrace, h.1, h.2]
  | actor name => rfl

theorem Atom.all_noBrace (has : ∀ a ∈ as, a.Written) : Atom.All noBrace as :=
  fun a ha => ⟨has a ha, (has a ha).in_noBrace⟩

/-- Text without braces as atoms. -/
theorem sourceOf_plain (t : Text) : Atom.sourceOf (t.map .plain) = t := by
  induction t with
  | nil => rfl
  | cons c cs ih => rw [List.map_cons, Atom.sourceOf_cons, ih]; rfl

/-- Text without braces is written as atoms. -/
theorem written_plain {t : Text} (ht : ∀ c ∈ t, noBrace c = true) :
    ∀ a ∈ t.map Atom.plain, a.Written := by
  intro a ha
  rcases List.mem_map.1 ha with ⟨c, hc, rfl⟩
  have hbrace := ht c hc
  simp only [noBrace, Bool.and_eq_true, decide_eq_true_eq] at hbrace
  exact hbrace

/-- What can only begin with the closing brace does not begin with an atom. -/
theorem stuck_after_close (hk : FitsOnly ['\x7d'] k) (p : Char → Bool) : Stuck (Atom.after? p) k :=
  hk.stuck (by simp [Atom.after?, Atom.first?])

/-- A part of a tag in front of the closing brace is everything up to the brace, if there is anything. -/
theorem run_maybe_atoms (name : Text) (hk : FitsOnly ['\x7d'] k) (has : ∀ a ∈ as, a.Written)
    (he : Atom.first? tail = none) :
    (maybe (group name (several (atomOf noBrace)))).run k (Atom.sourceOf as ++ tail) g =
      k tail (if as = [] then g else (name, Atom.sourceOf as) :: g) := by
  rw [run_maybe, run_group_atoms name braceless_noBrace (stuck_after_close hk noBrace)
    (Atom.all_noBrace has) (Atom.after?_eq_none he)]
  cases as with
  | nil => rfl
  | cons a as =>
    have hatom : k (Atom.sourceOf (a :: as) ++ tail) g = none := by
      have ha := Atom.all_noBrace has a List.mem_cons_self
      rw [Atom.sourceOf_cons, List.append_assoc]
      exact stuck_after_close hk noBrace _ _ _ (Atom.after?_append ha.1 ha.2 _)
    rw [hatom, Option.or_none, if_neg (List.cons_ne_nil a as), if_neg (List.cons_ne_nil a as)]

end Prompt

end TabletopChat
