import TabletopChat.Entries
import TabletopChat.Text.Cutting

/-!
# Regex/Pattern — regular patterns

A pattern is tried from the left: of two alternatives the first counts, a repetition takes as much as it
can, and either gives way only where what follows does not fit. Groups have names.

- `Regex.run`         : trying a pattern, with what is to follow it
- `Regex.Takes`       : patterns that can take a text in one way only
- `run_many_of_stuck` : a repetition that never gives anything back
- `FitsOnly`          : what follows begins with certain characters
- `exists_of_run`     : a pattern leaves an end of the text
-/

namespace TabletopChat

/-- What the groups of a pattern have taken, the last one first. -/
abbrev Groups := Entries Text

inductive Regex
  | empty
  | char (p : Char → Bool)
  | seq (a b : Regex)
  | either (a b : Regex)
  | many (a : Regex)
  | group (name : Text) (a : Regex)
  | notAhead (p : Char → Bool)

/-- What is to follow a pattern: it is given the text that is left and the groups so far, and fits or
does not fit. -/
abbrev Follow (β : Type) := Text → Groups → Option β

namespace Regex

variable {β : Type}

/-- A step done as often as what follows allows, but at most `fuel` times. -/
def repeated (step : Follow β → Follow β) (k : Follow β) : Nat → Follow β
  | 0 => k
  | fuel + 1 => fun t g => (step (repeated step k fuel) t g).or (k t g)

/-- Tries a pattern at the beginning of a text. What is repeated takes a character at least, so the
length of the text bounds the repetitions. -/
def run : Regex → Follow β → Follow β
  | empty, k => k
  | char p, k => fun t g =>
    match t with
    | [] => none
    | c :: cs => if p c then k cs g else none
  | seq a b, k => a.run (b.run k)
  | either a b, k => fun t g => (a.run k t g).or (b.run k t g)
  | many a, k => fun t g => repeated a.run k t.length t g
  | group name a, k => fun t g =>
    a.run (fun rest h => k rest ((name, t.take (t.length - rest.length)) :: h)) t g
  | notAhead p, k => fun t g => if t.head?.any p then none else k t g

def row (as : List Regex) : Regex := as.foldr seq empty

def maybe (a : Regex) : Regex := either a empty

def several (a : Regex) : Regex := seq a (many a)

def sign (c : Char) : Regex := char fun d => d = c

def word (t : Text) : Regex := row (t.map sign)

variable {k : Follow β} {t : Text} {g : Groups}

theorem repeated_succ (step : Follow β → Follow β) (fuel : Nat) :
    repeated step k (fuel + 1) t g = (step (repeated step k fuel) t g).or (k t g) := rfl

theorem run_row_cons (a : Regex) (as : List Regex) :
    (row (a :: as)).run k = a.run ((row as).run k) := rfl

theorem run_row_nil : (row []).run k = k := rfl

theorem run_maybe (a : Regex) : (maybe a).run k t g = (a.run k t g).or (k t g) := rfl

theorem run_either (a b : Regex) : (either a b).run k t g = (a.run k t g).or (b.run k t g) := rfl

theorem run_several (a : Regex) : (several a).run k t g = a.run ((many a).run k) t g := rfl

theorem run_group (name : Text) (a : Regex) :
    (group name a).run k t g =
      a.run (fun rest h => k rest ((name, t.take (t.length - rest.length)) :: h)) t g := rfl

theorem run_notAhead (p : Char → Bool) :
    (notAhead p).run k t g = if t.head?.any p then none else k t g := rfl

theorem run_sign_cons (c : Char) : (sign c).run k (c :: t) g = k t g := by
  simp [sign, run]

/-- A sign fails in front of any other letter. -/
theorem run_sign_of_ne {c : Char} (h : t.head? ≠ some c) : (sign c).run k t g = none := by
  cases t with
  | nil => rfl
  | cons d ds =>
    have hne : d ≠ c := fun heq => h (by rw [heq]; rfl)
    simp [sign, run, hne]

theorem run_word_append (w : Text) : (word w).run k (w ++ t) g = k t g := by
  induction w with
  | nil => rfl
  | cons c w ih => rw [List.cons_append, word, List.map_cons, run_row_cons, run_sign_cons]; exact ih

/-- A word is not taken where the text does not begin with it. -/
theorem run_word_of_not_begins {w : Text} (h : ¬ w <+: t) : (word w).run k t g = none := by
  induction w generalizing t with
  | nil => exact absurd List.nil_prefix h
  | cons c w ih =>
    rw [word, List.map_cons, run_row_cons]
    by_cases hc : t.head? = some c
    · rcases List.head?_eq_some_iff.1 hc with ⟨u, rfl⟩
      rw [run_sign_cons]
      exact ih fun hw => h (List.cons_prefix_cons.2 ⟨rfl, hw⟩)
    · exact run_sign_of_ne hc

/-! ## Patterns that go one way -/

/-- A pattern takes what `f` takes, and nothing else. -/
def Takes (a : Regex) (f : Text → Option Text) : Prop :=
  ∀ {β : Type} (k : Follow β) (t : Text) (g : Groups), a.run k t g = (f t).bind fun rest => k rest g

/-- What is left after `f` has taken as often as it can, but at most `fuel` times. -/
def exhaust (f : Text → Option Text) : Nat → Text → Text
  | 0, t => t
  | fuel + 1, t =>
    match f t with
    | some rest => exhaust f fuel rest
    | none => t

/-- What follows does not fit where `f` could take more. -/
def Stuck (f : Text → Option Text) (k : Follow β) : Prop :=
  ∀ t rest g, f t = some rest → k t g = none

variable {a : Regex} {f : Text → Option Text}

/-- A repetition gives nothing back if what follows never fits where the repetition could go on. -/
theorem run_many_of_stuck (ha : a.Takes f) (hk : Stuck f k) :
    (many a).run k t g = k (exhaust f t.length t) g := by
  have hrepeated (fuel : Nat) (t : Text) : repeated a.run k fuel t g = k (exhaust f fuel t) g := by
    induction fuel generalizing t with
    | zero => rfl
    | succ fuel ih =>
      rw [repeated_succ, ha, exhaust]
      cases hf : f t with
      | none => rfl
      | some rest =>
        rw [Option.bind_some, ih, hk t rest g hf]
        exact Option.or_none
  exact hrepeated t.length t

/-- What `f` takes piece by piece is exhausted where it can take nothing more. -/
theorem exhaust_flatten {us : List Text} (hus : ∀ u ∈ us, ∀ rest, f (u ++ rest) = some rest)
    {tail : Text} (htail : f tail = none) {fuel : Nat} (h : us.length ≤ fuel) :
    exhaust f fuel (us.flatten ++ tail) = tail := by
  induction us generalizing fuel with
  | nil => cases fuel <;> simp [exhaust, htail]
  | cons u us ih =>
    cases fuel with
    | zero => simp at h
    | succ fuel =>
      rw [List.flatten_cons, List.append_assoc, exhaust, hus u List.mem_cons_self]
      exact ih (fun v hv => hus v (List.mem_cons_of_mem u hv)) (Nat.le_of_succ_le_succ h)

/-- There are no more pieces than characters. -/
theorem length_le_length_flatten {us : List Text} (h : ∀ u ∈ us, u ≠ []) :
    us.length ≤ us.flatten.length := by
  induction us with
  | nil => exact Nat.le_refl 0
  | cons u us ih =>
    have hu := List.length_pos_iff.2 (h u List.mem_cons_self)
    have hus := ih fun v hv => h v (List.mem_cons_of_mem u hv)
    rw [List.flatten_cons, List.length_append, List.length_cons]
    omega

/-- Pieces that `f` takes one by one, whatever follows. -/
def TakesEach (f : Text → Option Text) (us : List Text) : Prop :=
  ∀ u ∈ us, u ≠ [] ∧ ∀ rest, f (u ++ rest) = some rest

theorem TakesEach.exhaust {us : List Text} (hus : TakesEach f us) {tail : Text} (htail : f tail = none) :
    exhaust f (us.flatten ++ tail).length (us.flatten ++ tail) = tail := by
  refine exhaust_flatten (fun u hu => (hus u hu).2) htail ?_
  rw [List.length_append]
  exact Nat.le_add_right_of_le (length_le_length_flatten fun u hu => (hus u hu).1)

/-- A repetition takes all pieces that it can take. -/
theorem run_many_flatten (ha : a.Takes f) (hk : Stuck f k) {us : List Text} (hus : TakesEach f us)
    {tail : Text} (htail : f tail = none) : (many a).run k (us.flatten ++ tail) g = k tail g := by
  rw [run_many_of_stuck ha hk, hus.exhaust htail]

/-- A pattern that takes pieces once or more often needs one at least. -/
theorem run_several_cons (ha : a.Takes f) {u : Text} {us : List Text} (hus : TakesEach f (u :: us))
    {tail : Text} :
    (several a).run k ((u :: us).flatten ++ tail) g = (many a).run k (us.flatten ++ tail) g := by
  rw [run_several, ha, List.flatten_cons, List.append_assoc, (hus u List.mem_cons_self).2]
  rfl

/-- Repeating takes all pieces, and one at least. -/
theorem run_several_flatten (ha : a.Takes f) (hk : Stuck f k) {us : List Text} (hus : TakesEach f us)
    {tail : Text} (htail : f tail = none) :
    (several a).run k (us.flatten ++ tail) g = if us = [] then none else k tail g := by
  cases us with
  | nil => rw [run_several, ha, List.flatten_nil, List.nil_append, htail]; rfl
  | cons u us =>
    have hmore : TakesEach f us := fun v hv => hus v (List.mem_cons_of_mem u hv)
    rw [run_several_cons ha hus, run_many_flatten ha hk hmore htail, if_neg (List.cons_ne_nil u us)]

/-- What fits behind all that a repetition can take is found first. -/
theorem run_many_of_some (ha : a.Takes f) {x : β} (h : k (exhaust f t.length t) g = some x) :
    (many a).run k t g = some x := by
  have hrepeated (fuel : Nat) (t : Text) (h : k (exhaust f fuel t) g = some x) :
      repeated a.run k fuel t g = some x := by
    induction fuel generalizing t with
    | zero => exact h
    | succ fuel ih =>
      rw [exhaust] at h
      rw [repeated_succ, ha]
      cases hf : f t with
      | none =>
        rw [hf] at h
        exact h
      | some rest =>
        rw [hf] at h
        rw [Option.bind_some, ih rest h]
        rfl
  exact hrepeated t.length t h

/-- A row of pieces is taken as a whole, if what follows fits it. -/
theorem run_several_of_some (ha : a.Takes f) {us : List Text} (hne : us ≠ []) (hus : TakesEach f us)
    {tail : Text} (htail : f tail = none) {x : β} (h : k tail g = some x) :
    (several a).run k (us.flatten ++ tail) g = some x := by
  cases us with
  | nil => exact absurd rfl hne
  | cons u us =>
    have hmore : TakesEach f us := fun v hv => hus v (List.mem_cons_of_mem u hv)
    rw [run_several_cons ha hus]
    exact run_many_of_some ha ((hmore.exhaust htail).symm ▸ h)

def oneOf (p : Char → Bool) : Text → Option Text
  | [] => none
  | c :: cs => if p c then some cs else none

theorem takes_char (p : Char → Bool) : (char p).Takes (oneOf p) := by
  intro β k t g
  cases t with
  | nil => rfl
  | cons c cs => by_cases hc : p c <;> simp [run, oneOf, hc]

section Characters

variable {p : Char → Bool} {body tail : Text}

theorem oneOf_eq_none (htail : ∀ c ∈ tail.head?, p c = false) : oneOf p tail = none := by
  cases tail with
  | nil => rfl
  | cons c cs => simp [oneOf, htail c rfl]

theorem takesEach_oneOf (hbody : ∀ c ∈ body, p c = true) : TakesEach (oneOf p) (body.map fun c => [c]) := by
  simpa [TakesEach, oneOf] using hbody

theorem flatten_singletons (t : Text) : (t.map fun c => [c]).flatten = t := by
  induction t with
  | nil => rfl
  | cons c cs ih => simp_all

theorem run_many_append (hk : Stuck (oneOf p) k) (hbody : ∀ c ∈ body, p c = true)
    (htail : ∀ c ∈ tail.head?, p c = false) : (many (char p)).run k (body ++ tail) g = k tail g := by
  have hrun := run_many_flatten (g := g) (takes_char p) hk (takesEach_oneOf hbody) (oneOf_eq_none htail)
  rwa [flatten_singletons] at hrun

/-- Characters of a class are taken up to the end of the class, and one at least. -/
theorem run_several_append (hk : Stuck (oneOf p) k) (hbody : ∀ c ∈ body, p c = true)
    (htail : ∀ c ∈ tail.head?, p c = false) :
    (several (char p)).run k (body ++ tail) g = if body = [] then none else k tail g := by
  have hrun := run_several_flatten (g := g) (takes_char p) hk (takesEach_oneOf hbody) (oneOf_eq_none htail)
  simpa [flatten_singletons] using hrun

theorem run_group_append (name : Text) (hk : Stuck (oneOf p) k) (hbody : ∀ c ∈ body, p c = true)
    (htail : ∀ c ∈ tail.head?, p c = false) :
    (group name (several (char p))).run k (body ++ tail) g =
      if body = [] then none else k tail ((name, body) :: g) := by
  rw [run_group, run_several_append (fun t rest h hf => hk t rest _ hf) hbody htail]
  simp

end Characters

/-! ## Where a follow-up can fit -/

/-- What follows fits only texts that begin with one of these characters. -/
def FitsOnly (cs : List Char) (k : Follow β) : Prop :=
  ∀ t g, (∀ c ∈ cs, t.head? ≠ some c) → k t g = none

theorem fitsOnly_sign (c : Char) (k : Follow β) : FitsOnly [c] ((sign c).run k) :=
  fun _ _ h => run_sign_of_ne (h c List.mem_cons_self)

/-- What may be left out adds the sign that it begins with. -/
theorem FitsOnly.maybe {cs : List Char} (h : FitsOnly cs k) (c : Char) (as : List Regex) :
    FitsOnly (c :: cs) ((maybe (row (sign c :: as))).run k) := by
  intro t g hne
  have hfirst : (sign c).run ((row as).run k) t g = none := run_sign_of_ne (hne c List.mem_cons_self)
  have hsecond : k t g = none := h t g fun d hd => hne d (List.mem_cons_of_mem c hd)
  rw [run_maybe, run_row_cons, hfirst, hsecond]
  rfl

/-- A repetition gives nothing back where what follows begins with nothing that could be repeated. -/
theorem FitsOnly.stuck {cs : List Char} (h : FitsOnly cs k) {f : Text → Option Text}
    (hf : ∀ c ∈ cs, ∀ u, f (c :: u) = none) : Stuck f k := by
  intro t rest g hsome
  apply h
  rintro c hc hhead
  rcases List.head?_eq_some_iff.1 hhead with ⟨u, rfl⟩
  rw [hf c hc u] at hsome
  cases hsome

theorem FitsOnly.stuck_oneOf {cs : List Char} (h : FitsOnly cs k) {p : Char → Bool}
    (hp : ∀ c ∈ cs, p c = false) : Stuck (oneOf p) k :=
  h.stuck fun c hc u => by rw [oneOf, hp c hc]; rfl

/-- A part that begins with `c` is left out where there is no `c`. -/
theorem run_maybe_of_ne {c : Char} (h : t.head? ≠ some c) (as : List Regex) :
    (maybe (row (sign c :: as))).run k t g = k t g := by
  rw [run_maybe, run_row_cons, run_sign_of_ne h]
  rfl

theorem run_maybe_cons (c : Char) (as : List Regex) :
    (maybe (row (sign c :: as))).run k (c :: t) g = ((row as).run k t g).or (k (c :: t) g) := by
  rw [run_maybe, run_row_cons, run_sign_cons]

/-- What follows a pattern is tried only on what the pattern leaves, an end of the text. -/
theorem exists_of_run {a : Regex} {x : β} (h : a.run k t g = some x) :
    ∃ rest h', rest <:+ t ∧ k rest h' = some x := by
  induction a generalizing k t g with
  | empty => exact ⟨t, g, List.suffix_rfl, h⟩
  | char p =>
    rw [takes_char] at h
    cases t with
    | nil => cases h
    | cons c cs =>
      by_cases hc : p c
      · rw [oneOf, if_pos hc] at h
        exact ⟨cs, g, List.suffix_cons c cs, h⟩
      · rw [oneOf, if_neg hc] at h
        cases h
  | seq a b iha ihb =>
    rcases iha h with ⟨mid, hmid, hsuffix, hb⟩
    rcases ihb hb with ⟨rest, hrest, hsuffix', hk⟩
    exact ⟨rest, hrest, hsuffix'.trans hsuffix, hk⟩
  | either a b iha ihb =>
    rcases Option.or_eq_some_iff.1 h with ha | ⟨-, hb⟩
    · exact iha ha
    · exact ihb hb
  | many a ih =>
    -- each repetition leaves an end of what the one before it left
    have hrepeated (fuel : Nat) {t : Text} {g : Groups} (h : repeated a.run k fuel t g = some x) :
        ∃ rest h', rest <:+ t ∧ k rest h' = some x := by
      induction fuel generalizing t g with
      | zero => exact ⟨t, g, List.suffix_rfl, h⟩
      | succ fuel ihfuel =>
        rcases Option.or_eq_some_iff.1 h with hmore | ⟨-, hdone⟩
        · rcases ih hmore with ⟨mid, hmid, hsuffix, hnext⟩
          rcases ihfuel hnext with ⟨rest, hrest, hsuffix', hk⟩
          exact ⟨rest, hrest, hsuffix'.trans hsuffix, hk⟩
        · exact ⟨t, g, List.suffix_rfl, hdone⟩
    exact hrepeated t.length h
  | group name a ih =>
    rcases ih h with ⟨rest, hrest, hsuffix, hk⟩
    exact ⟨rest, _, hsuffix, hk⟩
  | notAhead p =>
    rw [run_notAhead] at h
    split at h
    · cases h
    · exact ⟨t, g, List.suffix_rfl, h⟩

end Regex

end TabletopChat
