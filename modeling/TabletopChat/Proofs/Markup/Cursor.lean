import TabletopChat.Proofs.Markup.Tiling

/-!
# Proofs/Markup/Cursor — reading a message character by character

A message is cut into lexemes first, and the tree is made of them. The same tree comes about when the
message is read character by character, because a run of text may be read in parts. So what is true of
a message can be shown along its characters, and a message may be read in two parts.

- `Cursor`, `Cursor.read`   : how far a message has been read, and reading on
- `parse_eq`                : the tree of a message
- `Cursor.Along`            : what holds all along a message, from what each step keeps
- `Cursor.InStep`           : the mode is that of the innermost open roll
- `read_append`             : reading two texts one after the other
-/

namespace TabletopChat

namespace Markup

/-! ## Text in parts -/

/-- A text may be pushed in two parts. -/
theorem pushText_pushText (t u : Text) (p q r : Position) (ns : List Node) :
    pushText u ⟨q, r⟩ (pushText t ⟨p, q⟩ ns) = pushText (t ++ u) ⟨p, r⟩ ns := by
  rcases ns with - | ⟨⟨v, span⟩ | ⟨kind, closed, children, span⟩, ns⟩ <;> simp [pushText]

theorem Stack.modify_modify (f g : List Node → List Node) (s : Stack) :
    (s.modify f).modify g = s.modify fun ns => g (f ns) := by
  rcases s with ⟨outer, - | ⟨fr, frs⟩⟩ <;> rfl

/-! ## Cursors -/

/-- How far a message has been read: the mode, the nodes and open rolls so far, and the place. -/
structure Cursor where
  mode : Mode
  stack : Stack
  reached : Position

namespace Cursor

def start : Cursor := ⟨.ordinary, ⟨[], []⟩, .start⟩

/-- Reads a text in which nothing is special. -/
def text (t : Text) (k : Cursor) : Cursor :=
  ⟨k.mode, k.stack.modify (pushText t ⟨k.reached, k.reached.after t⟩), k.reached.after t⟩

def delimiter (d : Delimiter) (k : Cursor) : Cursor :=
  let q := k.reached.after d.source
  ⟨k.mode.after d, k.stack.read ⟨.delimiter d, ⟨k.reached, q⟩⟩, q⟩

/-- Reads on: a delimiter as soon as one begins, and otherwise a character. -/
def read (inlineMath : Bool) : Cursor → Text → Cursor
  | k, [] => k
  | k, [c] => k.text [c]
  | k, c :: d :: cs =>
    match Delimiter.ofPair? inlineMath k.mode c d with
    | some e => (k.delimiter e).read inlineMath cs
    | none => (k.text [c]).read inlineMath (d :: cs)

theorem text_text (t u : Text) (k : Cursor) : (k.text t).text u = k.text (t ++ u) := by
  simp [text, Stack.modify_modify, pushText_pushText, Position.after_append]

/-! ## Steps -/

variable {inlineMath : Bool} {k : Cursor}

theorem read_of_ofPair? {c d : Char} {e : Delimiter}
    (h : Delimiter.ofPair? inlineMath k.mode c d = some e) (cs : Text) :
    k.read inlineMath (c :: d :: cs) = (k.delimiter e).read inlineMath cs := by
  rw [read, h]

/-- Where no delimiter begins, a character is read. -/
theorem read_of_not_begins {c : Char} {cs : Text} (h : ¬Begins inlineMath k.mode (c :: cs)) :
    k.read inlineMath (c :: cs) = (k.text [c]).read inlineMath cs := by
  cases cs with
  | nil => rfl
  | cons d cs =>
      cases hpair : Delimiter.ofPair? inlineMath k.mode c d with
      | some e => exact absurd ⟨c, d, cs, e, rfl, hpair⟩ h
      | none => rw [read, hpair]

theorem not_begins_singleton (m : Mode) (c : Char) : ¬Begins inlineMath m [c] := by
  rintro ⟨x, y, cs, e, heq, -⟩
  cases heq

/-- What each step keeps holds at the end of a text if it holds in front of it. -/
structure Along (inlineMath : Bool) (P : Cursor → Text → Prop) : Prop where
  text : ∀ {k c cs}, ¬Begins inlineMath k.mode (c :: cs) → P k (c :: cs) → P (k.text [c]) cs
  delimiter : ∀ {k c d e cs}, Delimiter.ofPair? inlineMath k.mode c d = some e →
    P k (c :: d :: cs) → P (k.delimiter e) cs

/-- What each step of reading keeps holds at the end. -/
theorem Along.read {P : Cursor → Text → Prop} (h : Along inlineMath P) {t : Text} (ht : P k t) :
    P (k.read inlineMath t) [] := by
  fun_induction Cursor.read inlineMath k t with
  | case1 k => exact ht
  | case2 k c => exact h.text (not_begins_singleton k.mode c) ht
  | case3 k c d cs e hpair ih => exact ih (h.delimiter hpair ht)
  | case4 k c d cs hpair ih => exact ih (h.text (not_begins_of_ofPair? hpair cs) ht)

/-! ## Lexemes -/

def lexeme (k : Cursor) : Lexeme → Cursor
  | .text t => k.text t
  | .delimiter d => k.delimiter d
  | .finish => k

/-- The tokens of lexemes are read like the lexemes. -/
theorem foldl_read_place (k : Cursor) (ls : List Lexeme) :
    (place k.reached ls).foldl Stack.read k.stack = (ls.foldl lexeme k).stack := by
  induction ls generalizing k with
  | nil => rfl
  | cons l ls ih =>
      rw [List.foldl_cons, ← ih]
      cases l <;> rfl

/-- A character in front of a run of text may be read by itself. -/
theorem foldl_lexeme_consChar (k : Cursor) (c : Char) (ls : List Lexeme) :
    (consChar c ls).foldl lexeme k = ls.foldl lexeme (k.text [c]) := by
  rcases consChar_cases c ls with ⟨t, ks, rfl, heq⟩ | ⟨-, heq⟩
  · simp [heq, lexeme, text_text]
  · simp [heq, lexeme]

/-- Reading character by character is reading lexeme by lexeme. -/
theorem foldl_lexeme_lexemes (k : Cursor) (t : Text) :
    (lexemes inlineMath k.mode t).foldl lexeme k = k.read inlineMath t := by
  fun_induction Cursor.read inlineMath k t with
  | case1 k => rfl
  | case2 k c => rfl
  | case3 k c d cs e hpair ih =>
      simp only [lexemes, hpair, List.foldl_cons]
      exact ih
  | case4 k c d cs hpair ih =>
      simp only [lexemes, hpair, foldl_lexeme_consChar]
      exact ih

/-- What the tokens of a message leave on the stack. -/
theorem foldl_read_tokens (inlineMath : Bool) (source : Text) :
    (tokens inlineMath source).foldl Stack.read ⟨[], []⟩ = (start.read inlineMath source).stack := by
  have hread : (lexemes inlineMath .ordinary source ++ [Lexeme.finish]).foldl lexeme start =
      start.read inlineMath source := by
    rw [List.foldl_append]
    exact foldl_lexeme_lexemes start source
  rw [← hread]
  exact foldl_read_place start _

end Cursor

/-- The tree of a message that is read character by character. -/
theorem parse_eq (inlineMath : Bool) (source : Text) :
    parse inlineMath source =
      let s := (Cursor.start.read inlineMath source).stack
      let finish := Position.start.after source
      ⟨finishFrames finish s.outer [] s.frames, ⟨.start, finish⟩⟩ := by
  rw [parse, parseTokens, Cursor.foldl_read_tokens]

namespace Cursor

variable {inlineMath : Bool} {k : Cursor}

/-! ## The mode and the open rolls -/

/-- The mode is that of inline math exactly if the innermost open roll is inline math, in which no
other roll is open. -/
def InStep (k : Cursor) : Prop :=
  match k.mode with
  | .ordinary => ∀ o ∈ k.stack.opened, o.kind = .roll
  | .math => ∃ o os, k.stack.opened = o :: os ∧ o.kind = .math ∧ ∀ p ∈ os, p.kind = .roll

/-- Inside of inline math nothing but its end is a delimiter. -/
theorem eq_mathClose_of_ofPair? {c d : Char} {e : Delimiter}
    (h : Delimiter.ofPair? inlineMath .math c d = some e) : e = .mathClose := by
  simp only [Delimiter.ofPair?, Option.ite_none_right_eq_some, Option.some.injEq] at h
  exact h.2.symm

theorem inStep_start : InStep start := by
  intro o ho
  cases ho

theorem InStep.text (h : k.InStep) (t : Text) : (k.text t).InStep := by
  simpa [InStep, Cursor.text] using h

/-- A delimiter keeps the stack in step with the mode. -/
theorem InStep.delimiter (h : k.InStep) {c d : Char} {e : Delimiter}
    (hpair : Delimiter.ofPair? inlineMath k.mode c d = some e) : (k.delimiter e).InStep := by
  rcases k with ⟨m, s, p⟩
  simp only [InStep, Cursor.delimiter, Stack.opened_read] at h ⊢
  cases m with
  | math =>
      -- inline math ends, and nothing else can happen in it
      rcases h with ⟨o, os, hopened, ho, hos⟩
      obtain rfl := eq_mathClose_of_ofPair? hpair
      simpa [Mode.after, hopened, Opened.after, ho, Kind.closer] using hos
  | ordinary =>
      rcases e.eq_opener_or_closer with ⟨kind, rfl | rfl⟩
      · rw [Opened.after_opener]
        cases kind with
        | roll => simpa [Mode.after, Kind.opener] using h
        | math => exact ⟨_, _, rfl, rfl, h⟩
      · have hmode : Mode.after .ordinary kind.closer = .ordinary := by cases kind <;> rfl
        rw [hmode]
        exact fun o ho => h o (Opened.mem_of_mem_after_closer ho)

theorem along_inStep (inlineMath : Bool) : Along inlineMath fun k _ => k.InStep :=
  ⟨fun _ h => h.text _, fun hpair h => h.delimiter hpair⟩

/-- In ordinary text the innermost open roll is no inline math. -/
theorem InStep.ne_math_of_ordinary (h : k.InStep) (hmode : k.mode = .ordinary) :
    ∀ o ∈ k.stack.opened.head?, o.kind ≠ .math := by
  simp only [InStep, hmode] at h
  intro o ho hmath
  have hroll := h o (List.mem_of_mem_head? ho)
  rw [hmath] at hroll
  cases hroll

/-- Outside of inline math, a closing delimiter that the innermost open roll does not accept is text. -/
theorem delimiter_unaccepted {kind : Kind} (hmode : k.mode = .ordinary)
    (h : ∀ o ∈ k.stack.opened.head?, o.kind ≠ kind) :
    k.delimiter kind.closer = k.text kind.closer.source := by
  rcases k with ⟨m, s, p⟩
  obtain rfl : m = .ordinary := hmode
  have hafter : Mode.after .ordinary kind.closer = .ordinary := by cases kind <;> rfl
  have hread := s.read_closer kind ⟨p, p.after kind.closer.source⟩
  rw [(s.close?_eq_none_iff kind _).2 h, Option.getD_none] at hread
  simp only [delimiter, text, hafter, hread]

/-! ## Two texts -/

/-- Whether no delimiter begins with the last character of one text and the first of another. -/
def Parted (inlineMath : Bool) (a b : Text) : Prop :=
  ∀ c ∈ a.getLast?, ∀ d ∈ b.head?, ∀ m, Delimiter.ofPair? inlineMath m c d = none

/-- Texts are read one after the other if no delimiter begins in one and ends in the other. -/
theorem read_append {a b : Text} (h : Parted inlineMath a b) :
    k.read inlineMath (a ++ b) = (k.read inlineMath a).read inlineMath b := by
  fun_induction Cursor.read inlineMath k a with
  | case1 k => rfl
  | case2 k c =>
      refine read_of_not_begins ?_
      rintro ⟨x, y, cs, e, heq, hpair⟩
      cases heq
      rw [h c rfl y rfl] at hpair
      cases hpair
  | case3 k c d cs e hpair ih =>
      rw [List.cons_append, List.cons_append, read_of_ofPair? hpair]
      refine ih fun x hx => h x ?_
      cases cs with
      | nil => cases hx
      | cons f cs => simpa using hx
  | case4 k c d cs hpair ih =>
      rw [List.cons_append, List.cons_append, read_of_not_begins (not_begins_of_ofPair? hpair _)]
      exact ih fun x hx => h x (by simpa using hx)

end Cursor

end Markup

end TabletopChat
