import TabletopChat.Arithmetic.Evaluate
import TabletopChat.Proofs.Text.NulFree

/-!
# Proofs/Arithmetic/Names — the names in an expression

A name is a word of the text, in the form under which it is looked up. So the names of an expression
hold no null character if its text holds none, and neither does what is said about an expression.

- `nulFree_tokens`  : the words of a text
- `apply_keeps`     : one rule, if the rules it is built from make no null characters
- `parse?_nulFree`  : the names of an expression that is read
- `outcome_nulFree` : the result of evaluating a text
-/

namespace TabletopChat

namespace Arithmetic

open Text

/-! ## Words -/

def Token.NulFree : Token → Prop
  | .word name => Text.NulFree name
  | _ => True

def Words (toks : List Token) : Prop := ∀ t ∈ toks, t.NulFree

theorem words_nil : Words [] := List.forall_mem_nil _

theorem words_cons {t : Token} {toks : List Token} : Words (t :: toks) ↔ t.NulFree ∧ Words toks :=
  List.forall_mem_cons

theorem Words.tail {t : Token} {toks : List Token} (h : Words (t :: toks)) : Words toks :=
  (words_cons.1 h).2

theorem expect_keeps {m : Mark} {toks : List Token} (h : Words toks) :
    Gives Words (expect m toks) := by
  unfold expect
  split
  · exact gives_ite (gives_some h.tail) gives_none
  · exact gives_none

theorem expectWord_keeps {k : Keyword} {toks : List Token} (h : Words toks) :
    Gives Words (expectWord k toks) := by
  unfold expectWord
  split
  · exact gives_ite (gives_some h.tail) gives_none
  · exact gives_none

theorem comparison?_keeps {toks : List Token} (h : Words toks) : Gives Words (comparison? toks) := by
  unfold comparison?
  split <;> first
    | exact gives_some h.tail
    | exact gives_some h.tail.tail
    | exact gives_none

theorem quotedRun_keeps {toks : List Token} (h : Words toks) :
    Gives (fun x => Words x.2) (quotedRun toks) := by
  induction toks with
  | nil =>
      exact gives_some h
  | cons t toks ih =>
      unfold quotedRun
      split
      · rename_i heq
        obtain ⟨rfl, rfl⟩ := List.cons_eq_cons.1 heq
        have hrest := ih h.tail
        split
        · rename_i hafter
          have hwords := hrest _ hafter
          exact gives_some hwords
        · rename_i hafter
          have hwords := hrest _ hafter
          exact gives_ite (gives_some hwords) gives_none
        · exact gives_none
      · exact gives_some h

/-! ## Tokens of a text -/

def CleanToken (x : Token × Text) : Prop := x.1.NulFree ∧ Text.NulFree x.2

theorem digitRun_keeps {isDigit : Char → Bool} {t : Text} (h : Text.NulFree t) :
    Gives (fun x => Text.NulFree x.2) (digitRun isDigit t) := by
  induction t with
  | nil =>
      exact gives_some h
  | cons c cs ih =>
      have hrest := ih (nulFree_cons.1 h).2
      unfold digitRun
      refine gives_ite (hrest.map fun _ hx => hx) (gives_ite ?_ (gives_some h))
      split
      · exact gives_none
      · exact gives_ite hrest gives_none

theorem endNumber_keeps {tok : Token} {rest : Text} (htok : tok.NulFree) (h : Text.NulFree rest) :
    Gives CleanToken (endNumber tok rest) :=
  gives_ite (gives_some ⟨htok, h⟩) gives_none

theorem radixNumber?_keeps {base : Nat} {t : Text} (h : Text.NulFree t) :
    Gives CleanToken (radixNumber? base t) := by
  unfold radixNumber?
  simp only
  split
  · rename_i heq
    exact gives_ite gives_none (endNumber_keeps trivial (digitRun_keeps h _ heq))
  · exact gives_none

theorem realNumber_keeps {digits rest : Text} {exp : Int} (h : Text.NulFree rest) :
    Gives CleanToken (realNumber digits exp rest) := by
  unfold realNumber
  simp only
  split
  · exact endNumber_keeps trivial (nulFree_cons.1 h).2
  · exact endNumber_keeps trivial (nulFree_cons.1 h).2
  · exact endNumber_keeps trivial h

theorem plainNumber_keeps {whole fraction rest : Text} {pointed : Bool} (h : Text.NulFree rest) :
    Gives CleanToken (plainNumber whole fraction pointed rest) :=
  gives_ite (realNumber_keeps h)
    (gives_ite gives_none (gives_ite gives_none (endNumber_keeps trivial h)))

/-- Reading a number leaves a text without null characters behind. -/
theorem exponentNumber_keeps {whole fraction t : Text} {pointed : Bool} (h : Text.NulFree t) :
    Gives CleanToken (exponentNumber whole fraction pointed t) := by
  unfold exponentNumber
  split
  · exact plainNumber_keeps h
  · rename_i c cs
    have hcs := (nulFree_cons.1 h).2
    refine gives_ite ?_ (plainNumber_keeps h)
    refine gives_ite ?_ (gives_ite gives_none (plainNumber_keeps h))
    refine (digitRun_keeps ?_).bind fun _ hx => realNumber_keeps hx
    split
    · exact hcs.of_subset (List.drop_subset _ _)
    · exact hcs

theorem decimalNumber?_keeps {t : Text} (h : Text.NulFree t) :
    Gives CleanToken (decimalNumber? t) := by
  refine (digitRun_keeps h).bindPair fun whole rest hrest => ?_
  dsimp only at hrest ⊢
  split
  · have hpart := (nulFree_cons.1 hrest).2
    refine gives_ite ?_ (exponentNumber_keeps hpart)
    exact (digitRun_keeps hpart).bind fun _ hx => exponentNumber_keeps hx
  · exact exponentNumber_keeps hrest

theorem number?_keeps {t : Text} (h : Text.NulFree t) : Gives CleanToken (number? t) := by
  unfold number?
  split
  · have hcs := (nulFree_cons.1 (nulFree_cons.1 h).2).2
    exact gives_ite (radixNumber?_keeps hcs) (gives_ite (radixNumber?_keeps hcs)
      (gives_ite (radixNumber?_keeps hcs) (decimalNumber?_keeps h)))
  · exact decimalNumber?_keeps h

theorem shortBody_keeps {quote : Char} {t : Text} (h : Text.NulFree t) :
    Gives (fun x => Text.NulFree x.2) (shortBody quote t) := by
  fun_induction shortBody quote t with
  | case1 => exact gives_none
  | case2 c cs ih =>
      exact (ih (nulFree_cons.1 (nulFree_cons.1 h).2).2).map fun _ hx => hx
  | case3 => exact gives_some (nulFree_cons.1 h).2
  | case4 => exact gives_none
  | case5 c cs _ _ _ ih => exact (ih (nulFree_cons.1 h).2).map fun _ hx => hx

theorem longBody_keeps {quote : Char} {t : Text} (h : Text.NulFree t) :
    Gives (fun x => Text.NulFree x.2) (longBody quote t) := by
  fun_induction longBody quote t with
  | case1 => exact gives_none
  | case2 c cs ih =>
      exact (ih (nulFree_cons.1 (nulFree_cons.1 h).2).2).map fun _ hx => hx
  | case3 => exact gives_some ((nulFree_cons.1 h).2.of_subset (List.drop_subset _ _))
  | case4 => exact gives_none
  | case5 c cs _ _ _ ih => exact (ih (nulFree_cons.1 h).2).map fun _ hx => hx

theorem word?_keeps {t : Text} (h : Text.NulFree t) : Gives CleanToken (word? t) := by
  have hrest : Text.NulFree (t.dropWhile inWord) := h.of_subset (List.dropWhile_subset _)
  have hdrop (n : Nat) : Text.NulFree ((t.dropWhile inWord).drop n) :=
    hrest.of_subset (List.drop_subset _ _)
  unfold word?
  simp only
  split
  · refine Gives.map (P := fun x => Text.NulFree x.2) ?_ fun _ hx => ⟨trivial, hx⟩
    exact gives_ite (longBody_keeps (hdrop 3)) (shortBody_keeps (hdrop 1))
  · refine gives_ite gives_none ?_
    split
    · exact gives_some ⟨trivial, hrest⟩
    · exact gives_some ⟨h.of_subset (List.takeWhile_subset _), hrest⟩

/-- So does reading any token. -/
theorem token?_keeps {t : Text} (h : Text.NulFree t) : Gives CleanToken (token? t) := by
  unfold token?
  split
  · exact gives_none
  · refine gives_ite (number?_keeps h) (gives_ite (word?_keeps h) ?_)
    intro x hx
    rcases Option.map_eq_some_iff.1 hx with ⟨⟨m, rest⟩, hmark, rfl⟩
    rcases Option.map_eq_some_iff.1 hmark with ⟨e, -, heq⟩
    cases heq
    exact ⟨trivial, h.of_subset (List.drop_subset _ _)⟩

theorem joinedLine?_keeps {t : Text} (h : Text.NulFree t) :
    Gives Text.NulFree (joinedLine? t) := by
  unfold joinedLine?
  split
  · exact gives_some (nulFree_cons.1 h).2
  · exact gives_none

theorem skipLines_keeps {fuel : Nat} {column fixed : Bool} {t : Text} (h : Text.NulFree t) :
    Gives (fun x => Text.NulFree x.2) (skipLines fuel column fixed t) := by
  induction fuel generalizing column fixed t with
  | zero =>
      exact gives_none
  | succ fuel ih =>
      cases t with
      | nil =>
          exact gives_some h
      | cons c cs =>
          have hcs := (nulFree_cons.1 h).2
          unfold skipLines
          refine gives_ite (ih hcs) (gives_ite (ih hcs) (gives_ite (ih hcs) (gives_ite ?_ ?_)))
          · exact ih (hcs.of_subset (List.dropWhile_subset _))
          · refine gives_ite ?_ (gives_some h)
            exact (joinedLine?_keeps hcs).bind fun _ hrest => ih hrest

/-- Cutting a whole line gives only words without null characters. -/
theorem lineTokens_keeps {fuel depth : Nat} {t : Text} (h : Text.NulFree t) :
    Gives Words (lineTokens fuel depth t) := by
  induction fuel generalizing depth t with
  | zero =>
      exact gives_none
  | succ fuel ih =>
      cases t with
      | nil =>
          exact gives_ite (gives_some words_nil) gives_none
      | cons c cs =>
          have hcs := (nulFree_cons.1 h).2
          unfold lineTokens
          -- a gap, a comment, a joined line or a line end, and otherwise a token
          refine gives_ite (ih hcs) (gives_ite ?_ (gives_ite ?_ (gives_ite ?_ ?_)))
          · exact ih (hcs.of_subset (List.dropWhile_subset _))
          · exact (joinedLine?_keeps hcs).bind fun _ hrest => ih hrest
          · refine gives_ite ?_ (ih hcs)
            split
            · exact gives_some words_nil
            · exact gives_none
          · refine (token?_keeps h).bindPair fun tok rest hx => ?_
            refine Gives.bind (P := fun _ => True) (fun _ _ => trivial) fun _ _ => ?_
            exact (ih hx.2).map fun _ htoks => words_cons.2 ⟨hx.1, htoks⟩

/-- The words of a text without null characters hold none. -/
theorem nulFree_tokens {t : Text} (h : Text.NulFree t) : Gives Words (tokens? t) := by
  unfold tokens?
  simp only
  split
  · rename_i heq
    exact lineTokens_keeps (skipLines_keeps h.unifyLineEnds (_, _) heq)
  · exact gives_none

/-! ## Expressions -/

inductive Expr.NulFree : Expr → Prop
  | number (v : Number) : (Expr.number v).NulFree
  | literal (v : Literal) : (Expr.literal v).NulFree
  | symbol {name : Text} (h : Text.NulFree name) : (Expr.symbol name).NulFree
  | signed {negative : Bool} {e : Expr} (h : e.NulFree) : (Expr.signed negative e).NulFree
  | binary {op : Operator} {left right : Expr} (hl : left.NulFree) (hr : right.NulFree) :
      (Expr.binary op left right).NulFree
  | call {function : Option Text} {named : Bool} {arguments : List Expr}
      (hf : ∀ name ∈ function, Text.NulFree name) (ha : ∀ e ∈ arguments, e.NulFree) :
      (Expr.call function named arguments).NulFree
  | form (f : Form) : (Expr.form f).NulFree

theorem Expr.NulFree.name? {e : Expr} (h : e.NulFree) : ∀ name ∈ e.name?, Text.NulFree name := by
  intro name hname
  cases h with
  | symbol h => exact Option.some.inj hname ▸ h
  | _ => cases hname

theorem nulFree_combine {op : Option Operator} {p q : Parsed} (hp : p.expr.NulFree)
    (hq : q.expr.NulFree) : (combine op p q).expr.NulFree := by
  cases op with
  | none => exact .form _
  | some op => exact .binary hp hq

structure Call.NulFree (c : Call) : Prop where
  function : ∀ name ∈ c.function, Text.NulFree name
  arguments : ∀ e ∈ c.arguments, e.NulFree

theorem Call.NulFree.expr {c : Call} (h : c.NulFree) : c.expr.NulFree :=
  .call h.function fun e he => h.arguments e (List.mem_reverse.1 he)

/-- Only the name and the arguments count. -/
theorem Call.NulFree.at {c : Call} (h : c.NulFree) (stage : Call.Stage) (named : Bool) :
    ({ c with stage, named } : Call).NulFree :=
  ⟨h.function, h.arguments⟩

theorem Call.NulFree.push {c : Call} (h : c.NulFree) {e : Expr} (he : e.NulFree) :
    ({ c with arguments := e :: c.arguments } : Call).NulFree :=
  ⟨h.function, List.forall_mem_cons.2 ⟨he, h.arguments⟩⟩

def Rule.NulFree : Rule → Prop
  | .climbRest _ left => left.expr.NulFree
  | .trailers left => left.expr.NulFree
  | .arguments c => c.NulFree
  | _ => True

/-! ## Rules -/

/-- What a reader gives holds no null characters, and neither do the words it leaves. -/
def Clean (x : Parsed × List Token) : Prop := x.1.expr.NulFree ∧ Words x.2

def Reader.Keeps (r : Reader) : Prop := ∀ {toks}, Words toks → Gives Clean (r toks)

/-- What comes after a form without names. -/
theorem gives_form {f : Form} {target : Bool} {o : Option (List Token)} (h : Gives Words o) :
    Gives Clean (o.map fun rest => ((⟨.form f, target⟩ : Parsed), rest)) :=
  h.map fun _ hrest => ⟨.form f, hrest⟩

/-- The expression that is read is not kept. -/
theorem toForm_keeps {f : Form} {o : Option (Parsed × List Token)} (h : Gives Clean o) :
    Gives Clean (o.map fun x => (Parsed.form f, x.2)) :=
  h.map fun _ hx => ⟨.form f, hx.2⟩

section Grammar

variable {self : Rule → Reader} {toks : List Token}

def Keeps (self : Rule → Reader) : Prop := ∀ rule : Rule, rule.NulFree → (self rule).Keeps

theorem Keeps.rule (h : Keeps self) {rule : Rule} (ht : Words toks) (hrule : rule.NulFree) :
    Gives Clean (self rule toks) :=
  h rule hrule ht

theorem Keeps.climbRest (h : Keeps self) {level : Nat} {p : Parsed} (hp : p.expr.NulFree)
    (ht : Words toks) : Gives Clean (self (.climbRest level p) toks) :=
  h.rule ht hp

theorem Keeps.trailers (h : Keeps self) {p : Parsed} (hp : p.expr.NulFree) (ht : Words toks) :
    Gives Clean (self (.trailers p) toks) :=
  h.rule ht hp

theorem Keeps.arguments (h : Keeps self) {c : Call} (hc : c.NulFree) (ht : Words toks) :
    Gives Clean (self (.arguments c) toks) :=
  h.rule ht hc

variable (h : Keeps self)

include h

theorem named_keeps : Reader.Keeps (named self) := by
  intro toks ht
  unfold named
  split
  · exact toForm_keeps (h.rule ht.tail.tail trivial)
  · exact h.rule ht trivial

theorem item_keeps {style : ItemStyle} : Reader.Keeps (item self style) := by
  intro toks ht
  unfold item
  split
  · refine gives_ite gives_none ?_
    exact .map (h.rule ht.tail trivial) fun _ hx => ⟨.form _, hx.2⟩
  · exact gives_ite (named_keeps h ht) (h.rule ht trivial)

theorem moreItems_keeps {style : ItemStyle} {target : Bool} :
    Reader.Keeps (moreItems self style target) := by
  intro toks ht
  unfold moreItems
  split
  · exact gives_ite (gives_some ⟨.form _, ht.tail⟩) (h.rule ht.tail trivial)
  · exact gives_some ⟨.form _, ht⟩

theorem loopUntil_keeps {f : Form} {b : Bracket} : Reader.Keeps (loopUntil self f b) := by
  intro toks ht
  exact .bind (h.rule ht trivial) fun _ hx => gives_form (expect_keeps hx.2)

/-! ### Brackets -/

theorem inRound_keeps : Reader.Keeps (inRound self) := by
  intro toks ht
  unfold inRound
  split
  · exact gives_some ⟨.form _, ht.tail⟩
  · exact .bind (h.rule ht.tail.tail trivial) fun _ hx => gives_form (expect_keeps hx.2)
  · exact gives_some ⟨.form _, ht.tail.tail⟩
  · refine .bind (item_keeps h ht.tail) fun _ hx => ?_
    exact .bind (moreItems_keeps h hx.2) fun _ hy => gives_form (expect_keeps hy.2)
  · refine .bindPair (item_keeps h ht) fun p rest hx => ?_
    dsimp only
    split
    · refine .bind (moreItems_keeps h hx.2) fun _ hy => ?_
      exact .map (expect_keeps hy.2) fun _ hrest => ⟨hy.1, hrest⟩
    · refine gives_ite gives_none (gives_ite (loopUntil_keeps h hx.2) ?_)
      exact .map (expect_keeps hx.2) fun _ hrest => ⟨hx.1, hrest⟩

theorem inSquare_keeps : Reader.Keeps (inSquare self) := by
  intro toks ht
  unfold inSquare
  split
  · exact gives_some ⟨.form _, ht.tail⟩
  · refine .bindPair (item_keeps h ht) fun p rest hx => ?_
    refine gives_ite (gives_ite gives_none (loopUntil_keeps h hx.2)) ?_
    exact .bind (moreItems_keeps h hx.2) fun _ hy => gives_form (expect_keeps hy.2)

theorem morePairs_keeps : Reader.Keeps (morePairs self) := by
  intro toks ht
  unfold morePairs
  split
  · exact gives_some ⟨.form _, ht.tail.tail⟩
  · exact h.rule ht.tail trivial
  · exact gives_form (expect_keeps ht)

theorem pairValue_keeps {loops : Bool} : Reader.Keeps (pairValue self loops) := by
  intro toks ht
  exact .bind (h.rule ht trivial) fun _ hx =>
    gives_ite (loopUntil_keeps h hx.2) (morePairs_keeps h hx.2)

theorem pairs_keeps : Reader.Keeps (pairs self) := by
  intro toks ht
  unfold pairs
  split
  · exact .bind (h.rule ht.tail trivial) fun _ hx => morePairs_keeps h hx.2
  · refine .bind (h.rule ht trivial) fun _ hx => ?_
    exact .bind (expect_keeps hx.2) fun _ hrest => pairValue_keeps h hrest

theorem moreMembers_keeps : Reader.Keeps (moreMembers self) := by
  intro toks ht
  exact .bind (moreItems_keeps h ht) fun _ hx => gives_form (expect_keeps hx.2)

theorem inCurly_keeps : Reader.Keeps (inCurly self) := by
  intro toks ht
  unfold inCurly
  split
  · exact gives_some ⟨.form _, ht.tail⟩
  · exact pairs_keeps h ht
  · exact .bind (item_keeps h ht) fun _ hx => moreMembers_keeps h hx.2
  · refine .bindPair (named_keeps h ht) fun p rest hx => ?_
    dsimp only
    split
    · exact pairValue_keeps h hx.2.tail
    · exact gives_ite (loopUntil_keeps h hx.2) (moreMembers_keeps h hx.2)

/-! ### Operands -/

omit h in
theorem quotedValue_nulFree (q : QuotedRun) :
    Gives (fun p => p.expr.NulFree) (quotedValue self q) := by
  unfold quotedValue
  exact gives_ite (gives_some (.literal _)) (gives_ite (gives_some (.form _)) gives_none)

theorem atom_keeps : Reader.Keeps (atom self) := by
  intro toks ht
  unfold atom
  split
  · exact gives_some ⟨.symbol (words_cons.1 ht).1.compatible, ht.tail⟩
  · exact gives_some ⟨.number _, ht.tail⟩
  · exact gives_some ⟨.number _, ht.tail⟩
  · exact gives_some ⟨.literal _, ht.tail⟩
  · exact gives_some ⟨.literal _, ht.tail⟩
  · exact gives_some ⟨.literal _, ht.tail⟩
  · exact gives_some ⟨.literal _, ht.tail⟩
  · exact gives_some ⟨.literal _, ht.tail⟩
  · exact inRound_keeps h ht.tail
  · exact inSquare_keeps h ht.tail
  · exact inCurly_keeps h ht.tail
  · split
    · rename_i heq
      exact .map (quotedValue_nulFree _) fun _ hp => ⟨hp, quotedRun_keeps ht _ heq⟩
    · exact gives_none
  · exact gives_none

theorem primary_keeps : Reader.Keeps (primary self) := by
  intro toks ht
  refine .bindPair (atom_keeps h ht) fun p rest hx => ?_
  exact h.trailers hx.1 hx.2

/-- What hangs on an operand is read without making null characters. -/
theorem trailers_keeps {left : Parsed} (hleft : left.expr.NulFree) :
    Reader.Keeps (trailers self left) := by
  intro toks ht
  unfold trailers
  split
  · exact h.trailers (.form _) ht.tail.tail
  · exact gives_none
  · have hcall : Call.NulFree ⟨left.expr.name?, .positional, false, []⟩ :=
      ⟨hleft.name?, List.forall_mem_nil _⟩
    refine .bindPair (h.arguments hcall ht.tail) fun p rest hx => ?_
    exact h.trailers hx.1 hx.2
  · refine .bind (h.rule ht.tail trivial) fun _ hx => ?_
    exact h.trailers (.form _) hx.2
  · exact gives_some ⟨hleft, ht⟩

/-! ### Calls -/

theorem moreArguments_keeps {c : Call} (hc : c.NulFree) : Reader.Keeps (moreArguments self c) := by
  intro toks ht
  unfold moreArguments
  split
  · exact h.arguments hc ht.tail
  · exact .map (expect_keeps ht) fun _ hrest => ⟨hc.expr, hrest⟩

theorem arguments_keeps {c : Call} (hc : c.NulFree) : Reader.Keeps (arguments self c) := by
  intro toks ht
  unfold arguments
  split
  · exact gives_some ⟨hc.expr, ht.tail⟩
  · refine .bindPair (h.rule ht.tail trivial) fun p rest hx => ?_
    exact moreArguments_keeps h (hc.at _ true) hx.2
  · refine gives_ite gives_none (.bind (h.rule ht.tail trivial) fun _ hx => ?_)
    exact moreArguments_keeps h (hc.push (.form _)) hx.2
  · refine .bindPair (h.rule ht.tail.tail trivial) fun p rest hx => ?_
    exact moreArguments_keeps h (hc.at _ true) hx.2
  · refine gives_ite gives_none (.bindPair (named_keeps h ht) fun p rest hx => ?_)
    refine gives_ite (gives_ite ?_ gives_none) (moreArguments_keeps h (hc.push hx.1) hx.2)
    refine .map (loopUntil_keeps h hx.2) fun x hg => ⟨?_, hg.2⟩
    have hone : Call.NulFree { c with arguments := [x.1.expr] } :=
      ⟨hc.function, List.forall_mem_singleton.2 hg.1⟩
    exact hone.expr

/-! ### Slices -/

theorem bound_keeps : Reader.Keeps (bound self) := by
  intro toks ht
  unfold bound
  split
  · exact gives_some ⟨.form _, ht⟩
  · exact gives_some ⟨.form _, ht⟩
  · exact gives_some ⟨.form _, ht⟩
  · exact h.rule ht trivial

theorem bounds_keeps : Reader.Keeps (bounds self) := by
  intro toks ht
  refine .bindPair (bound_keeps h ht) fun p rest hx => ?_
  dsimp only
  split
  · exact bound_keeps h hx.2.tail
  · exact gives_some hx

theorem slice_keeps : Reader.Keeps (slice self) := by
  intro toks ht
  unfold slice
  split
  · exact h.rule ht.tail trivial
  · exact bounds_keeps h ht.tail
  · exact named_keeps h ht
  · refine .bindPair (h.rule ht trivial) fun p rest hx => ?_
    dsimp only
    split
    · exact bounds_keeps h hx.2.tail
    · exact gives_some hx

theorem slices_keeps : Reader.Keeps (slices self) := by
  intro toks ht
  refine .bindPair (slice_keeps h ht) fun p rest hx => ?_
  dsimp only
  split
  · exact gives_some ⟨hx.1, hx.2.tail.tail⟩
  · exact h.rule hx.2.tail trivial
  · exact .map (expect_keeps hx.2) fun _ hrest => ⟨hx.1, hrest⟩

/-! ### Comprehensions -/

theorem target_keeps : Reader.Keeps (target self) := by
  intro toks ht
  unfold target
  split
  · exact primary_keeps h ht.tail
  · exact primary_keeps h ht

theorem targets_keeps : Reader.Keeps (targets self) := by
  intro toks ht
  refine .bindPair (target_keeps h ht) fun p rest hx => gives_ite gives_none ?_
  split
  · exact gives_ite (gives_some ⟨hx.1, hx.2.tail⟩) (h.rule hx.2.tail trivial)
  · exact gives_some hx

theorem conditions_keeps : Reader.Keeps (conditions self) := by
  intro toks ht
  unfold conditions
  split
  · exact .bind (h.rule ht.tail trivial) fun _ hx => h.rule hx.2 trivial
  · exact gives_ite (h.rule ht trivial) (gives_some ⟨.form _, ht⟩)

theorem clauses_keeps : Reader.Keeps (clauses self) := by
  intro toks ht
  have hbody {toks : List Token} (ht : Words toks) : Gives Clean
      ((expectWord .wFor toks).bind fun rest => (self .targets rest).bind fun x =>
        .bind (expectWord .wIn x.2) fun rest =>
          (self .disjunction rest).bind fun y => self .conditions y.2) := by
    refine .bind (expectWord_keeps ht) fun _ hfor => .bind (h.rule hfor trivial) fun _ hx => ?_
    refine .bind (expectWord_keeps hx.2) fun _ hin => .bind (h.rule hin trivial) fun _ hy => ?_
    exact h.rule hy.2 trivial
  unfold clauses
  split
  · exact hbody ht.tail
  · exact hbody ht

/-! ### Parameters -/

theorem moreParameters_keeps {s : Signature} : Reader.Keeps (moreParameters self s) := by
  intro toks ht
  unfold moreParameters
  split
  · exact h.rule ht.tail trivial
  · exact h.rule ht trivial
  · exact gives_none

theorem parameters_keeps {s : Signature} : Reader.Keeps (parameters self s) := by
  intro toks ht
  unfold parameters
  split
  · exact gives_ite gives_none (toForm_keeps (h.rule ht.tail trivial))
  · exact gives_ite (moreParameters_keeps h ht.tail) gives_none
  · exact gives_ite gives_none (moreParameters_keeps h ht.tail.tail)
  · exact gives_ite gives_none (h.rule ht.tail.tail trivial)
  · exact gives_ite gives_none (moreParameters_keeps h ht.tail.tail)
  · refine gives_ite gives_none (.bind (h.rule ht.tail.tail trivial) fun _ hx => ?_)
    exact moreParameters_keeps h hx.2
  · exact gives_ite gives_none (moreParameters_keeps h ht.tail)
  · exact gives_none

/-! ### Operators -/

theorem factor_keeps : Reader.Keeps (factor self) := by
  intro toks ht
  unfold factor
  split
  · exact .map (h.rule ht.tail trivial) fun _ hx => ⟨.signed hx.1, hx.2⟩
  · exact .map (h.rule ht.tail trivial) fun _ hx => ⟨.signed hx.1, hx.2⟩
  · exact toForm_keeps (h.rule ht.tail trivial)
  · refine Gives.bindPair (P := Clean) ?_ fun p rest hx => ?_
    · split
      · exact toForm_keeps (primary_keeps h ht.tail)
      · exact primary_keeps h ht
    · dsimp only
      split
      · exact .map (h.rule hx.2.tail trivial) fun _ hy => ⟨nulFree_combine hx.1 hy.1, hy.2⟩
      · exact gives_some hx

/-- Operators and their right operands are, too. -/
theorem climbRest_keeps {level : Nat} {left : Parsed} (hleft : left.expr.NulFree) :
    Reader.Keeps (climbRest self level left) := by
  intro toks ht
  unfold climbRest
  split
  · split
    · refine gives_ite (.bindPair (h.rule ht.tail trivial) fun right rest hx => ?_) (gives_some ⟨hleft, ht⟩)
      exact h.climbRest (nulFree_combine hleft hx.1) hx.2
    · exact gives_some ⟨hleft, ht⟩
  · exact gives_some ⟨hleft, ht⟩

theorem comparison_keeps : Reader.Keeps (comparison self) := by
  intro toks ht
  refine .bindPair (h.rule ht trivial) fun p rest hx => ?_
  dsimp only
  split
  · rename_i heq
    exact toForm_keeps (h.rule (comparison?_keeps hx.2 _ heq) trivial)
  · exact gives_some hx

theorem inversion_keeps : Reader.Keeps (inversion self) := by
  intro toks ht
  unfold inversion
  split
  · exact toForm_keeps (h.rule ht.tail trivial)
  · exact h.rule ht trivial

theorem joined_keeps {k : Keyword} (inner outer : Rule) (hinner : inner.NulFree)
    (houter : outer.NulFree) : Reader.Keeps (joined self k inner outer) := by
  intro toks ht
  refine .bindPair (h.rule ht hinner) fun p rest hx => ?_
  dsimp only
  split
  · rename_i heq
    exact toForm_keeps (h.rule (expectWord_keeps hx.2 _ heq) houter)
  · exact gives_some hx

theorem expression_keeps : Reader.Keeps (expression self) := by
  intro toks ht
  unfold expression
  split
  · exact h.rule ht.tail trivial
  · refine .bindPair (h.rule ht trivial) fun p rest hx => ?_
    dsimp only
    split
    · refine .bind (h.rule hx.2.tail trivial) fun _ hy => ?_
      exact .bind (expectWord_keeps hy.2) fun _ helse => toForm_keeps (h.rule helse trivial)
    · exact gives_some hx

/-- One rule keeps if all the rules it is built from do. -/
theorem apply_keeps {rule : Rule} (hrule : rule.NulFree) : (apply self rule).Keeps := by
  cases rule with
  | expression => exact expression_keeps h
  | disjunction => exact joined_keeps h .conjunction .disjunction trivial trivial
  | conjunction => exact joined_keeps h .inversion .conjunction trivial trivial
  | inversion => exact inversion_keeps h
  | comparison => exact comparison_keeps h
  | climb level =>
      intro toks ht
      refine .bindPair (h.rule ht trivial) fun p rest hx => ?_
      exact h.climbRest hx.1 hx.2
  | climbRest level left => exact climbRest_keeps h hrule
  | factor => exact factor_keeps h
  | trailers left => exact trailers_keeps h hrule
  | items style before =>
      intro toks ht
      exact .bind (item_keeps h ht) fun _ hx => moreItems_keeps h hx.2
  | arguments c => exact arguments_keeps h hrule
  | slices => exact slices_keeps h
  | pairs => exact pairs_keeps h
  | targets => exact targets_keeps h
  | clauses => exact clauses_keeps h
  | conditions => exact conditions_keeps h
  | parameters s => exact parameters_keeps h

theorem expressions_keeps : Reader.Keeps (expressions self) := by
  intro toks ht
  refine .bindPair (item_keeps h ht) fun p rest hx => ?_
  dsimp only
  split
  · exact moreItems_keeps h hx.2
  · exact gives_some hx

end Grammar

/-- Readers keep at every depth. -/
theorem read_keeps (fuel : Nat) : Keeps (read fuel) := by
  induction fuel with
  | zero =>
      intro rule _ toks _
      exact gives_none
  | succ fuel ih =>
      intro rule hrule
      exact apply_keeps ih hrule

/-- The names of the expression that a text is. -/
theorem parse?_nulFree {t : Text} (h : Text.NulFree t) : Gives Expr.NulFree (parse? t) := by
  refine .bind (nulFree_tokens h) fun toks htoks => ?_
  split
  · rename_i heq
    exact gives_some (expressions_keeps (read_keeps _) htoks _ heq).1
  · exact gives_none

end Arithmetic

end TabletopChat
