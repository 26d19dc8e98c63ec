import TabletopChat.Arithmetic.Evaluate
import TabletopChat.Dice.Group
import TabletopChat.Dice.Source
import TabletopChat.Text.Digit
import TabletopChat.Text.Quoted
import TabletopChat.Text.Word

/-!
# Dice/Shorthand — rolling dice in place

`NdF` stands for `N` dice with `F` faces. Each group of dice is rolled from left to right and replaced
by its total, also where a total completes another group; what is left is arithmetic.

- `Pattern`      : a written group of dice with its thresholds for rolling again
- `Pattern.roll` : its results
- `roll`         : a whole expression
-/

namespace TabletopChat

namespace Shorthand

/-! ## Patterns -/

/-- A written group of dice. The parts are kept as they are written, digits of any script. -/
structure Pattern where
  source : Text
  count : Text
  faces : Text
  once : Option Text
  again : Option Text
  deriving DecidableEq, Repr

def digits? (t : Text) : Option (Text × Text) :=
  match t.takeWhile Text.isDigit with
  | [] => none
  | ds => some (ds, t.dropWhile Text.isDigit)

/-- What follows `w`, in letters of either case. -/
def word? (w t : Text) : Option Text :=
  if (t.take w.length).map Char.toLower = w then some (t.drop w.length) else none

/-- A threshold: `w`, a sign for less, which may be written as a character reference, and a number. -/
def threshold? (w t : Text) : Option (Text × Text) :=
  (word? w t).bind fun rest =>
    match rest with
    | '<' :: rest => digits? rest
    | rest => (word? "&lt;".toList rest).bind digits?

def optional (r : Option (Text × Text)) (t : Text) : Option Text × Text :=
  match r with
  | some (ds, rest) => (some ds, rest)
  | none => (none, t)

def pattern? (t : Text) : Option (Pattern × Text) :=
  let count := t.takeWhile Text.isDigit
  (word? ['d'] (t.dropWhile Text.isDigit)).bind fun rest =>
    (digits? rest).map fun (faces, rest) =>
      let (once, rest) := optional (threshold? ['r', 'o'] rest) rest
      let (again, rest) := optional (threshold? ['r'] rest) rest
      (⟨t.take (t.length - rest.length), count, faces, once, again⟩, rest)

/-- The first group of dice, with the text before and after it. -/
def firstPattern? : Text → Option (Text × Pattern × Text)
  | [] => none
  | c :: cs =>
    match pattern? (c :: cs) with
    | some (p, rest) => some ([], p, rest)
    | none => (firstPattern? cs).map fun (before, p, rest) => (c :: before, p, rest)

/-- A text without its groups of dice; `fuel` bounds their number. -/
def withoutPatterns : Nat → Text → Text
  | 0, t => t
  | fuel + 1, t =>
    match firstPattern? t with
    | some (before, _, rest) => before ++ withoutPatterns fuel rest
    | none => t

/-- Whether a word begins like a group of dice: with a `d`, or with digits and a `d`. -/
def beginsLikeDice (t : Text) : Bool :=
  match t.dropWhile Text.isDigit with
  | c :: _ => c = 'd' || c = 'D'
  | [] => false

/-- Whether a word in a text begins like a group of dice; `inside` tells whether the text begins
inside of a word. -/
def hasStray (inside : Bool) : Text → Bool
  | [] => false
  | c :: cs => (!inside && beginsLikeDice (c :: cs)) || hasStray (Text.isWord c) cs

def letters (t : Text) : Nat := t.countP fun c => c = 'd' || c = 'D'

/-- Whether something like a group of dice is left when all groups are taken out. -/
def isMalformed (t : Text) : Bool := hasStray false (withoutPatterns (letters t) t)

/-! ## Rolling a group -/

/-- What is wrong with a group of dice. -/
inductive Fault
  | groupTooLarge (source : Text)
  | noFace (faces : Nat)
  | tooManyDice (count : Nat)
  | endless (threshold faces : Nat)
  deriving DecidableEq, Repr

def Fault.message : Fault → Text
  | .groupTooLarge source => "die group too large: ".toList ++ source.take 20 ++ "...".toList
  | .noFace faces => "a die needs at least one face: d".toList ++ Text.ofNat faces
  | .tooManyDice count => "too many dice: ".toList ++ Text.ofNat count
  | .endless threshold faces =>
    "reroll threshold ".toList ++ Text.ofNat threshold ++ " leaves no result on a d".toList ++
      Text.ofNat faces

/-- A group of dice in numbers: a result up to `once` is rolled again once, and otherwise results up
to `again` are rolled again until one is above it. -/
structure Plan where
  count : Nat
  faces : Nat
  once : Nat
  again : Nat
  deriving DecidableEq, Repr

def maxDice : Nat := 1000

/-- The most digits of a number in a group. -/
def maxDigits : Nat := 100

/-- The numbers of a group, unless they are out of bounds. -/
def Pattern.plan (p : Pattern) : Except Fault Plan :=
  let parts := [p.count, p.faces, p.once.getD [], p.again.getD []]
  if parts.any fun ds => decide (ds.length > maxDigits) then .error (.groupTooLarge p.source)
  else
    let count := if p.count = [] then 1 else Text.digitsValue p.count
    let faces := Text.digitsValue p.faces
    let once := Text.digitsValue (p.once.getD [])
    let again := Text.digitsValue (p.again.getD [])
    if faces < 1 then .error (.noFace faces)
    else if count > maxDice then .error (.tooManyDice count)
    else if again ≥ faces then .error (.endless again faces)
    else .ok ⟨count, faces, once, again⟩

/-- Rolls until a result is above `again`, at most `fuel` times. -/
def rollAbove (faces again : Nat) : Nat → Int → Act Abort Dice Int
  | 0, _ => Act.stop .diceExhausted
  | fuel + 1, v =>
    if v ≤ again then do rollAbove faces again fuel (← Dice.draw 1 faces)
    else pure v

def Plan.rollDie (p : Plan) : Act Abort Dice Int := do
  let v ← Dice.draw 1 p.faces
  if v ≤ p.once then
    Dice.draw 1 p.faces
  else
    -- every further roll takes a die, so that no more are needed than are left
    rollAbove p.faces p.again ((← Act.get).limit + 1) v

def Plan.rollDice (p : Plan) : Nat → Act Abort Dice (List Int)
  | 0 => pure []
  | n + 1 => do
    let v ← p.rollDie
    let vs ← p.rollDice n
    pure (v :: vs)

/-! ## Rolling an expression -/

/-- What rolling an expression gives: the text, the groups, and a remark if something is wrong. -/
structure Rolled where
  text : Text
  groups : List DieGroup
  warning : Option Text
  deriving DecidableEq, Repr

/-- What stands in place of an expression whose dice cannot be rolled. -/
def invalidDice : Text := "Invalid Dice String".toList

/-- The remark about an expression whose dice cannot be rolled, and why if that is known. -/
def invalidRemark (expression : Text) (reason : Option Text) : Text :=
  match reason with
  | none => "invalid dice string: ".toList ++ Text.quoted expression
  | some why => "invalid dice string ".toList ++ Text.quoted expression ++ ": ".toList ++ why

def valueRemark (expression why : Text) : Text :=
  "cannot evaluate ".toList ++ Text.quoted expression ++ ": ".toList ++ why

def finish (expression residue : Text) (groups : List DieGroup) (calls : Option Nat := none) :
    Act Abort Dice Rolled := do
  Act.ensure (Arithmetic.affordable calls residue) .callsTooDeep
  match Arithmetic.outcome residue with
  | .number v => pure ⟨v.display, groups, none⟩
  | .fault why => pure ⟨why, groups, some (valueRemark expression why)⟩
  | .unreadable => Act.stop .nullCharacter

/-- Without a limit for calls nothing but a null character is in the way of what is left. -/
theorem finish_unlimited (expression residue : Text) (groups : List DieGroup) :
    finish expression residue groups =
      match Arithmetic.outcome residue with
      | .number v => pure ⟨v.display, groups, none⟩
      | .fault why => pure ⟨why, groups, some (valueRemark expression why)⟩
      | .unreadable => Act.stop .nullCharacter := rfl

/-- Rolls the groups of `t` one after the other and evaluates the rest. Every group has a letter that
its total has not, so `fuel`, the number of letters, suffices. -/
def rollGroups (expression : Text) :
    Nat → List DieGroup → Text → (calls : Option Nat := none) → Act Abort Dice Rolled
  | 0, groups, t, calls => finish expression t groups calls
  | fuel + 1, groups, t, calls =>
    match firstPattern? t with
    | none => finish expression t groups calls
    | some (before, p, rest) =>
      match p.plan with
      | .error f =>
        pure ⟨invalidDice, groups, some (invalidRemark expression (some f.message))⟩
      | .ok plan => do
        let results ← plan.rollDice plan.count
        let group : DieGroup := ⟨.faces plan.faces, results⟩
        rollGroups expression fuel (groups ++ [group]) (before ++ Text.ofInt group.total ++ rest) calls

def roll (expression : Text) (calls : Option Nat := none) : Act Abort Dice Rolled :=
  let t := Text.strip expression
  if isMalformed t then pure ⟨invalidDice, [], some (invalidRemark expression none)⟩
  else rollGroups expression (letters t) [] t calls

end Shorthand

end TabletopChat
