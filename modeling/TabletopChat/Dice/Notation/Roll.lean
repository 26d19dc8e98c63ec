import TabletopChat.Dice.Notation.Parser
import TabletopChat.Dice.Notation.Rolled
import TabletopChat.Dice.Source

/-!
# Dice/Notation/Roll — rolling dice notation

What is documented of the d20 roller is followed here as it is. The dice of an expression are rolled from
left to right, and each set is operated on as soon as its members are rolled (`Tree.roll`); selectors see
only what is kept (`candidatesFrom`). No more than a thousand dice are rolled for one expression, those that
are rolled again or added included (`countDie`), and a die needs a face (`rollDie`). Bounds take a plain
number as their selector (`boundDice`). What was read is taken again for every text that is the same without
its spaces, although a space can mean something (`parseCached`). A division by zero that is met only when
the terms are written is no fault of the expression but the end of the action (`termsOf`).

- `Fault`    : why an expression cannot be rolled
- `select`   : the members that selectors mean
- `operate`  : one operation on a rolled expression
- `roll`     : a whole text
-/

namespace TabletopChat

namespace Notation

open Arithmetic (Number compareNumbers)

/-! ## Faults -/

/-- Why an expression cannot be rolled. -/
inductive Fault
  | unreadable
  | noFaces
  | tooManyDice
  | divisionByZero
  | badBound (action : Action) (s : Selector)
  | tooLong
  deriving DecidableEq, Repr

def Fault.message : Fault → Text
  | .unreadable => "Unexpected input".toList
  | .noFaces => "Cannot roll a 0-sided die.".toList
  | .tooManyDice => "Too many dice rolled.".toList
  | .divisionByZero => "Cannot divide by zero.".toList
  | .badBound action s =>
    s.source ++ " is not a valid selector for ".toList ++
      (if action = .minimum then "minimums.".toList else "maximums.".toList)
  | .tooLong => "result too large".toList

/-- Why rolling stops: the expression is at fault, or the whole action cannot go on. -/
inductive Halt
  | fault (f : Fault)
  | abort (a : Abort)
  deriving DecidableEq, Repr

/-! ## Rolling dice -/

/-- The dice source and the number of dice that were rolled for an expression. -/
structure Tray where
  dice : Dice
  rolled : Nat

/-- The most dice that are rolled for an expression. -/
def maxRolled : Nat := 1000

def drawBetween (a b : Int) : Act Halt Tray Int :=
  (Dice.draw a b).mapError Halt.abort |>.zoom Tray.dice fun d t => { t with dice := d }

def countDie : Act Halt Tray Unit := do
  if (← Act.get).rolled < maxRolled then
    Act.modify fun t => { t with rolled := t.rolled + 1 }
  else Act.stop (.fault .tooManyDice)

def rollDie : Sides → Act Halt Tray Int
  | .percent => do
    countDie
    let v ← drawBetween 1 10
    pure (10 * (v - 1))
  | .faces 0 => Act.stop (.fault .noFaces)
  | .faces n => do
    countDie
    drawBetween 1 n

/-- Rolls dice until there are `count` of them; only `fuel` are tried. -/
def rollDice (sides : Sides) : (fuel : Nat) → (count : Nat) → Act Halt Tray (List Die)
  | _, 0 => pure []
  | 0, _ => Act.stop (.fault .tooManyDice)
  | fuel + 1, count + 1 => do
    let v ← rollDie sides
    let vs ← rollDice sides fuel count
    pure (⟨v, true⟩ :: vs)

/-! ## Selecting -/

/-- A member that is kept: its place and what it is worth. -/
structure Candidate where
  place : Nat
  value : Number

/-- The members that are kept, unless one of them has no value. -/
def candidatesFrom (place : Nat) : List Member → Except Arithmetic.Fault (List Candidate)
  | [] => .ok []
  | none :: ms => candidatesFrom (place + 1) ms
  | some (.error f) :: _ => .error f
  | some (.ok v) :: ms => (candidatesFrom (place + 1) ms).map (⟨place, v⟩ :: ·)

def comparesAs (o : Ordering) (a b : Number) : Bool := compareNumbers a b == some o

/-- The candidates that a selector means, in its own order; equal ones stay in their order. -/
def Selector.select (s : Selector) (cs : List Candidate) : List Candidate :=
  match s.category with
  | .lowest => (cs.mergeSort fun a b => !comparesAs .gt a.value b.value).take s.number
  | .highest => (cs.mergeSort fun a b => !comparesAs .lt a.value b.value).take s.number
  | .less => cs.filter fun c => comparesAs .lt c.value (.int s.number)
  | .greater => cs.filter fun c => comparesAs .gt c.value (.int s.number)
  | .equal => cs.filter fun c => comparesAs .eq c.value (.int s.number)

def placesOf (selectors : List Selector) (cs : List Candidate) : List Nat :=
  selectors.flatMap fun s => (s.select cs).map Candidate.place

/-- Why there is no selection. -/
def haltOf : Arithmetic.Fault → Halt
  | .divisionByZero => .fault .divisionByZero
  | _ => .abort .numberTooLarge

/-- The places of the members that selectors mean, in the order of the members. -/
def select (selectors : List Selector) (ms : List Member) : Act Halt Tray (List Nat) :=
  match candidatesFrom 0 ms with
  | .error f => Act.stop (haltOf f)
  | .ok cs =>
    let places := placesOf selectors cs
    pure ((List.range ms.length).filter places.contains)

/-- The place of the first member that selectors mean, the selectors being tried in turn. -/
def selectFirst (selectors : List Selector) (ms : List Member) : Act Halt Tray (Option Nat) :=
  match candidatesFrom 0 ms with
  | .error f => Act.stop (haltOf f)
  | .ok cs => pure (placesOf selectors cs).head?

/-! ## Operating -/

def rerollAt (sides : Sides) (places : List Nat) : Nat → List Die → Act Halt Tray (List Die)
  | _, [] => pure []
  | i, d :: ds => do
    let d' ← if places.contains i then do
        let v ← rollDie sides
        pure { d with value := v }
      else pure d
    let ds' ← rerollAt sides places (i + 1) ds
    pure (d' :: ds')

/-- Rolls selected dice again until none is selected; `fuel` bounds the number of rounds. -/
def rerollWhile (sides : Sides) (selectors : List Selector) :
    Nat → List Die → Act Halt Tray (List Die)
  | 0, _ => Act.stop (.fault .tooManyDice)
  | fuel + 1, ds => do
    let places ← select selectors (ds.map Die.member)
    if places.isEmpty then pure ds
    else rerollWhile sides selectors fuel (← rerollAt sides places 0 ds)

/-- Adds a die for each selected one that has not been there in a round before. -/
def explodeWhile (sides : Sides) (selectors : List Selector) :
    (fuel : Nat) → (exploded : List Nat) → List Die → Act Halt Tray (List Die)
  | 0, _, _ => Act.stop (.fault .tooManyDice)
  | fuel + 1, exploded, ds => do
    let places ← select selectors (ds.map Die.member)
    let fresh := places.filter fun i => !exploded.contains i
    if fresh.isEmpty then pure ds
    else
      let more ← rollDice sides (maxRolled + 1) fresh.length
      explodeWhile sides selectors fuel (exploded ++ fresh) (ds ++ more)

/-- More rounds of rolling again than can come about. -/
def maxRounds : Nat := maxRolled + 2

def boundDice (action : Action) (selectors : List Selector) (ds : List Die) :
    Act Halt Tray (List Die) :=
  match selectors.getLast? with
  | none => pure ds
  | some s =>
    if s.category = .equal then
      pure (ds.map fun d =>
        let bound : Int := s.number
        let bounded := if action = .minimum then max d.value bound else min d.value bound
        if d.kept then { d with value := bounded } else d)
    else Act.stop (.fault (.badBound action s))

/-- One operation on dice that is only for dice. -/
def operateDice (o : Operation) (sides : Sides) (ds : List Die) : Act Halt Tray (List Die) :=
  match o.action with
  | .reroll => rerollWhile sides o.selectors maxRounds ds
  | .rerollOnce => do
    let places ← select o.selectors (ds.map Die.member)
    rerollAt sides places 0 ds
  | .explodeOnce => do
    match ← selectFirst o.selectors (ds.map Die.member) with
    | none => pure ds
    | some _ => do
      let more ← rollDice sides (maxRolled + 1) 1
      pure (ds ++ more)
  | .explode => explodeWhile sides o.selectors maxRounds [] ds
  | action => boundDice action o.selectors ds

def operate (x : Rolled) (o : Operation) : Act Halt Tray Rolled :=
  match o.action with
  | .keep => do
    let places ← select o.selectors x.members
    pure (x.dropMembers fun i => !places.contains i)
  | .drop => do
    let places ← select o.selectors x.members
    pure (x.dropMembers places.contains)
  | _ =>
    match x with
    | .dice sides ds k => do
      let ds' ← operateDice o sides ds
      pure (.dice sides ds' k)
    | x => pure x

def operateAll (x : Rolled) : List Operation → Act Halt Tray Rolled
  | [] => pure x
  | o :: os => do operateAll (← operate x o) os

/-! ## Rolling expressions -/

mutual

def Tree.roll : Tree → Act Halt Tray Rolled
  | .literal v => pure (.literal v true)
  | .dice count sides os => do
    let ds ← rollDice sides (maxRolled + 1) count
    operateAll (.dice sides ds true) os
  | .group x os => do
    let r ← x.roll
    operateAll (.group r (!os.isEmpty) true) os
  | .set xs os => do
    let rs ← rollAll xs
    operateAll (.set rs true) os
  | .signed n x => do
    let r ← x.roll
    pure (.signed n r true)
  | .binary op l r => do
    let a ← l.roll
    let b ← r.roll
    pure (.binary op a b true)

def rollAll : List Tree → Act Halt Tray (List Rolled)
  | [] => pure []
  | x :: xs => do
    let r ← x.roll
    let rs ← rollAll xs
    pure (r :: rs)

end

/-! ## Texts -/

/-- Expressions that were read, under their texts without spaces. -/
abbrev Cache := List (Text × Tree)

/-- A text without spaces. -/
def cacheKey (t : Text) : Text := t.filter (· ≠ ' ')

/-- The expression of a text: one that was read before from the same text, spaces apart, is taken
again. -/
def parseCached (t : Text) (cache : Cache) : Except Unread (Tree × Cache) :=
  match cache.find? fun e => e.1 == cacheKey t with
  | some e => .ok (e.2, cache)
  | none => (parse t).map fun x => (x, (cacheKey t, x) :: cache)

structure Table where
  dice : Dice
  cache : Cache

/-- A rolled text: the expression with its dice, and its terms. -/
structure Outcome where
  rolled : Rolled
  terms : List Term

def readText (t : Text) : Act Halt Table Tree := fun s =>
  match parseCached t s.cache with
  | .ok (x, cache) => (.ok x, { s with cache := cache })
  | .error .malformed => (.error (.fault .unreadable), s)
  | .error .numeralTooLong => (.error (.abort .numeralTooLong), s)

/-- Rolls an expression; the count of dice begins anew. -/
def rollTree (x : Tree) : Act Halt Table Rolled :=
  x.roll.zoom (fun s => ⟨s.dice, 0⟩) fun t s => { s with dice := t.dice }

def termsOf (r : Rolled) : Act Halt Table (List Term) :=
  match r.flatten with
  | .ok ts => pure ts
  | .error .division => Act.stop (.abort .worthlessTerm)
  | .error .tooLong => Act.stop (.fault .tooLong)
  | .error .tooLarge => Act.stop (.abort .numberTooLarge)

def roll (t : Text) : Act Halt Table Outcome := do
  let x ← readText t
  let r ← rollTree x
  let ts ← termsOf r
  pure ⟨r, ts⟩

end Notation

end TabletopChat
