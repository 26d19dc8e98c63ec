import TabletopChat.Proofs.Diagnostics.RecordedNames

/-!
# Proofs/Diagnostics/KnownNames — the names that are known without an evaluation

The names that are known to a document's diagnostics are counted over the tree, outside in; those that
an evaluation records come up from the inside out. They are compared as sets: what is recorded is
known, and what is known is recorded unless a roll comes to nothing although it writes a name or has
rolls inside of it.

- `recorded_names_are_known` : so no reference is reported that the evaluation finds
- `known_names_are_recorded` : so every reference is reported that the evaluation does not find
- `known_name_not_recorded`  : rolls that come to nothing, and a name behind one of them
-/

namespace TabletopChat

namespace Diagnostics

open Act Text Markup Evaluation

/-! ## The names of marks -/

/-- Names are written, or are the numbers that follow each other. -/
theorem mem_numbered {name : Text} {counter : Nat} {ms : List (Option Text)} :
    name ∈ numbered counter ms ↔
      some name ∈ ms ∨ ∃ i < ms.count none, name = Text.ofNat (counter + i + 1) := by
  induction ms generalizing counter with
  | nil => simp [numbered]
  | cons mark ms ih =>
      cases mark with
      | some own =>
          simp only [numbered, List.mem_cons, ih, Option.some.injEq, or_assoc, List.count_cons,
            reduceCtorEq, beq_iff_eq, if_false, Nat.add_zero]
      | none =>
          have hshift (k : Nat) : (∃ i < k + 1, name = Text.ofNat (counter + i + 1)) ↔
              name = Text.ofNat (counter + 1) ∨
                ∃ i < k, name = Text.ofNat (counter + 1 + i + 1) := by
            constructor
            · rintro ⟨i, hi, rfl⟩
              cases i with
              | zero => exact .inl rfl
              | succ i => exact .inr ⟨i, by omega, by congr 1; omega⟩
            · rintro (rfl | ⟨i, hi, rfl⟩)
              · exact ⟨0, by omega, rfl⟩
              · exact ⟨i + 1, by omega, by congr 1; omega⟩
          simp only [numbered, List.mem_cons, ih, reduceCtorEq, false_or, List.count_cons_self, hshift]
          tauto

/-- The names that are known of a message. -/
theorem mem_knownNames {name : Text} {m : Message} :
    name ∈ knownNames m ↔ name ∈ explicitNamesOf m.children ∨
      ∃ i < numberedCountOf m.children, name = Text.ofNat (0 + i + 1) := by
  simp only [knownNames, List.mem_append, List.mem_map, List.mem_range, Nat.zero_add]
  refine or_congr Iff.rfl (exists_congr fun i => and_congr Iff.rfl eq_comm)

/-! ## Blank rolls are hollow -/

/-- A blank roll comes to nothing. -/
theorem areHollow_of_blank (children : List Node) (h : isBlankRoll children = true) :
    areHollow false children = true := by
  induction children with
  | nil => rfl
  | cons n ns ih =>
      simp only [isBlankRoll, List.all_cons, Bool.and_eq_true] at h
      cases n with
      | text t span =>
          simp only [areHollow, isHollow, Bool.and_eq_true]
          exact ⟨h.1, ih h.2⟩
      | roll kind closed children span => exact absurd h.1 (by simp)

/-- A roll without a name that holds nothing but blanks. -/
theorem areHollow_of_isBlankRoll {children : List Node} (hown : ownName? children = none)
    (h : isBlankRoll children = true) : areHollow true children = true := by
  cases children with
  | nil => rfl
  | cons n ns =>
      have hblank := areHollow_of_blank (n :: ns) h
      cases n with
      | text t span =>
          -- without a name, the first text counts as a whole
          have htext : (explicitName t).2 = t := by
            simp only [ownName?] at hown
            unfold explicitName at hown ⊢
            split
            · split
              · rename_i hcut
                simp [hcut] at hown
              · rfl
            · rfl
          simp only [areHollow, isHollow, if_true, htext]
          exact hblank
      | roll kind closed children span => exact hblank

/-! ## What is recorded is known -/

mutual

/-- The rolls of a node that get a result are among those that are counted. -/
theorem marks_counted (n : Node) :
    (∀ name, some name ∈ marks n → name ∈ explicitNames n) ∧ (marks n).count none ≤ numberedCount n := by
  cases n with
  | text t span => simp [marks]
  | roll kind closed children span =>
      obtain ⟨hnames, hcount⟩ := marksOf_counted children
      unfold marks explicitNames numberedCount
      split
      · -- a hollow roll adds nothing
        rw [List.append_nil]
        exact ⟨fun name h => List.mem_append_right _ (hnames name h), by omega⟩
      · rename_i hhollow
        refine ⟨fun name h => ?_, ?_⟩
        · rw [List.mem_append, List.mem_singleton] at h
          rcases h with h | h
          · exact List.mem_append_right _ (hnames name h)
          · exact List.mem_append_left _ (by simp [← h])
        · rw [List.count_append]
          cases hown : ownName? children with
          | some own => simpa using hcount
          | none =>
              have hblank : isBlankRoll children = false := by
                rw [← Bool.not_eq_true]
                exact fun h => hhollow (areHollow_of_isBlankRoll hown h)
              simp only [hblank, Option.isNone_none, Bool.not_false, Bool.and_self, if_true,
                List.count_singleton_self]
              omega

/-- The same for neighbouring nodes. -/
theorem marksOf_counted (ns : List Node) :
    (∀ name, some name ∈ marksOf ns → name ∈ explicitNamesOf ns) ∧
      (marksOf ns).count none ≤ numberedCountOf ns := by
  cases ns with
  | nil => simp [marksOf]
  | cons n ns =>
      obtain ⟨hfirst, hcount⟩ := marks_counted n
      obtain ⟨hrest, hcounts⟩ := marksOf_counted ns
      unfold marksOf explicitNamesOf numberedCountOf
      refine ⟨fun name h => ?_, by rw [List.count_append]; omega⟩
      rw [List.mem_append] at h ⊢
      exact h.imp (hfirst name) (hrest name)

end

/-- A warning about a reference is about a name that is not known. -/
theorem mem_unknownReferences {source : Text} {known : List Text} {offset : Nat}
    {ps : List (Piece Reference)} {d : Diagnostic} (h : d ∈ unknownReferences source known offset ps) :
    ∃ name, name ∉ known ∧ d.message = unknownMessage name := by
  induction ps generalizing offset with
  | nil => cases h
  | cons p ps ih =>
      cases p with
      | plain c => exact ih h
      | tag ref t =>
          unfold unknownReferences at h
          dsimp only at h
          split at h
          · exact ih h
          · rename_i hknown
            rcases List.mem_cons.1 h with rfl | h
            · exact ⟨ref.name, hknown, rfl⟩
            · exact ih h

theorem unknownMessage_inj {a b : Text} (h : unknownMessage a = unknownMessage b) : a = b := by
  unfold unknownMessage at h
  exact List.append_cancel_left (List.append_cancel_right h)

/-- The warning about a prompt is no warning about a reference. -/
theorem unknownMessage_ne_unclosed (name : Text) :
    "prompt tag is never closed".toList ≠ unknownMessage name := by
  intro h
  have hp : "prompt tag is never closed".toList.head? = some 'p' := by decide
  have hn : (unknownMessage name).head? = some 'n' := rfl
  rw [h, hn] at hp
  exact absurd hp (by decide)

/-- If `@` stands in rolls only where they write their names, every name that an evaluation records is
known, so that no warning about a reference is given whose result there is. -/
theorem recorded_names_are_known {inlineMath tooltips : Bool} {source t : Text} {m : Message}
    {s s' : State} (hparse : parseStrict inlineMath source = .ok m) (hnames : rollsNamedInFront m = true)
    (hempty : s.records = .empty)
    (hrun : (evaluateRolls ⟨.shorthand, tooltips, inlineMath⟩ source).run s = (.ok t, s')) :
    (∀ name ∈ s'.records.names, name ∈ knownNames m) ∧
      ∀ d ∈ check inlineMath source, ∀ name, d.message = unknownMessage name →
        name ∉ s'.records.names := by
  obtain rfl : m = parse inlineMath source := eq_parse_of_strict hparse
  have hknown : ∀ name ∈ s'.records.names, name ∈ knownNames (parse inlineMath source) := by
    intro name hname
    rw [evaluateRolls_recorded hnames hempty hrun, mem_numbered] at hname
    obtain ⟨hexplicit, hcount⟩ := marksOf_counted (parse inlineMath source).children
    rw [mem_knownNames]
    rcases hname with hname | ⟨i, hi, rfl⟩
    · exact .inl (hexplicit name hname)
    · exact .inr ⟨i, by omega, rfl⟩
  refine ⟨hknown, fun d hd name hmessage hrecorded => ?_⟩
  rcases List.mem_append.1 hd with hd | hd
  · simp only [checkRolls, hparse] at hd
    obtain ⟨other, hother, hd⟩ := mem_unknownReferences hd
    obtain rfl : other = name := unknownMessage_inj (hd.symm.trans hmessage)
    exact hother (hknown other hrecorded)
  · obtain ⟨offset, -, rfl⟩ := List.mem_map.1 hd
    exact unknownMessage_ne_unclosed name hmessage

def untouched (d : Dice) : State := ⟨d, [], .empty, []⟩

/-- A roll with a name, and one with a roll and a blank roll inside of it. -/
theorem recorded_names_are_known_nested :
    let source := "[[@atk:1d20+5]] [[ [[1d4]]d6 [[ ]]]] me@home @{atk} @{3}".toList
    let s := untouched (.fixed 3)
    ∃ m t s', parseStrict false source = .ok m ∧ rollsNamedInFront m = true ∧
      s.records = .empty ∧
      (evaluateRolls ⟨.shorthand, false, false⟩ source).run s = (.ok t, s') ∧
      (∀ name ∈ s'.records.names, name ∈ knownNames m) ∧
      ∀ d ∈ check false source, ∀ name, d.message = unknownMessage name →
        name ∉ s'.records.names := by
  intro source s
  obtain ⟨m, hparse⟩ : ∃ m, parseStrict false source = .ok m :=
    exists_of_toOption (by decide +kernel)
  have hnames : rollsNamedInFront m = true := by
    rw [eq_parse_of_strict hparse]
    decide +kernel
  obtain ⟨t, s', hrun⟩ := exists_of_run (s := s)
    (a := evaluateRolls ⟨.shorthand, false, false⟩ source) (by decide +kernel)
  have hknown := recorded_names_are_known hparse hnames rfl hrun
  exact ⟨m, t, s', hparse, hnames, rfl, hrun, hknown⟩

/-! ## What is known is recorded -/

mutual

/-- Whether every roll of a node that comes to nothing is one that is left out of the count: it writes no
name, has no rolls inside of it, and holds nothing but blanks. -/
def hollowLeftOut : Node → Bool
  | .text _ _ => true
  | .roll _ _ children _ =>
    (!areHollow true children || ((ownName? children).isNone && isBlankRoll children)) &&
      allHollowLeftOut children

def allHollowLeftOut : List Node → Bool
  | [] => true
  | n :: ns => hollowLeftOut n && allHollowLeftOut ns

end

mutual

/-- Then all rolls that are counted get a result. -/
theorem counted_marks (n : Node) (h : hollowLeftOut n = true) :
    (∀ name ∈ explicitNames n, some name ∈ marks n) ∧ numberedCount n ≤ (marks n).count none := by
  cases n with
  | text t span => simp [explicitNames, numberedCount]
  | roll kind closed children span =>
      simp only [hollowLeftOut, Bool.and_eq_true] at h
      obtain ⟨hroll, hinside⟩ := h
      obtain ⟨hnames, hcount⟩ := countedOf_marks children hinside
      unfold marks explicitNames numberedCount
      split
      · -- a hollow roll is left out, so that it has no name and no number
        rename_i hhollow
        simp only [hhollow, Bool.not_true, Bool.false_or, Bool.and_eq_true] at hroll
        obtain ⟨hown, hblank⟩ := hroll
        rw [Option.isNone_iff_eq_none] at hown
        simpa [hown, hblank] using ⟨hnames, hcount⟩
      · refine ⟨fun name hname => ?_, ?_⟩
        · rw [List.mem_append, List.mem_singleton]
          rcases List.mem_append.1 hname with hname | hname
          · exact .inr (by simpa [eq_comm] using hname)
          · exact .inl (hnames name hname)
        · rw [List.count_append]
          cases ownName? children with
          | some own => simpa using hcount
          | none =>
              rw [List.count_singleton_self]
              split <;> omega

/-- The same for neighbouring nodes. -/
theorem countedOf_marks (ns : List Node) (h : allHollowLeftOut ns = true) :
    (∀ name ∈ explicitNamesOf ns, some name ∈ marksOf ns) ∧
      numberedCountOf ns ≤ (marksOf ns).count none := by
  cases ns with
  | nil => simp [explicitNamesOf, numberedCountOf]
  | cons n ns =>
      simp only [allHollowLeftOut, Bool.and_eq_true] at h
      obtain ⟨hfirst, hcount⟩ := counted_marks n h.1
      obtain ⟨hrest, hcounts⟩ := countedOf_marks ns h.2
      unfold marksOf explicitNamesOf numberedCountOf
      refine ⟨fun name hname => ?_, by rw [List.count_append]; omega⟩
      rw [List.mem_append] at hname ⊢
      exact hname.imp (hfirst name) (hrest name)

end

/-- If `@` stands in rolls only where they write their names, and only rolls that are left out of the
count come to nothing, then every name that is known is recorded. -/
theorem known_names_are_recorded {inlineMath tooltips : Bool} {source t : Text} {m : Message}
    {s s' : State} (hparse : parseStrict inlineMath source = .ok m) (hnames : rollsNamedInFront m = true)
    (hhollow : allHollowLeftOut m.children = true) (hempty : s.records = .empty)
    (hrun : (evaluateRolls ⟨.shorthand, tooltips, inlineMath⟩ source).run s = (.ok t, s')) :
    ∀ name ∈ knownNames m, name ∈ s'.records.names := by
  obtain rfl : m = parse inlineMath source := eq_parse_of_strict hparse
  intro name hname
  obtain ⟨hexplicit, hcount⟩ := countedOf_marks _ hhollow
  rw [evaluateRolls_recorded hnames hempty hrun, mem_numbered]
  rw [mem_knownNames] at hname
  rcases hname with hname | ⟨i, hi, rfl⟩
  · exact .inl (hexplicit name hname)
  · exact .inr ⟨i, by omega, rfl⟩

/-- The same rolls with the blank one beside the others. -/
theorem known_names_are_recorded_nested :
    let source := "[[@atk:1d20+5]] [[ ]] [[ [[1d4]]d6 ]]".toList
    let s := untouched (.fixed 3)
    ∃ m t s', parseStrict false source = .ok m ∧ rollsNamedInFront m = true ∧
      allHollowLeftOut m.children = true ∧ s.records = .empty ∧
      (evaluateRolls ⟨.shorthand, false, false⟩ source).run s = (.ok t, s') ∧
      ∀ name ∈ knownNames m, name ∈ s'.records.names := by
  intro source s
  obtain ⟨m, hparse⟩ : ∃ m, parseStrict false source = .ok m :=
    exists_of_toOption (by decide +kernel)
  have hnames : rollsNamedInFront m = true := by
    rw [eq_parse_of_strict hparse]
    decide +kernel
  have hhollow : allHollowLeftOut m.children = true := by
    rw [eq_parse_of_strict hparse]
    decide +kernel
  obtain ⟨t, s', hrun⟩ := exists_of_run (s := s)
    (a := evaluateRolls ⟨.shorthand, false, false⟩ source) (by decide +kernel)
  have hrecorded := known_names_are_recorded hparse hnames hhollow rfl hrun
  exact ⟨m, t, s', hparse, hnames, hhollow, rfl, hrun, hrecorded⟩

/-- A blank roll inside of a roll, and a name without an expression: both rolls come to nothing, so that
nothing is recorded, but the number of the one and the name of the other are known. Behind a blank roll a
name is in front when the roll is evaluated, so that its result has the name, but the number is known. A
reference to any of them stays as it is and is not reported. -/
theorem known_name_not_recorded :
    let nested := "[[[[]]]] @{1}".toList
    let named := "[[@x:]] @{x}".toList
    let behind := "[[[[]]@x:1]] @{1}".toList
    let records (source : Text) :=
      ((evaluateRolls ⟨.shorthand, false, false⟩ source).run (untouched (.fixed 3))).2.records.names
    let result (source : Text) :=
      ((evaluateRolls ⟨.shorthand, false, false⟩ source).run (untouched (.fixed 3))).1.toOption
    (∃ m, parseStrict false nested = .ok m ∧ "1".toList ∈ knownNames m) ∧
      result nested = some " @{1}".toList ∧ records nested = [] ∧ check false nested = [] ∧
      (∃ m, parseStrict false named = .ok m ∧ "x".toList ∈ knownNames m) ∧
      result named = some " @{x}".toList ∧ records named = [] ∧ check false named = [] ∧
      (∃ m, parseStrict false behind = .ok m ∧ "1".toList ∈ knownNames m) ∧
      result behind = some "1 @{1}".toList ∧ records behind = ["x".toList] ∧
      check false behind = [] := by
  intro nested named behind records result
  have hknown (source name : Text) (hparse : (parseStrict false source).toOption.isSome = true)
      (hname : decide (name ∈ knownNames (parse false source)) = true) :
      ∃ m, parseStrict false source = .ok m ∧ name ∈ knownNames m := by
    obtain ⟨m, hm⟩ := exists_of_toOption hparse
    exact ⟨m, hm, by rw [eq_parse_of_strict hm]; exact of_decide_eq_true hname⟩
  exact ⟨hknown nested _ (by decide +kernel) (by decide +kernel), by decide +kernel,
    by decide +kernel, by decide +kernel, hknown named _ (by decide +kernel) (by decide +kernel),
    by decide +kernel, by decide +kernel, by decide +kernel,
    hknown behind _ (by decide +kernel) (by decide +kernel), by decide +kernel, by decide +kernel,
    by decide +kernel⟩

end Diagnostics

end TabletopChat
