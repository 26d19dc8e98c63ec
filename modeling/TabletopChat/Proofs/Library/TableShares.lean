import Mathlib
import TabletopChat.Library.Table

/-!
# Proofs/Library/TableShares — every entry of a table has its share of the numbers

The numbers from one up to the sum of the weights above zero are dealt out to the entries of a table in
their order, to each as many as its weight. A table draws one of these numbers, and gives the entry that
the number was dealt to; so nothing but the weights decides which entry it is, and how often.

- `sumAbove`    : the sum of the weights above zero
- `share`       : the numbers that are dealt to the entry at a position
- `card_share`  : how many these are
- `exists_unique_share` : each number is dealt once
- `pick_of_mem_share`   : a number picks the entry that it was dealt to
- `table_gives_shares`  : tables
-/

namespace TabletopChat

namespace Library

/-! ## Sums of weights -/

def sumAbove (entries : List TableEntry) : Int :=
  ((entries.map TableEntry.weight).filter fun w => decide (0 < w)).sum

@[simp] theorem sumAbove_nil : sumAbove [] = 0 := rfl

/-- A weight that is not above zero adds nothing. -/
theorem sumAbove_cons (e : TableEntry) (es : List TableEntry) :
    sumAbove (e :: es) = max e.weight 0 + sumAbove es := by
  by_cases h : 0 < e.weight
  · simp [sumAbove, h, max_eq_left h.le]
  · simp [sumAbove, h, max_eq_right (not_lt.1 h)]

theorem sumAbove_append (es fs : List TableEntry) :
    sumAbove (es ++ fs) = sumAbove es + sumAbove fs := by
  simp [sumAbove]

/-- Weights below zero count as nothing. -/
theorem sumAbove_nonneg (es : List TableEntry) : 0 ≤ sumAbove es := by
  induction es with
  | nil => exact le_rfl
  | cons e es ih =>
      rw [sumAbove_cons]
      exact add_nonneg (le_max_right _ _) ih

/-- The weights of a table add up share by share. -/
theorem totalWeight_eq (es : List TableEntry) : totalWeight es = sumAbove es := by
  induction es with
  | nil => rfl
  | cons e es ih =>
      rw [sumAbove_cons, ← ih, totalWeight]
      split <;> omega

/-- Further entries do not make the sum smaller. -/
theorem sumAbove_take_mono (es : List TableEntry) : Monotone fun i => sumAbove (es.take i) := by
  refine monotone_nat_of_le_succ fun i => ?_
  rw [List.take_add_one, sumAbove_append]
  exact le_add_of_nonneg_right (sumAbove_nonneg _)

/-! ## Shares -/

/-- The numbers that are dealt to the entry at a position: those behind the weights of the entries in
front of it, as many as its own weight. -/
def share (entries : List TableEntry) (i : Nat) : Finset Int :=
  let weight := (entries[i]?.map TableEntry.weight).getD 0
  (Finset.range weight.toNat).image fun k : Nat => sumAbove (entries.take i) + 1 + k

theorem sumAbove_take_succ (es : List TableEntry) (i : Nat) :
    sumAbove (es.take (i + 1)) =
      sumAbove (es.take i) + max ((es[i]?.map TableEntry.weight).getD 0) 0 := by
  rw [List.take_add_one, sumAbove_append]
  cases es[i]? with
  | none => rfl
  | some e => simp [sumAbove_cons]

/-- A number belongs to the share between two sums. -/
theorem mem_share {es : List TableEntry} {i : Nat} {n : Int} :
    n ∈ share es i ↔ sumAbove (es.take i) < n ∧ n ≤ sumAbove (es.take (i + 1)) := by
  rw [sumAbove_take_succ, share, Finset.mem_image]
  constructor
  · rintro ⟨k, hk, rfl⟩
    rw [Finset.mem_range] at hk
    omega
  · rintro ⟨hfront, hback⟩
    refine ⟨(n - sumAbove (es.take i) - 1).toNat, ?_, by omega⟩
    rw [Finset.mem_range]
    omega

theorem mem_share_zero {e : TableEntry} {es : List TableEntry} {n : Int} :
    n ∈ share (e :: es) 0 ↔ 0 < n ∧ n ≤ e.weight := by
  rw [mem_share, List.take_zero, List.take_succ_cons, List.take_zero, sumAbove_cons, sumAbove_nil]
  omega

/-- Behind the first entry, the numbers are dealt as they would be without it. -/
theorem mem_share_succ {e : TableEntry} {es : List TableEntry} {i : Nat} {n : Int} :
    n ∈ share (e :: es) (i + 1) ↔ n - max e.weight 0 ∈ share es i := by
  rw [mem_share, mem_share, List.take_succ_cons, List.take_succ_cons, sumAbove_cons, sumAbove_cons]
  omega

/-- An entry is dealt as many numbers as its weight, and none if this is not above zero. -/
theorem card_share {es : List TableEntry} {i : Nat} {e : TableEntry} (h : es[i]? = some e) :
    (share es i).card = e.weight.toNat := by
  have hdifferent : Function.Injective fun k : Nat => sumAbove (es.take i) + 1 + (k : Int) := by
    intro k l hkl
    dsimp only at hkl
    omega
  rw [share, h, Finset.card_image_of_injective _ hdifferent, Finset.card_range]
  rfl

/-- Only numbers from one up to the sum are dealt. -/
theorem share_subset (es : List TableEntry) (i : Nat) : share es i ⊆ Finset.Icc 1 (sumAbove es) := by
  intro n hn
  rw [mem_share] at hn
  have hfront := sumAbove_nonneg (es.take i)
  have hback := sumAbove_nonneg (es.drop (i + 1))
  have hsum : sumAbove (es.take (i + 1)) + sumAbove (es.drop (i + 1)) = sumAbove es := by
    rw [← sumAbove_append, List.take_append_drop]
  exact Finset.mem_Icc.2 ⟨by omega, by omega⟩

/-- Every number up to the sum belongs to a share. -/
theorem exists_share {es : List TableEntry} {n : Int} (h : n ∈ Finset.Icc 1 (sumAbove es)) :
    ∃ i, n ∈ share es i := by
  rw [Finset.mem_Icc] at h
  induction es generalizing n with
  | nil =>
      rw [sumAbove_nil] at h
      omega
  | cons e es ih =>
      rw [sumAbove_cons] at h
      by_cases hn : n ≤ max e.weight 0
      · exact ⟨0, mem_share_zero.2 (by omega)⟩
      · obtain ⟨i, hi⟩ := ih (n := n - max e.weight 0) (by omega)
        exact ⟨i + 1, mem_share_succ.2 hi⟩

/-- No number is dealt to two entries. -/
theorem eq_of_mem_share {es : List TableEntry} {i j : Nat} {n : Int} (hi : n ∈ share es i)
    (hj : n ∈ share es j) : i = j := by
  have hle {i j : Nat} (hi : n ∈ share es i) (hj : n ∈ share es j) : j ≤ i := by
    by_contra hlt
    have hmono := sumAbove_take_mono es (show i + 1 ≤ j by omega)
    rw [mem_share] at hi hj
    dsimp only at hmono
    omega
  exact le_antisymm (hle hj hi) (hle hi hj)

/-- Each number from one up to the sum is dealt to one entry. -/
theorem exists_unique_share {es : List TableEntry} {n : Int} (h : n ∈ Finset.Icc 1 (sumAbove es)) :
    ∃! i, n ∈ share es i := by
  obtain ⟨i, hi⟩ := exists_share h
  exact ⟨i, hi, fun j hj => eq_of_mem_share hj hi⟩

/-! ## Tables -/

/-- A number picks the entry that it was dealt to. -/
theorem pick_of_mem_share {es : List TableEntry} {i : Nat} {n : Int} (h : n ∈ share es i) :
    ∃ e, es[i]? = some e ∧ pick n es = some e.value := by
  induction es generalizing i n with
  | nil =>
      rw [mem_share, List.take_nil, List.take_nil] at h
      omega
  | cons e es ih =>
      cases i with
      | zero =>
          obtain ⟨hpos, hle⟩ := mem_share_zero.1 h
          have hweight : 0 < e.weight := hpos.trans_le hle
          exact ⟨e, rfl, by rw [pick, if_pos hweight, if_pos hle]⟩
      | succ i =>
          have hrest := mem_share_succ.1 h
          obtain ⟨f, hf, hpick⟩ := ih hrest
          refine ⟨f, hf, ?_⟩
          rw [pick]
          split
          · -- the numbers of the first entry are passed over
            rename_i hweight
            have hfront := sumAbove_nonneg (es.take i)
            rw [max_eq_left hweight.le] at hrest hpick
            have hlt : ¬ n ≤ e.weight := by
              have := (mem_share.1 hrest).1
              omega
            rw [if_neg hlt, hpick]
          · rename_i hweight
            rwa [max_eq_right (not_lt.1 hweight), sub_zero] at hpick

/-- A table with weights above zero draws once between one and their sum, and gives the entry that the
number was dealt to: every number is dealt to one entry, and every entry is dealt as many numbers as its
weight, or none. A table without such weights stops and draws nothing. -/
theorem table_gives_shares (entries : List TableEntry) :
    (sumAbove entries = 0 → ∀ d, (rollTable entries).run d = (.error .noWeights, d)) ∧
      (0 < sumAbove entries → ∀ d,
        (∀ n d', (Dice.draw 1 (sumAbove entries)).run d = (.ok n, d') →
          n ∈ Finset.Icc 1 (sumAbove entries) →
          ∃ i e, n ∈ share entries i ∧ entries[i]? = some e ∧
            (rollTable entries).run d = (.ok e.value, d')) ∧
        ∀ reason d', (Dice.draw 1 (sumAbove entries)).run d = (.error reason, d') →
          (rollTable entries).run d = (.error reason, d')) ∧
      (∀ n ∈ Finset.Icc 1 (sumAbove entries), ∃! i, n ∈ share entries i) ∧
      ∀ i e, entries[i]? = some e →
        share entries i ⊆ Finset.Icc 1 (sumAbove entries) ∧
          (share entries i).card = e.weight.toNat := by
  refine ⟨fun hnone d => ?_, fun hsome d => ⟨fun n d' hdraw hn => ?_, fun reason d' hdraw => ?_⟩,
    fun n => exists_unique_share, fun i e he => ⟨share_subset entries i, card_share he⟩⟩
  · rw [rollTable, totalWeight_eq, if_neg (by omega), Act.run_stop]
  · obtain ⟨i, hi⟩ := exists_share hn
    obtain ⟨e, he, hpick⟩ := pick_of_mem_share hi
    refine ⟨i, e, hi, he, ?_⟩
    rw [rollTable, totalWeight_eq, if_pos hsome, Act.run_bind_of_ok hdraw, hpick, Act.run_pure]
  · rw [rollTable, totalWeight_eq, if_pos hsome, Act.run_bind_of_error hdraw]

/-- Two of four entries have a weight above zero, and the second of them is given. -/
theorem table_gives_shares_mixed :
    let entries : List TableEntry :=
      [⟨2, "calm".toList⟩, ⟨-1, "fog".toList⟩, ⟨0, "hail".toList⟩, ⟨3, "rain".toList⟩]
    let d := Dice.fixed 4
    let d' := { d with drawn := 1 }
    0 < sumAbove entries ∧ (Dice.draw 1 (sumAbove entries)).run d = (.ok 4, d') ∧
      (4 : Int) ∈ Finset.Icc 1 (sumAbove entries) ∧
      ∃ i e, (4 : Int) ∈ share entries i ∧ entries[i]? = some e ∧
        (rollTable entries).run d = (.ok e.value, d') := by
  intro entries d d'
  have hsome : 0 < sumAbove entries := by decide
  have hdraw : (Dice.draw 1 (sumAbove entries)).run d = (.ok 4, d') := rfl
  have hn : (4 : Int) ∈ Finset.Icc 1 (sumAbove entries) := Finset.mem_Icc.2 ⟨by decide, by decide⟩
  exact ⟨hsome, hdraw, hn, ((table_gives_shares entries).2.1 hsome d).1 4 d' hdraw hn⟩

end Library

end TabletopChat
