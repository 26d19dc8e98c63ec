import Mathlib.Data.List.Induction
import Mathlib.Data.List.Nodup
import Mathlib.Data.List.Perm.Basic
import TabletopChat.Entries

/-!
# Proofs/Entries — entries whose keys are different

Writing and removing a key keeps the keys of entries different. Then the value under a key is the one
that stands with it, wherever that is.

- `Entries.Every`           : all values have a property
- `nodup_insert`, `nodup_erase`, `nodup_update` : keys stay different
- `update_nil`              : where keys are different, all entries are kept
- `keys_update_nil`, `get?_update` : the keys that are written, and the values that are written last
- `get?_eq_some_iff`        : the value under a key
- `get?_perm`, `perm_of_get?` : the order of entries makes no difference to what is found
- `filterMap`, `get?_filterMap` : entries that are left out
-/

namespace TabletopChat

namespace Entries

variable {α : Type} {p : α → Prop} {es : Entries α} {k l : Text} {v w : α}

/-! ## Values -/

def Every (p : α → Prop) (es : Entries α) : Prop := ∀ e ∈ es, p e.2

/-- A property of all values is kept when a value with it is put in. -/
theorem Every.insert (h : es.Every p) (k : Text) (hv : p v) : (Entries.insert k v es).Every p := by
  induction es with
  | nil =>
      exact List.forall_mem_singleton.2 hv
  | cons e es ih =>
      rcases List.forall_mem_cons.1 h with ⟨hhead, htail⟩
      unfold Entries.insert
      split
      · exact List.forall_mem_cons.2 ⟨hv, htail⟩
      · exact List.forall_mem_cons.2 ⟨hhead, ih htail⟩

/-- What holds of all values holds of one that is found. -/
theorem Every.get? (h : es.Every p) (hv : Entries.get? k es = some v) : p v := by
  induction es with
  | nil =>
      cases hv
  | cons e es ih =>
      rcases List.forall_mem_cons.1 h with ⟨hhead, htail⟩
      unfold Entries.get? at hv
      split at hv
      · cases hv
        exact hhead
      · exact ih htail hv

theorem erase_sublist (k : Text) (es : Entries α) : (Entries.erase k es).Sublist es := by
  induction es with
  | nil => exact .slnil
  | cons e es ih =>
      unfold Entries.erase
      split
      · exact List.sublist_cons_self e es
      · exact ih.cons_cons e

theorem Every.erase (h : es.Every p) (k : Text) : (Entries.erase k es).Every p :=
  fun e he => h e ((erase_sublist k es).subset he)

/-- And when many are put in. -/
theorem Every.update {new : Entries α} (h : es.Every p) (hnew : new.Every p) :
    (Entries.update es new).Every p := by
  induction new generalizing es with
  | nil => exact h
  | cons m ms ih =>
      rcases List.forall_mem_cons.1 hnew with ⟨hhead, htail⟩
      exact ih (h.insert m.1 hhead) htail

/-! ## Keys -/

/-- Writing adds the key, unless it is there. -/
theorem mem_keys_insert : l ∈ keys (Entries.insert k v es) ↔ l ∈ keys es ∨ l = k := by
  induction es with
  | nil => simp [Entries.insert, keys]
  | cons e es ih =>
      rcases e with ⟨m, w⟩
      simp only [keys] at ih
      by_cases hm : m = k
      · subst hm
        simp [Entries.insert, keys]
        tauto
      · simp [Entries.insert, keys, hm, ih, or_assoc]

/-- Putting a value in repeats no key. -/
theorem nodup_insert (h : (keys es).Nodup) : (keys (Entries.insert k v es)).Nodup := by
  induction es with
  | nil => exact List.nodup_singleton k
  | cons e es ih =>
      rcases e with ⟨m, w⟩
      rcases List.nodup_cons.1 h with ⟨hm, hes⟩
      by_cases hk : m = k
      · simpa [Entries.insert, keys, hk] using h
      · rw [Entries.insert, if_neg hk]
        refine List.nodup_cons.2 ⟨?_, ih hes⟩
        intro hmem
        exact (mem_keys_insert.1 hmem).elim hm hk

theorem nodup_erase (h : (keys es).Nodup) : (keys (Entries.erase k es)).Nodup :=
  h.sublist ((erase_sublist k es).map Prod.fst)

theorem nodup_update {new : Entries α} (h : (keys es).Nodup) :
    (keys (Entries.update es new)).Nodup := by
  induction new generalizing es with
  | nil => exact h
  | cons m ms ih => exact ih (nodup_insert h)

/-- A new key is written behind the others. -/
theorem insert_of_notMem (h : k ∉ keys es) : Entries.insert k v es = es ++ [(k, v)] := by
  induction es with
  | nil => rfl
  | cons e es ih =>
      simp only [keys, List.map_cons, List.mem_cons, not_or] at h
      rw [Entries.insert, if_neg (Ne.symm h.1), ih h.2, List.cons_append]

/-- New keys are added at the end. -/
theorem update_append {new : Entries α} (h : (keys (es ++ new)).Nodup) :
    Entries.update es new = es ++ new := by
  induction new generalizing es with
  | nil => simp [Entries.update]
  | cons m ms ih =>
      have hm : m.1 ∉ keys es := by
        intro hmem
        rw [keys, List.map_append, List.nodup_append] at h
        exact h.2.2 _ hmem _ (by simp) rfl
      have hsplit : es ++ m :: ms = es ++ [m] ++ ms := by simp
      rw [hsplit] at h ⊢
      rw [← ih h, ← insert_of_notMem hm]
      rfl

/-- Entries whose keys are different are all kept. -/
theorem update_nil (h : (keys es).Nodup) : Entries.update [] es = es := by
  have happend : Entries.update [] es = [] ++ es := update_append h
  exact happend

/-- Where keys are different, the value under a key is the one that stands with it. -/
theorem get?_eq_some_iff (h : (keys es).Nodup) : get? k es = some v ↔ (k, v) ∈ es := by
  induction es with
  | nil => simp
  | cons e es ih =>
      rcases e with ⟨m, w⟩
      rcases List.nodup_cons.1 h with ⟨hm, hes⟩
      by_cases hk : m = k
      · subst hk
        have hother : (m, v) ∉ es := fun hmem => hm (List.mem_map.2 ⟨_, hmem, rfl⟩)
        simp [get?, hother, eq_comm]
      · simp [get?, hk, ih hes, Ne.symm hk]

/-! ## What is found -/

/-- A lookup after one change, told by whether the key is the changed one. -/
theorem get?_insert (k l : Text) (v : α) (es : Entries α) :
    get? l (Entries.insert k v es) = if l = k then some v else get? l es := by
  split
  · rename_i h
    rw [h, get?_insert_self]
  · rename_i h
    exact get?_insert_of_ne v es (Ne.symm h)

/-- Erasing a key removes it and no other. -/
theorem get?_erase (h : (keys es).Nodup) (l : Text) :
    get? l (Entries.erase k es) = if l = k then none else get? l es := by
  induction es with
  | nil => simp [Entries.erase, get?]
  | cons e es ih =>
      rcases e with ⟨m, w⟩
      rcases List.nodup_cons.1 h with ⟨hm, hes⟩
      have hnone : get? m es = none := by
        cases hv : get? m es with
        | none => rfl
        | some v => exact absurd (mem_keys_of_get? hv) hm
      by_cases hk : m = k
      · subst hk
        by_cases hl : l = m
        · simp [Entries.erase, hl, hnone]
        · simp [Entries.erase, get?, hl, Ne.symm hl]
      · by_cases hl : m = l
        · subst hl
          simp [Entries.erase, get?, hk]
        · simp [Entries.erase, get?, hk, hl, ih hes]

/-- What is written twice counts once. -/
theorem insert_insert (k : Text) (v w : α) (es : Entries α) :
    Entries.insert k v (Entries.insert k w es) = Entries.insert k v es := by
  induction es with
  | nil => simp [Entries.insert]
  | cons e es ih =>
      rcases e with ⟨m, u⟩
      by_cases hm : m = k
      · simp [Entries.insert, hm]
      · simp [Entries.insert, hm, ih]

/-! ## Many values -/

theorem update_concat (es ms : Entries α) (m : Text × α) :
    Entries.update es (ms ++ [m]) = Entries.insert m.1 m.2 (Entries.update es ms) := by
  simp [Entries.update]

/-- A key that is there keeps its place. -/
theorem keys_insert_of_mem (h : k ∈ keys es) : keys (Entries.insert k v es) = keys es := by
  induction es with
  | nil => cases h
  | cons e es ih =>
      rcases e with ⟨m, w⟩
      by_cases hm : m = k
      · simp [Entries.insert, keys, hm]
      · have hes : k ∈ keys es := by simpa [keys, Ne.symm hm] using h
        simpa [Entries.insert, keys, hm] using ih hes

/-- Keys stand where they were first written. -/
theorem keys_update_nil (ms : Entries α) : keys (Entries.update [] ms) = (keys ms).eraseDups := by
  induction ms using List.reverseRecOn with
  | nil => rfl
  | append_singleton ms m ih =>
      have hdups : (keys (ms ++ [m])).eraseDups =
          (keys ms).eraseDups ++ ([m.1].removeAll (keys ms)).eraseDups := by
        rw [keys, List.map_append, List.eraseDups_append]
        rfl
      rw [update_concat, hdups]
      by_cases hm : m.1 ∈ keys ms
      · have hthere : m.1 ∈ keys (Entries.update [] ms) := by
          rwa [ih, List.mem_eraseDups]
        simp [keys_insert_of_mem hthere, ih, List.removeAll, hm]
      · have hnew : m.1 ∉ keys (Entries.update [] ms) := by
          rwa [ih, List.mem_eraseDups]
        rw [insert_of_notMem hnew, keys, List.map_append]
        simp only [keys] at ih hm
        simp [ih, List.removeAll, keys, hm, List.eraseDups_cons]

/-- Of the values that are written under a key, the last one stays. -/
theorem get?_update (k : Text) (es ms : Entries α) :
    get? k (Entries.update es ms) =
      ((ms.reverse.find? fun m => decide (m.1 = k)).map Prod.snd).or (get? k es) := by
  induction ms using List.reverseRecOn with
  | nil => rfl
  | append_singleton ms m ih =>
      rw [update_concat, get?_insert, ih, List.reverse_concat]
      by_cases hm : m.1 = k
      · simp [hm]
      · simp [hm, Ne.symm hm]

/-! ## Any order -/

/-- Changing the values changes what is found, and not where. -/
theorem get?_map {β : Type} (f : α → β) (k : Text) (es : Entries α) :
    get? k (es.map fun e => (e.1, f e.2)) = (get? k es).map f := by
  induction es with
  | nil => rfl
  | cons e es ih =>
      rcases e with ⟨m, u⟩
      by_cases hm : m = k
      · simp [get?, hm]
      · simpa [get?, hm] using ih

/-- Where keys are different, the same is found in any order. -/
theorem get?_perm {fs : Entries α} (h : es.Perm fs) (hkeys : (keys es).Nodup) (k : Text) :
    get? k es = get? k fs := by
  have hkeys' : (keys fs).Nodup := (h.map Prod.fst).nodup_iff.1 hkeys
  apply Option.ext
  intro v
  rw [get?_eq_some_iff hkeys, get?_eq_some_iff hkeys', h.mem_iff]

/-- Where keys are different and the same is found, only the order may differ. -/
theorem perm_of_get? {fs : Entries α} (hes : (keys es).Nodup) (hfs : (keys fs).Nodup)
    (h : ∀ k, get? k es = get? k fs) : es.Perm fs := by
  refine (List.perm_ext_iff_of_nodup (hes.of_map _) (hfs.of_map _)).2 fun e => ?_
  rw [← get?_eq_some_iff hes, ← get?_eq_some_iff hfs, h]

/-! ## Entries left out -/

/-- Entries with other values, without those for whose values there are none. -/
def filterMap {β : Type} (f : α → Option β) (es : Entries α) : Entries β :=
  List.filterMap (fun e => (f e.2).map fun v => (e.1, v)) es

/-- Filtering keeps the order of keys. -/
theorem keys_filterMap_sublist {β : Type} (f : α → Option β) (es : Entries α) :
    (keys (filterMap f es)).Sublist (keys es) := by
  induction es with
  | nil => exact List.Sublist.slnil
  | cons e es ih =>
      cases hf : f e.2 with
      | none =>
          simpa [filterMap, keys, hf] using ih.cons e.1
      | some v =>
          simpa [filterMap, keys, hf] using ih.cons_cons e.1

theorem nodup_filterMap {β : Type} (f : α → Option β) (h : (keys es).Nodup) :
    (keys (filterMap f es)).Nodup :=
  (keys_filterMap_sublist f es).nodup h

theorem get?_filterMap {β : Type} (f : α → Option β) (h : (keys es).Nodup) (k : Text) :
    get? k (filterMap f es) = (get? k es).bind f := by
  apply Option.ext
  intro v
  rw [get?_eq_some_iff (nodup_filterMap f h), Option.bind_eq_some_iff]
  simp [filterMap, get?_eq_some_iff h]

end Entries

end TabletopChat
