import TabletopChat.Proofs.Json.Readable

/-!
# Proofs/Json/Sorted — the order of members makes no difference

Sorting gives the members of an object an order that depends on nothing but the members. So objects in
which the same is found become one value when they are sorted, and are written alike over several lines.

- `Ascending`            : members in the order of their keys
- `sortEntries_perm_eq`  : the same members are sorted into the same order
- `get?_sortedEntries`   : what is found in a sorted object
- `sortedEntries_eq`     : objects in which the same is found become one object
- `sorted_sorted`        : what is sorted stays as it is
- `renderSorted_congr`   : values that become one when they are sorted are written alike
-/

namespace TabletopChat

namespace Json

/-! ## The order of keys -/

/-- Keys are in a total order. -/
theorem keyLe_total (a b : Text) : keyLe a b = true ∨ keyLe b a = true := by
  induction a generalizing b with
  | nil => exact .inl rfl
  | cons c cs ih =>
    cases b with
    | nil => exact .inr rfl
    | cons d ds =>
      rcases Nat.lt_trichotomy c.toNat d.toNat with hlt | heq | hgt
      · exact .inl (by simp [keyLe, hlt])
      · simpa [keyLe, heq] using ih ds
      · exact .inr (by simp [keyLe, hgt])

/-- What keys say that begin with the characters `c` and `d`. -/
theorem keyLe_cons {c d : Char} {cs ds : Text} :
    keyLe (c :: cs) (d :: ds) = true ↔
      c.toNat < d.toNat ∨ c.toNat = d.toNat ∧ keyLe cs ds = true := by
  rcases Nat.lt_trichotomy c.toNat d.toNat with hlt | heq | hgt
  · simp [keyLe, hlt]
  · simp [keyLe, heq]
  · simp [keyLe, hgt, hgt.ne']

/-- The order of keys is transitive. -/
theorem keyLe_trans {a b c : Text} (hab : keyLe a b = true) (hbc : keyLe b c = true) :
    keyLe a c = true := by
  induction a generalizing b c with
  | nil => rfl
  | cons x xs ih =>
    cases b with
    | nil => cases hab
    | cons y ys =>
      cases c with
      | nil => cases hbc
      | cons z zs =>
        rw [keyLe_cons] at hab hbc ⊢
        rcases hab with hxy | ⟨hxy, hys⟩
        · exact .inl (by omega)
        · rcases hbc with hyz | ⟨hyz, hzs⟩
          · exact .inl (by omega)
          · exact .inr ⟨hxy.trans hyz, ih hys hzs⟩

/-- Keys that come before each other are the same. -/
theorem keyLe_antisymm {a b : Text} (hab : keyLe a b = true) (hba : keyLe b a = true) : a = b := by
  induction a generalizing b with
  | nil =>
    cases b with
    | nil => rfl
    | cons d ds => cases hba
  | cons c cs ih =>
    cases b with
    | nil => cases hab
    | cons d ds =>
      rw [keyLe_cons] at hab hba
      have hhead : c.toNat = d.toNat := by omega
      have htail : cs = ds := ih (hab.resolve_left (by omega)).2 (hba.resolve_left (by omega)).2
      rw [Char.toNat_inj.1 hhead, htail]

/-! ## Sorted members -/

def Ascending (ms : Entries Json) : Prop := ms.Pairwise fun m n => keyLe m.1 n.1 = true

/-- A member is placed so that the keys ascend. -/
theorem Ascending.placeEntry {ms : Entries Json} (h : Ascending ms) (m : Text × Json) :
    Ascending (placeEntry m ms) := by
  induction ms with
  | nil => exact List.pairwise_singleton _ _
  | cons n ns ih =>
    rcases List.pairwise_cons.1 h with ⟨hn, hns⟩
    unfold Json.placeEntry
    split
    · rename_i hle
      refine List.pairwise_cons.2 ⟨fun k hk => ?_, h⟩
      rcases List.mem_cons.1 hk with rfl | hk
      · exact hle
      · exact keyLe_trans hle (hn k hk)
    · rename_i hnot
      have hle : keyLe n.1 m.1 = true := (keyLe_total n.1 m.1).resolve_right hnot
      refine List.pairwise_cons.2 ⟨fun k hk => ?_, ih hns⟩
      rcases List.mem_cons.1 ((placeEntry_perm m ns).mem_iff.1 hk) with rfl | hk
      · exact hle
      · exact hn k hk

theorem ascending_sortEntries (ms : Entries Json) : Ascending (sortEntries ms) := by
  induction ms with
  | nil => exact .nil
  | cons m ms ih => exact ih.placeEntry m

/-- Where keys are different, the same members are sorted into the same order. -/
theorem sortEntries_perm_eq {ms ns : Entries Json} (h : ms.Perm ns) (hkeys : (Entries.keys ms).Nodup) :
    sortEntries ms = sortEntries ns := by
  have hperm : (sortEntries ms).Perm (sortEntries ns) :=
    (sortEntries_perm ms).trans (h.trans (sortEntries_perm ns).symm)
  have hsorted : (Entries.keys (sortEntries ms)).Nodup :=
    ((sortEntries_perm ms).map Prod.fst).nodup_iff.2 hkeys
  refine hperm.eq_of_pairwise ?_ (ascending_sortEntries ms) (ascending_sortEntries ns)
  intro m n hm hn hmn hnm
  -- both have one key, and with it there stands one value
  exact List.inj_on_of_nodup_map hsorted hm (hperm.mem_iff.2 hn) (keyLe_antisymm hmn hnm)

/-! ## Sorted objects -/

abbrev sortedEntries (ms : Entries Json) : Entries Json := sortEntries (sortedMembers ms)

/-- In a sorted object the sorted values are found under their keys. -/
theorem get?_sortedEntries {ms : Entries Json} (h : (Entries.keys ms).Nodup) (k : Text) :
    Entries.get? k (sortedEntries ms) = (Entries.get? k ms).map sorted := by
  rw [Entries.get?_perm (sortEntries_perm _) (nodup_sortEntries h), sortedMembers_eq, Entries.get?_map]

/-- Objects in which the same values are found up to the order of their members become one object. -/
theorem sortedEntries_eq {ms ns : Entries Json} (hms : (Entries.keys ms).Nodup)
    (hns : (Entries.keys ns).Nodup)
    (h : ∀ k, (Entries.get? k ms).map sorted = (Entries.get? k ns).map sorted) :
    sortedEntries ms = sortedEntries ns := by
  have hms' : (Entries.keys (sortedMembers ms)).Nodup := by rwa [keys_sortedMembers]
  have hns' : (Entries.keys (sortedMembers ns)).Nodup := by rwa [keys_sortedMembers]
  have hfound (k : Text) : Entries.get? k (sortedMembers ms) = Entries.get? k (sortedMembers ns) := by
    simp only [sortedMembers_eq, Entries.get?_map, h k]
  exact sortEntries_perm_eq (Entries.perm_of_get? hms' hns' hfound) hms'

theorem sortedItems_eq (vs : List Json) : sortedItems vs = vs.map sorted := by
  induction vs with
  | nil => rfl
  | cons v vs ih => simp [sortedItems, ih]

/-- What is sorted stays as it is. -/
theorem sorted_sorted {v : Json} (h : Readable v) : sorted (sorted v) = sorted v := by
  induction h with
  | null => rfl
  | bool b => rfl
  | int n _ => rfl
  | float x => rfl
  | text t => rfl
  | @list vs _ ih =>
    simp only [sorted, sortedItems_eq, List.map_map, Json.list.injEq]
    exact List.map_congr_left ih
  | @object ms hkeys hms ih =>
    have hall : Entries.Every (fun v => sorted (sorted v) = sorted v) ms := ih
    have hfound (k : Text) : (Entries.get? k (sortedEntries ms)).map sorted =
        (Entries.get? k ms).map sorted := by
      rw [get?_sortedEntries hkeys, Option.map_map]
      exact Option.map_congr fun v hv => hall.get? hv
    exact congrArg Json.object (sortedEntries_eq (nodup_sortEntries hkeys) hkeys hfound)

/-! ## Sorted texts -/

theorem renderSortedItems_eq (depth : Nat) (vs : List Json) :
    renderSortedItems depth vs = vs.map (renderSortedAt depth) := by
  induction vs with
  | nil => rfl
  | cons v vs ih => simp [renderSortedItems, ih]

def memberText (depth : Nat) (m : Text × Json) : Text × Text := (m.1, renderSortedAt depth m.2)

theorem renderSortedMembers_eq (depth : Nat) (ms : Entries Json) :
    renderSortedMembers depth ms = ms.map (memberText depth) := by
  induction ms with
  | nil => rfl
  | cons m ms ih => simp [renderSortedMembers, memberText, ih]

/-- Placing a line is placing its member. -/
theorem placeMember_memberText (depth : Nat) (m : Text × Json) (ms : Entries Json) :
    placeMember (memberText depth m) (ms.map (memberText depth)) =
      (placeEntry m ms).map (memberText depth) := by
  induction ms with
  | nil => rfl
  | cons n ns ih =>
    have hkeys : keyLe (memberText depth m).1 (memberText depth n).1 = keyLe m.1 n.1 := rfl
    simp only [List.map_cons, placeMember, placeEntry, hkeys]
    split
    · rfl
    · rw [ih, List.map_cons]

/-- Texts of members are sorted as the members are. -/
theorem sortMembers_memberText (depth : Nat) (ms : Entries Json) :
    sortMembers (ms.map (memberText depth)) = (sortEntries ms).map (memberText depth) := by
  induction ms with
  | nil => rfl
  | cons m ms ih =>
    have hstep : sortMembers ((m :: ms).map (memberText depth)) =
        placeMember (memberText depth m) (sortMembers (ms.map (memberText depth))) := rfl
    rw [hstep, ih, placeMember_memberText]
    rfl

/-- The text of an object with members depends on the sorted members. -/
theorem renderSortedAt_members (depth : Nat) {ms : Entries Json} (hne : ms ≠ []) :
    renderSortedAt depth (.object ms) =
      '{' :: (newLine (depth + 1) ++
        (Text.joinWith (',' :: newLine (depth + 1))
          (((sortEntries ms).map (memberText (depth + 1))).map memberLine) ++
          newLine depth ++ ['}'])) := by
  cases ms with
  | nil => exact absurd rfl hne
  | cons m ms => rw [renderSortedAt_object, renderSortedMembers_eq, sortMembers_memberText]

/-- Sorting leaves something of what is not empty. -/
theorem sortedEntries_ne_nil {ms : Entries Json} (h : ms ≠ []) : sortedEntries ms ≠ [] := by
  intro hnil
  have hperm := sortEntries_perm (sortedMembers ms)
  rw [show sortEntries (sortedMembers ms) = [] from hnil] at hperm
  have hempty : sortedMembers ms = [] := hperm.nil_eq.symm
  rw [sortedMembers_eq, List.map_eq_nil_iff] at hempty
  exact h hempty

/-- A value is written over several lines like the value with sorted members. -/
theorem renderSortedAt_sorted {v : Json} (h : Readable v) (depth : Nat) :
    renderSortedAt depth (sorted v) = renderSortedAt depth v := by
  induction h generalizing depth with
  | null => rfl
  | bool b => rfl
  | int n _ => rfl
  | float x => rfl
  | text t => rfl
  | @list vs _ ih =>
    cases vs with
    | nil => rfl
    | cons v vs =>
      have hitems : renderSortedItems (depth + 1) (sortedItems (v :: vs)) =
          renderSortedItems (depth + 1) (v :: vs) := by
        rw [sortedItems_eq, renderSortedItems_eq, renderSortedItems_eq, List.map_map]
        exact List.map_congr_left fun w hw => ih w hw (depth + 1)
      simp only [sortedItems] at hitems
      simp only [sorted, sortedItems, renderSortedAt, hitems]
  | @object ms hkeys _ ih =>
    by_cases hne : ms = []
    · subst hne
      rfl
    · have hsorted : sorted (.object ms) = .object (sortedEntries ms) := rfl
      -- sorting twice gives the same order, in which every member has the same text
      have htexts : (sortEntries (sortedEntries ms)).map (memberText (depth + 1)) =
          (sortEntries ms).map (memberText (depth + 1)) := by
        have hmembers : (sortedMembers ms).map (memberText (depth + 1)) =
            ms.map (memberText (depth + 1)) := by
          rw [sortedMembers_eq, List.map_map]
          exact List.map_congr_left fun m hm => congrArg (Prod.mk m.1) (ih m hm (depth + 1))
        have htwice : sortEntries (sortedEntries ms) = sortedEntries ms :=
          sortEntries_perm_eq (sortEntries_perm _) (nodup_sortEntries hkeys)
        rw [htwice, ← sortMembers_memberText, hmembers, sortMembers_memberText]
      rw [hsorted, renderSortedAt_members depth (sortedEntries_ne_nil hne),
        renderSortedAt_members depth hne, htexts]

/-- Values that become one when they are sorted are written alike. -/
theorem renderSorted_congr {v w : Json} (hv : Readable v) (hw : Readable w) (h : sorted v = sorted w) :
    renderSorted v = renderSorted w := by
  rw [renderSorted, renderSorted, ← renderSortedAt_sorted hv, h, renderSortedAt_sorted hw]

end Json

end TabletopChat
