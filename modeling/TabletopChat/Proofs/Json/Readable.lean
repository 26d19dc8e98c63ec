import TabletopChat.Proofs.Entries
import TabletopChat.Proofs.Json.Grammar

/-!
# Proofs/Json/Readable — values that are read as they were written

What is read from a text can be written again, by both printers, and is read as the same value, but for
the order of members where they are sorted.

- `Readable`             : values that a text can hold
- `parse_readable`       : what is read is such a value
- `parse_render`         : on one line, the value is read again
- `parse_renderSorted`   : over several lines, the value with sorted members is read
-/

namespace TabletopChat

namespace Json

/-- A value that a text can hold: its integers are no longer than can be read, and the keys of an object
are different. -/
inductive Readable : Json → Prop
  | null : Readable .null
  | bool (b : Bool) : Readable (.bool b)
  | int (n : Int) : (Text.ofNat n.natAbs).length ≤ Text.maxNumeral → Readable (.int n)
  | float (x : Float) : Readable (.float x)
  | text (t : Text) : Readable (.text t)
  | list {vs : List Json} : (∀ v ∈ vs, Readable v) → Readable (.list vs)
  | object {ms : Entries Json} : (Entries.keys ms).Nodup → (∀ m ∈ ms, Readable m.2) →
      Readable (.object ms)

namespace Readable

variable {ms : Entries Json} {k : Text} {v : Json}

theorem empty : Readable (.object []) := .object List.nodup_nil (List.forall_mem_nil _)

theorem nodup_keys (h : Readable (.object ms)) : (Entries.keys ms).Nodup := by
  cases h with
  | object hkeys _ => exact hkeys

theorem get? (h : Readable (.object ms)) (hv : Entries.get? k ms = some v) : Readable v := by
  cases h with
  | object _ hms => exact Entries.Every.get? hms hv

theorem insert (h : Readable (.object ms)) (k : Text) (hv : Readable v) :
    Readable (.object (Entries.insert k v ms)) := by
  cases h with
  | object hkeys hms => exact .object (Entries.nodup_insert hkeys) (Entries.Every.insert hms k hv)

theorem erase (h : Readable (.object ms)) (k : Text) : Readable (.object (Entries.erase k ms)) := by
  cases h with
  | object hkeys hms => exact .object (Entries.nodup_erase hkeys) (Entries.Every.erase hms k)

end Readable

/-! ## What is read -/

theorem digit?_le {c : Char} {d : Nat} (h : Text.digit? c = some d) : d ≤ 9 := by
  unfold Text.digit? at h
  dsimp only at h
  split at h
  · split at h
    · rename_i hc
      cases h
      simp only [Char.isDigit, Bool.and_eq_true, decide_eq_true_eq, UInt32.le_iff_toNat_le] at hc
      have hhigh : c.toNat ≤ 57 := hc.2
      omega
    · cases h
  · rcases Option.map_eq_some_iff.1 h with ⟨z, hz, rfl⟩
    have hbound := List.find?_some hz
    simp only [Bool.and_eq_true, decide_eq_true_eq] at hbound
    omega

/-- A numeral of so many digits is less than this power of ten. -/
theorem foldl_lt {f : Nat → Char → Nat} (hf : ∀ n c, f n c ≤ 10 * n + 9) (t : Text) {n k : Nat}
    (hn : n < 10 ^ k) : t.foldl f n < 10 ^ (k + t.length) := by
  induction t generalizing n k with
  | nil => exact hn
  | cons c cs ih =>
    have hnext : f n c < 10 ^ (k + 1) := by
      have hstep := hf n c
      rw [pow_succ]
      omega
    have hlength : k + (c :: cs).length = k + 1 + cs.length := by
      simp only [List.length_cons]
      omega
    rw [List.foldl_cons, hlength]
    exact ih hnext

def digitStep (n : Nat) (c : Char) : Nat :=
  match Text.digit? c with
  | some d => 10 * n + d
  | none => n

theorem digitStep_le (n : Nat) (c : Char) : digitStep n c ≤ 10 * n + 9 := by
  unfold digitStep
  split
  · rename_i d hd
    have hle := digit?_le hd
    omega
  · omega

theorem digitsValue_lt (t : Text) : Text.digitsValue t < 10 ^ t.length := by
  have hall := foldl_lt digitStep_le t (n := 0) (k := 0) (by decide)
  rwa [Nat.zero_add] at hall

/-- A number with few digits is written with few digits. -/
theorem length_ofNat_digitsValue {t : Text} (hne : t ≠ []) :
    (Text.ofNat (Text.digitsValue t)).length ≤ t.length :=
  Text.length_ofNat_le (List.length_pos_iff.2 hne) (digitsValue_lt t)

/-- A number that is read can be written again. -/
theorem readNumber_readable {start t rest : Text} {neg : Bool} {v : Json}
    (h : readNumber start neg t = .ok (v, rest)) : Readable v := by
  unfold readNumber at h
  split at h
  split at h
  · cases h
  · rename_i hwhole
    dsimp only at h
    split at h
    · split at h
      · cases h
      · rename_i hlength
        cases h
        refine .int _ ?_
        rw [Decimal.natAbs_signed]
        exact Nat.le_trans (length_ofNat_digitsValue hwhole) (Nat.le_of_not_lt hlength)
    · cases h
      exact .float _

/-- A word stands for a value that can be read again. -/
theorem readWord?_readable {t rest : Text} {v : Json} (h : readWord? t = some (v, rest)) :
    Readable v := by
  rcases List.exists_of_findSome?_eq_some h with ⟨⟨word, value⟩, hmem, hword⟩
  rcases Option.map_eq_some_iff.1 hword with ⟨u, -, hu⟩
  cases hu
  simp only [List.mem_cons, Prod.mk.injEq, List.not_mem_nil, or_false] at hmem
  rcases hmem with ⟨-, rfl⟩ | ⟨-, rfl⟩ | ⟨-, rfl⟩ | ⟨-, rfl⟩ | ⟨-, rfl⟩ | ⟨-, rfl⟩
  · exact .null
  · exact .bool true
  · exact .bool false
  · exact .float _
  · exact .float _
  · exact .float _

theorem exists_of_bind {ε α β : Type} {x : Except ε α} {f : α → Except ε β} {y : β}
    (h : (x >>= f) = .ok y) : ∃ a, x = .ok a ∧ f a = .ok y := by
  cases x with
  | ok a => exact ⟨a, rfl, h⟩
  | error e => cases h

structure GivesReadable (n : Nat) : Prop where
  value {t v rest} : readValue n t = .ok (v, rest) → Readable v
  items {t vs rest} : readItems n t = .ok (vs, rest) → ∀ v ∈ vs, Readable v
  members {t ms rest} : readMembers n t = .ok (ms, rest) → Entries.Every Readable ms

namespace GivesReadable

variable {n : Nat} (ih : GivesReadable n)

include ih

/-- A value that is read can be written again if what is inside of it can. -/
theorem value_succ {t rest : Text} {v : Json} (h : readValue (n + 1) t = .ok (v, rest)) :
    Readable v := by
  unfold readValue at h
  split at h
  · rcases exists_of_bind h with ⟨⟨s, u⟩, -, h⟩
    cases h
    exact .text s
  · split at h
    · cases h
      exact .list (List.forall_mem_nil _)
    · rcases exists_of_bind h with ⟨⟨vs, u⟩, hvs, h⟩
      cases h
      exact .list (ih.items hvs)
  · split at h
    · cases h
      exact .object List.nodup_nil (List.forall_mem_nil _)
    · rcases exists_of_bind h with ⟨⟨ms, u⟩, hms, h⟩
      cases h
      -- what is written twice counts once
      have hempty : Entries.Every Readable [] := List.forall_mem_nil _
      exact .object (Entries.nodup_update List.nodup_nil) (hempty.update (ih.members hms))
  · split at h
    · cases h
      exact readWord?_readable ‹_›
    · split at h
      · exact readNumber_readable h
      · exact readNumber_readable h

/-- Items are readable, if the values in them are. -/
theorem items_succ {t rest : Text} {vs : List Json} (h : readItems (n + 1) t = .ok (vs, rest)) :
    ∀ v ∈ vs, Readable v := by
  unfold readItems at h
  rcases exists_of_bind h with ⟨⟨v, u⟩, hv, h⟩
  dsimp only at h
  split at h
  · cases h
    exact List.forall_mem_singleton.2 (ih.value hv)
  · rcases exists_of_bind h with ⟨⟨ws, u'⟩, hws, h⟩
    cases h
    exact List.forall_mem_cons.2 ⟨ih.value hv, ih.items hws⟩
  · cases h

/-- And so are members. -/
theorem members_succ {t rest : Text} {ms : List (Text × Json)}
    (h : readMembers (n + 1) t = .ok (ms, rest)) : Entries.Every Readable ms := by
  unfold readMembers at h
  split at h
  · rcases exists_of_bind h with ⟨⟨key, u⟩, -, h⟩
    dsimp only at h
    split at h
    · rcases exists_of_bind h with ⟨⟨v, u'⟩, hv, h⟩
      dsimp only at h
      split at h
      · cases h
        exact List.forall_mem_singleton.2 (ih.value hv)
      · rcases exists_of_bind h with ⟨⟨ns, u''⟩, hns, h⟩
        cases h
        exact List.forall_mem_cons.2 ⟨ih.value hv, ih.members hns⟩
      · cases h
    · cases h
  · cases h

end GivesReadable

theorem givesReadable (n : Nat) : GivesReadable n := by
  induction n with
  | zero => exact ⟨nofun, nofun, nofun⟩
  | succ n ih => exact ⟨ih.value_succ, ih.items_succ, ih.members_succ⟩

/-- What is read can be written and read again. -/
theorem parse_readable {t : Text} {v : Json} (h : parse t = .ok v) : Readable v := by
  unfold parse at h
  split at h
  · cases h
  · rcases exists_of_bind h with ⟨⟨w, rest⟩, hw, h⟩
    dsimp only at h
    split at h
    · cases h
      exact (givesReadable _).value hw
    · cases h

/-! ## One line -/

theorem gap_nil : Gap [] := List.forall_mem_nil _

theorem gap_space : Gap [' '] := List.forall_mem_singleton.2 (.inl rfl)

/-- Items with commas between them are the items of a list. -/
theorem writesItems_render {vs : List Json} (hne : vs ≠ []) (h : ∀ v ∈ vs, Writes v (render v)) :
    WritesItems vs (renderItems vs ++ [']']) := by
  induction vs with
  | nil => exact absurd rfl hne
  | cons v vs ih =>
    rcases List.forall_mem_cons.1 h with ⟨hv, hvs⟩
    cases vs with
    | nil => exact .last hv gap_nil
    | cons w ws =>
      have hrest := ih (List.cons_ne_nil w ws) hvs
      have hcomma : ", ".toList = [',', ' '] := rfl
      simpa [renderItems, hcomma] using WritesItems.cons hv gap_space hrest

/-- Members with commas between them are the members of an object. -/
theorem writesMembers_render {ms : Entries Json} (hne : ms ≠ [])
    (h : ∀ m ∈ ms, Writes m.2 (render m.2)) : WritesMembers ms (renderMembers ms ++ ['}']) := by
  induction ms with
  | nil => exact absurd rfl hne
  | cons m ms ih =>
    rcases m with ⟨k, v⟩
    rcases List.forall_mem_cons.1 h with ⟨hv, hms⟩
    have hcolon : ": ".toList = [':', ' '] := rfl
    cases ms with
    | nil => simpa [renderMembers, hcolon] using WritesMembers.last (k := k) hv gap_nil
    | cons m' ms =>
      have hrest := ih (List.cons_ne_nil m' ms) hms
      have hcomma : ", ".toList = [',', ' '] := rfl
      simpa [renderMembers, hcolon, hcomma] using WritesMembers.cons (k := k) hv gap_space hrest

/-- A readable value is written as a text for it. -/
theorem writes_render {v : Json} (h : Readable v) : Writes v (render v) := by
  induction h with
  | null => exact .null
  | bool b => exact .bool b
  | int n hn => exact .int n hn
  | float x => exact .float x
  | text t => exact .text t
  | @list vs _ ih =>
    cases vs with
    | nil => exact .nil
    | cons v vs =>
      have hitems := writesItems_render (List.cons_ne_nil v vs) ih
      simpa [render] using Writes.list gap_nil hitems
  | @object ms hkeys _ ih =>
    cases ms with
    | nil => exact .empty
    | cons m ms =>
      have hmembers := writesMembers_render (List.cons_ne_nil m ms) ih
      simpa [render] using Writes.object hkeys gap_nil hmembers

/-- What is written on one line is read as the value that was written. -/
theorem parse_render {v : Json} (h : Readable v) : parse (render v) = .ok v :=
  parse_writes (writes_render h)

/-! ## Sorted members -/

/-- Puts a member where it belongs among members that are sorted by key. -/
def placeEntry (m : Text × Json) : Entries Json → Entries Json
  | [] => [m]
  | n :: ns => if keyLe m.1 n.1 then m :: n :: ns else n :: placeEntry m ns

def sortEntries (ms : Entries Json) : Entries Json := ms.foldr placeEntry []

mutual

def sorted : Json → Json
  | .list vs => .list (sortedItems vs)
  | .object ms => .object (sortEntries (sortedMembers ms))
  | v => v

def sortedItems : List Json → List Json
  | [] => []
  | v :: vs => sorted v :: sortedItems vs

/-- Members with the members of all their objects sorted; they stay in their own order. -/
def sortedMembers : List (Text × Json) → List (Text × Json)
  | [] => []
  | (k, v) :: ms => (k, sorted v) :: sortedMembers ms

end

theorem sortedMembers_eq (ms : Entries Json) :
    sortedMembers ms = ms.map fun m => (m.1, sorted m.2) := by
  induction ms with
  | nil => rfl
  | cons m ms ih => simp [sortedMembers, ih]

theorem keys_sortedMembers (ms : Entries Json) :
    Entries.keys (sortedMembers ms) = Entries.keys ms := by
  simp [sortedMembers_eq, Entries.keys]

/-- Placing a member changes the order only. -/
theorem placeEntry_perm (m : Text × Json) (ms : Entries Json) : (placeEntry m ms).Perm (m :: ms) := by
  induction ms with
  | nil => exact .refl _
  | cons n ns ih =>
    unfold placeEntry
    split
    · exact .refl _
    · exact (ih.cons n).trans (.swap m n ns)

theorem sortEntries_perm (ms : Entries Json) : (sortEntries ms).Perm ms := by
  induction ms with
  | nil => exact .refl _
  | cons m ms ih => exact (placeEntry_perm m _).trans (ih.cons m)

theorem nodup_sortEntries {ms : Entries Json} (h : (Entries.keys ms).Nodup) :
    (Entries.keys (sortEntries (sortedMembers ms))).Nodup := by
  have hperm := (sortEntries_perm (sortedMembers ms)).map Prod.fst
  have hkeys : (Entries.keys (sortedMembers ms)).Nodup := by rwa [keys_sortedMembers]
  exact hperm.nodup_iff.2 hkeys

/-! ## Several lines -/

def MemberText (m : Text × Json) (n : Text × Text) : Prop := m.1 = n.1 ∧ Writes m.2 n.2

/-- The texts of members are sorted as the members are. -/
theorem placed {m : Text × Json} {n : Text × Text} (h : MemberText m n) {ms : Entries Json}
    {ns : List (Text × Text)} (hs : List.Forall₂ MemberText ms ns) :
    List.Forall₂ MemberText (placeEntry m ms) (placeMember n ns) := by
  induction hs with
  | nil => exact .cons h .nil
  | @cons m' n' ms ns h' hs ih =>
    unfold placeEntry placeMember
    rw [h.1, h'.1]
    split
    · exact .cons h (.cons h' hs)
    · exact .cons h' ih

theorem sortedTexts {ms : Entries Json} {ns : List (Text × Text)}
    (hs : List.Forall₂ MemberText ms ns) :
    List.Forall₂ MemberText (sortEntries ms) (sortMembers ns) := by
  induction hs with
  | nil => exact .nil
  | cons h _ ih => exact placed h ih

theorem gap_newLine (depth : Nat) : Gap (newLine depth) := by
  intro c hc
  rcases List.mem_cons.1 hc with rfl | hc
  · exact .inr rfl
  · exact .inl (List.eq_of_mem_replicate hc)

/-- Items on lines of their own are the items of a list. -/
theorem writesItems_lines (depth depth' : Nat) {vs : List Json} {ts : List Text} (hne : vs ≠ [])
    (h : List.Forall₂ Writes vs ts) :
    WritesItems vs (Text.joinWith (',' :: newLine depth) ts ++ newLine depth' ++ [']']) := by
  induction h with
  | nil => exact absurd rfl hne
  | @cons v t vs ts hv hvs ih =>
    cases hvs with
    | nil => simpa [Text.joinWith] using WritesItems.last hv (gap_newLine depth')
    | cons hw hws =>
      have hrest := ih (List.cons_ne_nil _ _)
      simpa [Text.joinWith] using WritesItems.cons hv (gap_newLine depth) hrest

def memberLine (m : Text × Text) : Text := renderText m.1 ++ (": ".toList ++ m.2)

/-- Members on lines of their own are the members of an object. -/
theorem writesMembers_lines (depth depth' : Nat) {ms : Entries Json} {ns : List (Text × Text)}
    (hne : ms ≠ []) (h : List.Forall₂ MemberText ms ns) :
    WritesMembers ms
      (Text.joinWith (',' :: newLine depth) (ns.map memberLine) ++ newLine depth' ++ ['}']) := by
  have hcolon : ": ".toList = [':', ' '] := rfl
  induction h with
  | nil => exact absurd rfl hne
  | @cons m n ms ns hm hms ih =>
    rcases m with ⟨k, v⟩
    rcases n with ⟨l, t⟩
    rcases hm with ⟨hkey, hv⟩
    dsimp only at hkey hv
    subst hkey
    cases hms with
    | nil =>
      simpa [Text.joinWith, memberLine, hcolon] using
        WritesMembers.last (k := k) hv (gap_newLine depth')
    | cons hm' hms' =>
      have hrest := ih (List.cons_ne_nil _ _)
      simpa [Text.joinWith, memberLine, hcolon] using
        WritesMembers.cons (k := k) hv (gap_newLine depth) hrest

/-- The lines of sorted items write them. -/
theorem renderSortedItems_writes (depth : Nat) {vs : List Json}
    (h : ∀ v ∈ vs, ∀ depth, Writes (sorted v) (renderSortedAt depth v)) :
    List.Forall₂ Writes (sortedItems vs) (renderSortedItems depth vs) := by
  induction vs with
  | nil => exact .nil
  | cons v vs ih =>
    rcases List.forall_mem_cons.1 h with ⟨hv, hvs⟩
    exact .cons (hv depth) (ih hvs)

/-- Members are written in the order of their keys. -/
theorem renderSortedMembers_writes (depth : Nat) {ms : Entries Json}
    (h : ∀ m ∈ ms, ∀ depth, Writes (sorted m.2) (renderSortedAt depth m.2)) :
    List.Forall₂ MemberText (sortedMembers ms) (renderSortedMembers depth ms) := by
  induction ms with
  | nil => exact .nil
  | cons m ms ih =>
    rcases List.forall_mem_cons.1 h with ⟨hm, hms⟩
    exact .cons ⟨rfl, hm depth⟩ (ih hms)

theorem renderSortedAt_object (depth : Nat) (m : Text × Json) (ms : Entries Json) :
    renderSortedAt depth (.object (m :: ms)) =
      '{' :: (newLine (depth + 1) ++
        (Text.joinWith (',' :: newLine (depth + 1))
          ((sortMembers (renderSortedMembers (depth + 1) (m :: ms))).map memberLine) ++
          newLine depth ++ ['}'])) := by
  rw [renderSortedAt]
  simp only [List.append_assoc, List.cons_append]
  rfl

/-- A readable value is written over several lines as a text for the value with sorted members. -/
theorem writes_renderSortedAt {v : Json} (h : Readable v) (depth : Nat) :
    Writes (sorted v) (renderSortedAt depth v) := by
  induction h generalizing depth with
  | null => exact .null
  | bool b => exact .bool b
  | int n hn => exact .int n hn
  | float x => exact .float x
  | text t => exact .text t
  | @list vs _ ih =>
    cases vs with
    | nil => exact .nil
    | cons v vs =>
      have hitems := renderSortedItems_writes (depth + 1) fun v hv depth => ih v hv depth
      have hlines := writesItems_lines (depth + 1) depth (List.cons_ne_nil _ _) hitems
      simpa [sorted, sortedItems, renderSortedAt] using Writes.list (gap_newLine (depth + 1)) hlines
  | @object ms hkeys _ ih =>
    cases ms with
    | nil => exact .empty
    | cons m ms =>
      have hmembers := renderSortedMembers_writes (depth + 1) fun m hm depth => ih m hm depth
      -- sorting loses no member, so there is one to write
      have hne : sortEntries (sortedMembers (m :: ms)) ≠ [] := by
        intro hnil
        have hperm := sortEntries_perm (sortedMembers (m :: ms))
        rw [hnil] at hperm
        cases hperm.nil_eq
      have hlines := writesMembers_lines (depth + 1) depth hne (sortedTexts hmembers)
      rw [renderSortedAt_object, sorted]
      exact .object (nodup_sortEntries hkeys) (gap_newLine (depth + 1)) hlines

theorem writes_renderSorted {v : Json} (h : Readable v) : Writes (sorted v) (renderSorted v) :=
  writes_renderSortedAt h 0

/-- What is written over several lines is read as the value with sorted members. -/
theorem parse_renderSorted {v : Json} (h : Readable v) : parse (renderSorted v) = .ok (sorted v) :=
  parse_writes (writes_renderSorted h)

end Json

end TabletopChat
