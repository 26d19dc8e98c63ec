import TabletopChat.Proofs.Json.Sorted
import TabletopChat.Proofs.Prompt.Steps

/-!
# Proofs/Store/Saved — what is remembered is found again

A setting that was written to a store is found under its key, in a file as well as in memory; and
nothing is said about the store any more. So the choices that are saved are the choices that are loaded
next.

- `SettingsFile.value?_set` : what is found in a file that was written
- `Store.get?_of_set?`   : a setting that was written
- `Memory.Readable`      : choices that can be written and read
- `Memory.load_of_save?` : choices that were saved
-/

namespace TabletopChat

/-! ## Files -/

namespace SettingsFile

open Json

/-! ### What is found -/

def value? (section_ key : Text) (f : SettingsFile) : Option Json :=
  Entries.get? key (settings section_ f.members)

def shown : Json → Option Text
  | .null => none
  | v => some v.toText

/-- A setting is the text at its place, if there is one. -/
theorem get?_eq (section_ key : Text) (f : SettingsFile) :
    f.get? section_ key = (f.value? section_ key).bind shown := by
  unfold get? value? settings
  split
  · rename_i settings_ _
    cases Entries.get? key settings_ with
    | none => rfl
    | some v => cases v <;> rfl
  · rfl

/-- The members of a file can be written and read. -/
theorem members_readable (f : SettingsFile) : Readable (.object f.members) := by
  unfold members read
  split
  · rename_i ms hread
    split at hread
    · cases hread
      exact .empty
    · cases hread
    · dsimp only at hread
      split at hread
      · rename_i hparse
        cases hread
        exact parse_readable hparse
      · cases hread
        exact .empty
      · cases hread
  · exact .empty

theorem settings_readable (section_ : Text) {ms : Entries Json} (h : Readable (.object ms)) :
    Readable (.object (settings section_ ms)) := by
  unfold settings
  split
  · exact h.get? ‹_›
  · exact .empty

/-- Sorting the members of a file keeps the values, up to the order of their members. -/
theorem get?_settings_sorted {ms : Entries Json} (h : Readable (.object ms)) (section_ key : Text) :
    Entries.get? key (settings section_ (sortedEntries ms)) =
      (Entries.get? key (settings section_ ms)).map sorted := by
  have hfound := get?_sortedEntries h.nodup_keys section_
  unfold settings
  rw [hfound]
  cases hv : Entries.get? section_ ms with
  | none => rfl
  | some v =>
    have hreadable := h.get? hv
    cases hreadable with
    | object hinner _ => exact get?_sortedEntries hinner key
    | _ => rfl

/-! ### What is written -/

section Written

variable (section_ key value : Text) (f : SettingsFile)

def writtenSettings : Entries Json := Entries.insert key (.text value) (settings section_ f.members)

def writtenMembers : Entries Json :=
  Entries.insert section_ (.object (writtenSettings section_ key value f)) f.members

theorem writtenSettings_readable : Readable (.object (writtenSettings section_ key value f)) :=
  (settings_readable section_ f.members_readable).insert key (.text value)

theorem writtenMembers_readable : Readable (.object (writtenMembers section_ key value f)) :=
  f.members_readable.insert section_ (writtenSettings_readable section_ key value f)

/-- A file that was written is read without complaint. -/
theorem read_set : (f.set section_ key value).read =
    .ok (sortEntries (sortedMembers (writtenMembers section_ key value f))) := by
  have hreadable := writtenMembers_readable section_ key value f
  have hends := Text.unifyLineEnds_eq (writes_renderSorted hreadable).noReturn
  have hparse := parse_renderSorted hreadable
  have hcontent : (f.set section_ key value).content =
      some (.text (renderSorted (.object (writtenMembers section_ key value f)))) := rfl
  unfold read
  rw [hcontent]
  dsimp only
  rw [hends, hparse]
  rfl

theorem members_set :
    (f.set section_ key value).members = sortedEntries (writtenMembers section_ key value f) := by
  rw [members, read_set]

/-- Writing a setting changes its section alone. -/
theorem settings_writtenMembers (section_' : Text) :
    settings section_' (writtenMembers section_ key value f) =
      if section_' = section_ then writtenSettings section_ key value f
      else settings section_' f.members := by
  have hfound := Entries.get?_insert section_ section_' (.object (writtenSettings section_ key value f))
    f.members
  by_cases h : section_' = section_
  · rw [if_pos h] at hfound ⊢
    rw [settings, writtenMembers, hfound]
  · rw [if_neg h] at hfound ⊢
    rw [settings, writtenMembers, hfound]
    rfl

/-- In a file that was written, the new setting is found, and every other value as it was but for the
order of its members. -/
theorem value?_set (section_' key' : Text) :
    (f.set section_ key value).value? section_' key' =
      if section_' = section_ ∧ key' = key then some (.text value)
      else (f.value? section_' key').map sorted := by
  rw [value?, members_set, get?_settings_sorted (writtenMembers_readable section_ key value f),
    settings_writtenMembers]
  by_cases hsection : section_' = section_
  · rw [if_pos hsection, writtenSettings, Entries.get?_insert, hsection]
    by_cases hkey : key' = key
    · rw [if_pos hkey, if_pos ⟨rfl, hkey⟩]
      rfl
    · rw [if_neg hkey, if_neg fun h => hkey h.2]
      rfl
  · rw [if_neg hsection, if_neg fun h => hsection h.1]
    rfl

/-- A setting that was written to a file is found there. -/
theorem get?_set : (f.set section_ key value).get? section_ key = some value := by
  rw [get?_eq, value?_set, if_pos ⟨rfl, rfl⟩]
  rfl

theorem remarks_set : (f.set section_ key value).remarks = [] := by
  rw [remarks, read_set]

end Written

end SettingsFile

/-! ## Stores -/

namespace Store

variable {section_ key value : Text} {s s' : Store}

/-- A setting that was written is found again. -/
theorem get?_of_set? (h : s.set? section_ key value = some s') :
    s'.get? section_ key = some value := by
  cases s with
  | memory sections =>
    cases h
    simp [get?]
  | file f =>
    obtain ⟨-, rfl⟩ := set?_file.1 h
    exact f.get?_set section_ key value

/-- Nothing is said about a store that was written to. -/
theorem remarks_of_set? (h : s.set? section_ key value = some s') : s'.remarks = [] := by
  cases s with
  | memory sections =>
    cases h
    rfl
  | file f =>
    obtain ⟨-, rfl⟩ := set?_file.1 h
    exact f.remarks_set section_ key value

end Store

/-! ## Choices -/

namespace Prompt

namespace Memory

/-- Choices that can be written and read. -/
def Readable (m : Memory) : Prop := Json.Readable (.object m.tags)

/-- What is loaded comes from the section that it is kept in, and can be saved. -/
theorem readable_of_load {place : Text} {s : Store} {m : Memory} {remarks : Journal}
    (h : load place s = .ok (m, remarks)) : m.place = place ∧ m.Readable := by
  unfold load at h
  split at h
  · rename_i tags said hparse
    cases h
    refine ⟨rfl, ?_⟩
    unfold parse at hparse
    split at hparse
    · cases hparse
      exact .empty
    · split at hparse
      · rename_i hobject
        cases hparse
        exact Json.parse_readable hobject
      · cases hparse
        exact .empty
      · cases hparse
      · cases hparse
        exact .empty
  · cases h

/-- Remembering a choice keeps a memory readable. -/
theorem Readable.remember {m m' : Memory} {tag name value : Text} (h : m.Readable)
    (hm : m.remember tag name value = .ok m') : m'.Readable := by
  unfold Memory.remember at hm
  split at hm
  · cases hm
    exact Json.Readable.insert h tag (Json.Readable.empty.insert name (.text value))
  · rename_i names hnames
    cases hm
    have hinner := (Json.Readable.get? h hnames).insert name (.text value)
    exact Json.Readable.insert h tag hinner
  · cases hm

/-- Forgetting keeps a memory that can be read again. -/
theorem Readable.forget {m m' : Memory} {tag name : Text} (h : m.Readable)
    (hm : m.forget tag name = .ok m') : m'.Readable := by
  unfold Memory.forget at hm
  split at hm
  · cases hm
    exact h
  · rename_i names hnames
    cases hm
    have hinner := (Json.Readable.get? h hnames).erase name
    exact Json.Readable.insert h tag hinner
  · cases hm
  · cases hm

/-- Changes of the memory keep it readable. -/
theorem Readable.changes {m m' : Memory} {f : Memory → Except Abort Memory} (hf : Changes f)
    (h : m.Readable) (hm : f m = .ok m') : m'.Readable := by
  cases hf with
  | remember tag name value => exact h.remember hm
  | forget tag name => exact h.forget hm

/-- Choices that were saved are loaded as they were, without any remark. -/
theorem load_of_save? {m : Memory} {s s' : Store} (h : m.Readable) (hsave : m.save? s = some s') :
    load m.place s' = .ok (m, []) := by
  have hparse : Json.parse m.render = .ok (.object m.tags) := Json.parse_render h
  have hne : ¬ m.render = [] := by
    intro hnil
    rw [hnil] at hparse
    cases hparse
  rw [load, Store.get?_of_set? hsave, Store.remarks_of_set? hsave, Option.getD_some, parse, if_neg hne,
    hparse]
  rfl

end Memory

end Prompt

end TabletopChat
