import TabletopChat.Proofs.Prompt.Answering
import TabletopChat.Proofs.Store.Settings

/-!
# Proofs/Prompt/Remembered — what is remembered survives being stored

Choices are remembered and forgotten one after the other, and then stored. What is loaded from the store
after that answers for every tag and name like the memory that was stored, and no other setting was
touched.

- `Store.text?`        : settings that are texts
- `Change`, `applyAll` : remembering and forgetting
- `Remembers`          : stores in which choices can be looked up
- `saved_and_loaded`   : choices that were changed, stored and loaded again
-/

namespace TabletopChat

/-! ## Texts in a store -/

theorem Json.text?_sorted (v : Json) : v.sorted.text? = v.text? := by
  cases v <;> rfl

namespace Store

/-- The text of a setting. In a file that others have written, a setting may also be another value. -/
def text? (section_ key : Text) (s : Store) : Option Text := (s.value? section_ key).bind Json.text?

/-- Writing a setting changes no other text. -/
theorem text?_of_set? {section_ key value : Text} {s s' : Store}
    (h : s.set? section_ key value = some s') {section_' key' : Text}
    (hne : (section_', key') ≠ (section_, key)) : s'.text? section_' key' = s.text? section_' key' := by
  rw [text?, text?, value?_of_set? h, if_neg fun heq => hne (by rw [heq.1, heq.2])]
  cases s.value? section_' key' with
  | none => rfl
  | some v => exact v.text?_sorted

end Store

namespace Prompt

namespace Memory

/-! ## Remembering and forgetting -/

/-- A change of what is remembered. -/
inductive Change
  | remember (tag name value : Text)
  | forget (tag name : Text)
  deriving DecidableEq, Repr

def Change.apply : Change → Memory → Except Abort Memory
  | .remember tag name value => Memory.remember tag name value
  | .forget tag name => Memory.forget tag name

def applyAll : List Change → Memory → Except Abort Memory
  | [], m => .ok m
  | c :: cs, m => (c.apply m).bind (applyAll cs)

/-- Applying changes is applying the first and then the others. -/
theorem exists_of_applyAll_cons {c : Change} {cs : List Change} {m m' : Memory}
    (h : applyAll (c :: cs) m = .ok m') : ∃ n, c.apply m = .ok n ∧ applyAll cs n = .ok m' := by
  rw [applyAll] at h
  cases hn : c.apply m with
  | error e =>
    rw [hn] at h
    cases h
  | ok n =>
    rw [hn] at h
    exact ⟨n, rfl, h⟩

theorem Change.changes (c : Change) : Changes c.apply := by
  cases c with
  | remember tag name value => exact .remember tag name value
  | forget tag name => exact .forget tag name

/-- Where choices are remembered by tag and name, a change can be made, and they still are afterwards. -/
theorem Tidy.apply {m : Memory} (h : m.Tidy) (c : Change) : ∃ m', c.apply m = .ok m' ∧ m'.Tidy := by
  cases c with
  | remember tag name value => exact h.remember tag name value
  | forget tag name => exact h.forget tag name

/-- Every change can be made to a tidy memory. -/
theorem Tidy.applyAll {m : Memory} (h : m.Tidy) (cs : List Change) :
    ∃ m', Memory.applyAll cs m = .ok m' ∧ m'.Tidy := by
  induction cs generalizing m with
  | nil => exact ⟨m, rfl, h⟩
  | cons c cs ih =>
    rcases h.apply c with ⟨n, hn, htidy⟩
    rcases ih htidy with ⟨m', hm', htidy'⟩
    refine ⟨m', ?_, htidy'⟩
    rw [Memory.applyAll, hn]
    exact hm'

/-- Any number of changes keeps the section of a memory, and keeps it readable. -/
theorem Readable.applyAll {m m' : Memory} (h : m.Readable) {cs : List Change}
    (hm : Memory.applyAll cs m = .ok m') : m'.place = m.place ∧ m'.Readable := by
  induction cs generalizing m with
  | nil =>
    cases hm
    exact ⟨rfl, h⟩
  | cons c cs ih =>
    obtain ⟨n, hn, hrest⟩ := exists_of_applyAll_cons hm
    rcases ih (h.changes c.changes hn) hrest with ⟨hplace, hreadable⟩
    exact ⟨hplace.trans (c.changes.place_eq hn), hreadable⟩

end Memory

/-! ## Storing and loading -/

/-- A store in a section of which nothing is remembered yet, or choices by tag and name. -/
def Remembers (place : Text) (s : Store) : Prop :=
  s.get? place Memory.key = none ∨
    ∃ t tags, s.get? place Memory.key = some t ∧ Json.parse t = .ok (.object tags) ∧
      (⟨place, tags⟩ : Memory).Tidy

/-- What is remembered in a store can be read. -/
theorem Remembers.load {place : Text} {s : Store} (h : Remembers place s) :
    ∃ m remarks, Memory.load place s = .ok (m, remarks) ∧ m.Tidy := by
  rcases h with hnone | ⟨t, tags, ht, hparse, htidy⟩
  · refine ⟨⟨place, []⟩, s.remarks, ?_, List.forall_mem_nil _⟩
    rw [Memory.load, hnone]
    rfl
  · have hne : ¬ t = [] := by
      intro hnil
      rw [hnil] at hparse
      cases hparse
    refine ⟨⟨place, tags⟩, s.remarks, ?_, htidy⟩
    rw [Memory.load, ht, Option.getD_some, Memory.parse, if_neg hne, hparse]
    rfl

/-- Choices that are remembered in a store can be changed in any way. Stored and loaded again, they answer
for every tag and name as before; every other text of the store is what it was, and so is every other
value but for the order of its members. Storing fails only where a store cannot be written to. -/
theorem saved_and_loaded {place : Text} {s : Store} (h : Remembers place s) (changes : List Memory.Change) :
    ∃ m remarks m', Memory.load place s = .ok (m, remarks) ∧ Memory.applyAll changes m = .ok m' ∧
      ((∃ s', m'.save? s = some s') ↔ s.Writable) ∧
      ∀ s', m'.save? s = some s' →
        (∃ loaded remarks', Memory.load place s' = .ok (loaded, remarks') ∧
          ∀ tag name, ∃ answer, m'.find tag name = .ok answer ∧ loaded.find tag name = .ok answer) ∧
        ∀ section_ key, (section_, key) ≠ (place, Memory.key) →
          s'.text? section_ key = s.text? section_ key ∧
            s'.value? section_ key = (s.value? section_ key).map Json.sorted := by
  rcases h.load with ⟨m, remarks, hload, htidy⟩
  rcases htidy.applyAll changes with ⟨m', hm', htidy'⟩
  rcases Memory.readable_of_load hload with ⟨hplace, hreadable⟩
  rcases hreadable.applyAll hm' with ⟨hplace', hreadable'⟩
  have hm'place : m'.place = place := hplace'.trans hplace
  refine ⟨m, remarks, m', hload, hm', Store.exists_set?_iff _ _ _, fun s' hsave => ⟨?_, ?_⟩⟩
  -- what is loaded is the memory itself, so that it answers in the same way
  · have hagain : Memory.load place s' = .ok (m', []) := hm'place ▸ Memory.load_of_save? hreadable' hsave
    refine ⟨m', [], hagain, fun tag name => ?_⟩
    rcases htidy'.find tag name with ⟨answer, hanswer⟩
    exact ⟨answer, hanswer, hanswer⟩
  · intro section_ key hne
    have hset : s.set? place Memory.key m'.render = some s' := hm'place ▸ hsave
    refine ⟨Store.text?_of_set? hset hne, ?_⟩
    rw [Store.value?_of_set? hset, if_neg fun heq => hne (by rw [heq.1, heq.2])]

/-- A file in which a choice is remembered for a tag with a quote, and which has another setting. -/
theorem saved_and_loaded_quoted :
    let place := "chatmacro".toList
    let s := Store.file ⟨[], some (.text
      "\x7b\"chatmacro\": \x7b\"promptOptionsMemory\": \"\x7b\\\"?\x7bQ|\\\\\\\"\x7d\\\": \x7b\\\"value\\\": \\\"1\\\"\x7d\x7d\", \"other\": 2.50\x7d\x7d".toList), true⟩
    let changes := [Memory.Change.forget "?\x7bQ|\"\x7d".toList "value".toList,
      .remember "\\\x7b".toList "😀".toList "\n".toList]
    Remembers place s ∧
    ∃ m remarks m', Memory.load place s = .ok (m, remarks) ∧ Memory.applyAll changes m = .ok m' ∧
      ((∃ s', m'.save? s = some s') ↔ s.Writable) ∧
      ∀ s', m'.save? s = some s' →
        (∃ loaded remarks', Memory.load place s' = .ok (loaded, remarks') ∧
          ∀ tag name, ∃ answer, m'.find tag name = .ok answer ∧ loaded.find tag name = .ok answer) ∧
        ∀ section_ key, (section_, key) ≠ (place, Memory.key) →
          s'.text? section_ key = s.text? section_ key ∧
            s'.value? section_ key = (s.value? section_ key).map Json.sorted := by
  intro place s changes
  have hremembers : Remembers place s := by
    refine .inr ⟨"\x7b\"?\x7bQ|\\\"\x7d\": \x7b\"value\": \"1\"\x7d\x7d".toList,
      [("?\x7bQ|\"\x7d".toList, .object [("value".toList, .text "1".toList)])], ?_, ?_, ?_⟩
    · decide +kernel
    · cbv
    · exact List.forall_mem_singleton.2 ⟨_, rfl⟩
  exact ⟨hremembers, saved_and_loaded hremembers changes⟩

end Prompt

end TabletopChat
