import TabletopChat.Proofs.Store.Saved

/-!
# Proofs/Store/Settings — settings in a file are like settings in memory

A file is read and written as a whole for each setting. Nothing is lost on the way: the setting that was
written is there, and every other value is the one that was there before, with the members of its objects
sorted, which changes no text. So a file and a table in memory that hold the same settings cannot be told
apart by reading and writing.

- `Store.value?`, `Store.Writable` : the value behind a setting; stores that can be written to
- `Store.value?_of_set?`   : what is found after a setting was written
- `Store.set?_set?`        : of a setting that is written twice the last text counts
- `Operation`, `actAll`    : reading and writing, one setting after the other
- `Alike`                  : stores in which the same is found
- `file_answers_like_memory` : a file and a table in memory
-/

namespace TabletopChat

/-! ## Files -/

namespace SettingsFile

open Json

theorem value?_readable {section_ key : Text} {f : SettingsFile} {v : Json}
    (h : f.value? section_ key = some v) : Readable v :=
  (settings_readable section_ f.members_readable).get? h

section Written

variable (section_ key value : Text) (f : SettingsFile)

/-- In the section of a setting that is written again, only the order of the settings may differ from the
section where it is written once. -/
theorem sorted_writtenSettings_set (value' : Text) :
    sortedEntries (writtenSettings section_ key value' (f.set section_ key value)) =
      sortedEntries (writtenSettings section_ key value' f) := by
  refine sortedEntries_eq (writtenSettings_readable _ _ _ _).nodup_keys
    (writtenSettings_readable _ _ _ _).nodup_keys fun k => ?_
  simp only [writtenSettings, Entries.get?_insert]
  by_cases hk : k = key
  · simp only [if_pos hk]
  · simp only [if_neg hk]
    have hvalue : (f.set section_ key value).value? section_ k = (f.value? section_ k).map sorted := by
      rw [value?_set, if_neg fun h => hk h.2]
    calc ((f.set section_ key value).value? section_ k).map sorted
        = ((f.value? section_ k).map sorted).map sorted := by rw [hvalue]
      _ = (f.value? section_ k).map sorted := by
          rw [Option.map_map]
          exact Option.map_congr fun v hv => sorted_sorted (value?_readable hv)

/-- So it is with the sections. -/
theorem sorted_writtenMembers_set (value' : Text) :
    sortedEntries (writtenMembers section_ key value' (f.set section_ key value)) =
      sortedEntries (writtenMembers section_ key value' f) := by
  refine sortedEntries_eq (writtenMembers_readable _ _ _ _).nodup_keys
    (writtenMembers_readable _ _ _ _).nodup_keys fun s => ?_
  simp only [writtenMembers, Entries.get?_insert]
  by_cases hs : s = section_
  · simp only [if_pos hs]
    exact congrArg (fun ms => some (Json.object ms)) (sorted_writtenSettings_set section_ key value f value')
  · simp only [if_neg hs]
    have hsection : Entries.get? s (f.set section_ key value).members =
        (Entries.get? s f.members).map sorted := by
      rw [members_set, get?_sortedEntries (writtenMembers_readable _ _ _ _).nodup_keys, writtenMembers,
        Entries.get?_insert_of_ne _ _ (Ne.symm hs)]
    rw [hsection, Option.map_map]
    exact Option.map_congr fun v hv => sorted_sorted (f.members_readable.get? hv)

/-- Where a setting is written again, the file is as if it had been written once. -/
theorem set_set (value' : Text) :
    (f.set section_ key value).set section_ key value' = f.set section_ key value' := by
  have htext := renderSorted_congr
    (writtenMembers_readable section_ key value' (f.set section_ key value))
    (writtenMembers_readable section_ key value' f)
    (congrArg Json.object (sorted_writtenMembers_set section_ key value f value'))
  have hcontent : ((f.set section_ key value).set section_ key value').content =
      (f.set section_ key value').content := congrArg (fun t => some (Content.text t)) htext
  calc (f.set section_ key value).set section_ key value'
      = { f with content := ((f.set section_ key value).set section_ key value').content } := rfl
    _ = f.set section_ key value' := by
        rw [hcontent]
        rfl

end Written

end SettingsFile

/-! ## Stores -/

namespace Store

def value? (section_ key : Text) : Store → Option Json
  | .memory sections => ((Entries.get? section_ sections).bind (Entries.get? key)).map .text
  | .file f => f.value? section_ key

/-- Whether a store can be written to; in memory it always can. -/
def Writable : Store → Prop
  | .memory _ => True
  | .file f => f.writable = true

/-- A setting of a store is what is shown of the value there. -/
theorem get?_eq (section_ key : Text) (s : Store) :
    s.get? section_ key = (s.value? section_ key).bind SettingsFile.shown := by
  cases s with
  | memory sections =>
    simp only [get?, value?]
    cases (Entries.get? section_ sections).bind (Entries.get? key) <;> rfl
  | file f => exact f.get?_eq section_ key

theorem exists_set?_iff {s : Store} (section_ key value : Text) :
    (∃ s', s.set? section_ key value = some s') ↔ s.Writable := by
  cases s with
  | memory sections => exact ⟨fun _ => trivial, fun _ => ⟨_, rfl⟩⟩
  | file f => simp [set?, Writable]

section Written

variable {section_ key value : Text} {s s' : Store}

theorem writable_of_set? (h : s.set? section_ key value = some s') : s'.Writable :=
  (exists_set?_iff section_ key value).1 (set?_of_set? h section_ key value)

/-- What is found after a setting was written: the setting, and every other value as it was but for the
order of its members. -/
theorem value?_of_set? (h : s.set? section_ key value = some s') (section_' key' : Text) :
    s'.value? section_' key' =
      if section_' = section_ ∧ key' = key then some (.text value)
      else (s.value? section_' key').map Json.sorted := by
  cases s with
  | memory sections =>
    cases h
    have hsorted (t : Option Text) : (t.map Json.text).map Json.sorted = t.map .text := by
      cases t <;> rfl
    simp only [value?, hsorted, Entries.get?_insert]
    by_cases hsection : section_' = section_
    · by_cases hkey : key' = key
      · simp [hsection, hkey]
      · cases hold : Entries.get? section_ sections <;>
          simp [hsection, hkey, Entries.get?_insert, hold]
    · simp [hsection]
  | file f =>
    obtain ⟨-, rfl⟩ := set?_file.1 h
    exact f.value?_set section_ key value section_' key'

/-- Of a setting that is written twice the last text counts. -/
theorem set?_set? (h : s.set? section_ key value = some s') (value' : Text) :
    s'.set? section_ key value' = s.set? section_ key value' := by
  cases s with
  | memory sections =>
    cases h
    simp [set?, Entries.insert_insert]
  | file f =>
    obtain ⟨hwritable, rfl⟩ := set?_file.1 h
    have hstill : (f.set section_ key value).writable = true := hwritable
    simp only [set?, if_pos hwritable, if_pos hstill, f.set_set]

end Written

/-- A store of values that stay as they are when they are sorted, such as texts. -/
def Plain (s : Store) : Prop := ∀ section_ key, (s.value? section_ key).map Json.sorted = s.value? section_ key

theorem plain_memory (sections : Entries (Entries Text)) : (Store.memory sections).Plain := by
  intro section_ key
  simp only [value?]
  cases (Entries.get? section_ sections).bind (Entries.get? key) <;> rfl

/-- Writing keeps a store plain. -/
theorem Plain.set? {s s' : Store} (h : s.Plain) {section_ key value : Text}
    (hs : s.set? section_ key value = some s') : s'.Plain := by
  intro section_' key'
  rw [value?_of_set? hs]
  split
  · rfl
  · rw [h, h]

/-- Writing a setting changes no other. -/
theorem Plain.get?_of_ne {s s' : Store} (h : s.Plain) {section_ key value section_' key' : Text}
    (hs : s.set? section_ key value = some s') (hne : (section_', key') ≠ (section_, key)) :
    s'.get? section_' key' = s.get? section_' key' := by
  rw [get?_eq, get?_eq, value?_of_set? hs, if_neg fun heq => hne (by rw [heq.1, heq.2]), h]

/-! ## Reading and writing -/

/-- Reading or writing a setting. -/
inductive Operation
  | get (section_ key : Text)
  | set (section_ key value : Text)
  deriving DecidableEq, Repr

def Operation.Writes : Operation → Prop
  | .get _ _ => False
  | .set _ _ _ => True

def Operation.act : Operation → Act Abort Store (Option Text)
  | .get section_ key => fun s => (.ok (s.get? section_ key), s)
  | .set section_ key value => fun s =>
    match s.set? section_ key value with
    | some s' => (.ok none, s')
    | none => (.error .notWritable, s)

def actAll : List Operation → Act Abort Store (List (Option Text))
  | [] => pure []
  | op :: ops => do
    let r ← op.act
    let rs ← actAll ops
    pure (r :: rs)

/-- Operations leave a store of plain values one. -/
theorem plain_actAll (ops : List Operation) :
    Act.Always (fun s t => s.Plain → t.Plain) (actAll ops) := by
  have hact (op : Operation) : Act.Always (fun s t => s.Plain → t.Plain) op.act := by
    intro s hs
    cases op with
    | get section_ key => exact hs
    | set section_ key value =>
      simp only [Operation.act, Act.run]
      split
      · exact hs.set? ‹_›
      · exact hs
  induction ops with
  | nil => exact fun _ => id
  | cons op ops ih =>
    have htrans {s t u : Store} (h : s.Plain → t.Plain) (h' : t.Plain → u.Plain) :
        s.Plain → u.Plain := fun hs => h' (h hs)
    exact .bind htrans (hact op) fun _ => .bind htrans ih fun _ _ => id

def Allows (ops : List Operation) (s : Store) : Prop := ∀ op ∈ ops, op.Writes → s.Writable

def Alike (s t : Store) : Prop := ∀ section_ key, s.value? section_ key = t.value? section_ key

theorem Alike.get? {s t : Store} (h : Alike s t) (section_ key : Text) :
    s.get? section_ key = t.get? section_ key := by
  rw [get?_eq, get?_eq, h section_ key]

theorem Alike.set? {s s' t t' : Store} (h : Alike s t) {section_ key value : Text}
    (hs : s.set? section_ key value = some s') (ht : t.set? section_ key value = some t') :
    Alike s' t' := by
  intro section_' key'
  rw [value?_of_set? hs, value?_of_set? ht, h section_' key']

theorem Alike.plain {s t : Store} (h : Alike s t) (ht : t.Plain) : s.Plain := by
  intro section_ key
  rw [h, ht]

/-- An operation has the same result on stores that are alike, and leaves them alike. -/
theorem Alike.act {s t : Store} (h : Alike s t) {op : Operation} {ops : List Operation}
    (hs : Allows (op :: ops) s) (ht : Allows (op :: ops) t) :
    ∃ r s' t', op.act.run s = (.ok r, s') ∧ op.act.run t = (.ok r, t') ∧ Alike s' t' ∧
      Allows ops s' ∧ Allows ops t' := by
  cases op with
  | get section_ key =>
    refine ⟨s.get? section_ key, s, t, rfl, ?_, h, fun op hop => hs op (List.mem_cons_of_mem _ hop),
      fun op hop => ht op (List.mem_cons_of_mem _ hop)⟩
    rw [h.get?]
    rfl
  | set section_ key value =>
    have hwritable (u : Store) (hu : Allows (.set section_ key value :: ops) u) :
        ∃ u', u.set? section_ key value = some u' :=
      (exists_set?_iff section_ key value).2 (hu _ List.mem_cons_self trivial)
    rcases hwritable s hs with ⟨s', hs'⟩
    rcases hwritable t ht with ⟨t', ht'⟩
    refine ⟨none, s', t', ?_, ?_, h.set? hs' ht', fun _ _ _ => writable_of_set? hs',
      fun _ _ _ => writable_of_set? ht'⟩
    · simp only [Operation.act, Act.run, hs']
    · simp only [Operation.act, Act.run, ht']

/-- Any number of operations have the same results on stores that are alike. -/
theorem Alike.actAll {s t : Store} (h : Alike s t) {ops : List Operation} (hs : Allows ops s)
    (ht : Allows ops t) :
    ∃ rs s' t', (actAll ops).run s = (.ok rs, s') ∧ (Store.actAll ops).run t = (.ok rs, t') ∧
      Alike s' t' := by
  induction ops generalizing s t with
  | nil => exact ⟨[], s, t, rfl, rfl, h⟩
  | cons op ops ih =>
    rcases h.act hs ht with ⟨r, s', t', hrs, hrt, hnext, hs', ht'⟩
    -- after the first operation the stores are alike again
    rcases ih hnext hs' ht' with ⟨rs, s'', t'', hruns, hrunt, hend⟩
    refine ⟨r :: rs, s'', t'', ?_, ?_, hend⟩
    · rw [Store.actAll, Act.run_bind_of_ok hrs, Act.run_bind_of_ok hruns]
      rfl
    · rw [Store.actAll, Act.run_bind_of_ok hrt, Act.run_bind_of_ok hrunt]
      rfl

end Store

/-! ## A file and a table in memory -/

def Json.ofSections (sections : Entries (Entries Text)) : Json :=
  .object (sections.map fun s => (s.1, .object (s.2.map fun e => (e.1, .text e.2))))

/-- The settings in a file: those of the object in it, and none if the file is missing, holds no text, no
JSON, or another value. -/
inductive SettingsFile.Holds (f : SettingsFile) : Entries (Entries Text) → Prop
  | missing : f.content = none → f.Holds []
  | undecodable : f.content = some .undecodable → f.Holds []
  | malformed {t : Text} {fault : Json.Fault} : f.content = some (.text t) →
      Json.parse (Text.unifyLineEnds t) = .error fault → f.Holds []
  | noObject {t : Text} {v : Json} : f.content = some (.text t) →
      Json.parse (Text.unifyLineEnds t) = .ok v → v.members? = none → f.Holds []
  | settings {t : Text} {sections : Entries (Entries Text)} : f.content = some (.text t) →
      Json.parse (Text.unifyLineEnds t) = .ok (.ofSections sections) → f.Holds sections

namespace Store

/-- What is in a file without members. -/
theorem alike_of_members_nil {f : SettingsFile} (h : f.members = []) :
    Alike (.file f) (.memory []) := by
  intro section_ key
  simp [value?, SettingsFile.value?, h, SettingsFile.settings]

/-- A file answers like memory if it holds the same settings. -/
theorem alike_of_holds {f : SettingsFile} {sections : Entries (Entries Text)}
    (h : f.Holds sections) : Alike (.file f) (.memory sections) := by
  cases h with
  | missing hcontent =>
    -- a file that cannot be read answers like an empty memory
    exact alike_of_members_nil (by simp [SettingsFile.members, SettingsFile.read, hcontent])
  | undecodable hcontent =>
    exact alike_of_members_nil (by simp [SettingsFile.members, SettingsFile.read, hcontent])
  | malformed hcontent hparse =>
    exact alike_of_members_nil (by simp [SettingsFile.members, SettingsFile.read, hcontent, hparse])
  | @noObject t v hcontent hparse hobject =>
    refine alike_of_members_nil ?_
    cases v with
    | object ms => cases hobject
    | _ => simp [SettingsFile.members, SettingsFile.read, hcontent, hparse]
  | settings hcontent hparse =>
    -- the members of the file are the sections, with every text as JSON
    have hmembers : f.members =
        sections.map fun s => (s.1, .object (s.2.map fun e => (e.1, .text e.2))) := by
      simp [SettingsFile.members, SettingsFile.read, hcontent, hparse, Json.ofSections]
    intro section_ key
    have hsection : Entries.get? section_ f.members = (Entries.get? section_ sections).map fun s =>
        .object (s.map fun e => (e.1, .text e.2)) := by
      rw [hmembers]
      exact Entries.get?_map (fun s : Entries Text => Json.object (s.map fun e => (e.1, .text e.2)))
        section_ sections
    simp only [value?, SettingsFile.value?, SettingsFile.settings, hsection]
    cases Entries.get? section_ sections with
    | none => rfl
    | some settings => exact Entries.get?_map Json.text key settings

/-- Reading and writing settings one after the other, a file gives the same results as a table in memory
that holds the settings of the file at the beginning. Whatever the file holds after that, writing one
setting changes no other. -/
theorem file_answers_like_memory {f : SettingsFile} {sections : Entries (Entries Text)}
    (h : f.Holds sections) {ops : List Operation}
    (hwrites : ∀ op ∈ ops, op.Writes → f.writable = true) :
    ∃ results s t, (actAll ops).run (.file f) = (.ok results, s) ∧
      (actAll ops).run (.memory sections) = (.ok results, t) ∧
      ∀ section_ key value s', s.set? section_ key value = some s' →
        ∀ section_' key', (section_', key') ≠ (section_, key) →
          s'.get? section_' key' = s.get? section_' key' := by
  have hmemory : Allows ops (.memory sections) := fun _ _ _ => trivial
  have hfile : Allows ops (.file f) := hwrites
  rcases (alike_of_holds h).actAll hfile hmemory with ⟨results, s, t, hs, ht, -⟩
  -- the file holds nothing but texts all the time
  have hplain : s.Plain := by
    have hall := plain_actAll ops (.file f) ((alike_of_holds h).plain (plain_memory sections))
    rwa [hs] at hall
  refine ⟨results, s, t, hs, ht, ?_⟩
  intro section_ key value s' hset section_' key' hne
  exact hplain.get?_of_ne hset hne

/-- A file whose settings have quotes and characters that are escaped in it. -/
theorem file_answers_like_memory_escaped :
    ∃ results s t,
      (actAll [.set "b".toList "\"".toList "\n😀\\".toList, .get "b".toList "\"".toList,
        .get "a".toList "é".toList]).run (.file ⟨[], some (.text
          "\x7b\"a\": \x7b\"\\u00e9\": \"1\"\x7d, \"b\": \x7b\x7d\x7d".toList), true⟩) =
        (.ok results, s) ∧
      (actAll [.set "b".toList "\"".toList "\n😀\\".toList, .get "b".toList "\"".toList,
        .get "a".toList "é".toList]).run (.memory [("a".toList, [("é".toList, "1".toList)]),
          ("b".toList, [])]) = (.ok results, t) ∧
      ∀ section_ key value s', s.set? section_ key value = some s' →
        ∀ section_' key', (section_', key') ≠ (section_, key) →
          s'.get? section_' key' = s.get? section_' key' :=
  file_answers_like_memory (.settings rfl (by cbv)) fun _ _ _ => rfl

end Store

end TabletopChat
