import TabletopChat.Files.Content
import TabletopChat.Journal
import TabletopChat.Json.Display
import TabletopChat.Json.Parser
import TabletopChat.Json.Printer
import TabletopChat.Text.Lines

/-!
# Store — settings that outlive a message

A setting is a text under a key in a section. Settings are kept in memory or in a file; a file that
holds no JSON object counts as empty until something is written to it.

- `SettingsFile` : a file of settings
- `Store`        : settings in memory or in a file
- `Store.get?`, `Store.set?` : reading and writing a setting
-/

namespace TabletopChat

/-! ## Files -/

/-- A file of settings; `writable` tells whether its place can be written to. -/
structure SettingsFile where
  path : Text
  content : Option Content
  writable : Bool
  deriving DecidableEq, Repr

namespace SettingsFile

/-- The members of the object in a file, or why there is none. A file that is missing or holds another
value has no members. -/
def read (f : SettingsFile) : Except Text (Entries Json) :=
  match f.content with
  | none => .ok []
  | some .undecodable => .error "no text".toList
  | some (.text t) =>
    let t := Text.unifyLineEnds t
    match Json.parse t with
    | .ok (.object members) => .ok members
    | .ok _ => .ok []
    | .error fault => .error (fault.message t)

/-- The members of the object in a file, which has none if it cannot be read. -/
def members (f : SettingsFile) : Entries Json :=
  match f.read with
  | .ok ms => ms
  | .error _ => []

def get? (section_ key : Text) (f : SettingsFile) : Option Text :=
  match Entries.get? section_ f.members with
  | some (.object settings) =>
    match Entries.get? key settings with
    | none | some .null => none
    | some v => some v.toText
  | _ => none

def settings (section_ : Text) (members : Entries Json) : Entries Json :=
  match Entries.get? section_ members with
  | some (.object settings) => settings
  | _ => []

def set (section_ key value : Text) (f : SettingsFile) : SettingsFile :=
  let settings := Entries.insert key (.text value) (settings section_ f.members)
  let members := Entries.insert section_ (.object settings) f.members
  { f with content := some (.text (Json.renderSorted (.object members))) }

/-- The remark on a file that cannot be read. -/
def remarks (f : SettingsFile) : Journal :=
  match f.read with
  | .ok _ => []
  | .error why =>
    Journal.warn .store ("ignoring unreadable settings file ".toList ++ f.path ++ ": ".toList ++ why) []

end SettingsFile

/-! ## Stores -/

/-- Settings by section and key. -/
inductive Store
  | memory (sections : Entries (Entries Text))
  | file (f : SettingsFile)
  deriving DecidableEq, Repr

namespace Store

def get? (section_ key : Text) : Store → Option Text
  | .memory sections => (Entries.get? section_ sections).bind (Entries.get? key)
  | .file f => f.get? section_ key

/-- The store after a setting was written, if it can be. -/
def set? (section_ key value : Text) : Store → Option Store
  | .memory sections =>
    let settings := (Entries.get? section_ sections).getD []
    some (.memory (Entries.insert section_ (Entries.insert key value settings) sections))
  | .file f => if f.writable then some (.file (f.set section_ key value)) else none

/-- A file is written to only if that is possible. -/
theorem set?_file {f : SettingsFile} {section_ key value : Text} {s : Store} :
    (Store.file f).set? section_ key value = some s ↔ f.writable = true ∧ s = .file (f.set section_ key value) := by
  by_cases hf : f.writable = true
  · simp [set?, hf, eq_comm]
  · simp [set?, hf]

/-- Where one setting could be written, any other can be written afterwards. -/
theorem set?_of_set? {section_ key value : Text} {s s' : Store} (h : s.set? section_ key value = some s')
    (section_' key' value' : Text) : ∃ s'', s'.set? section_' key' value' = some s'' := by
  cases s with
  | memory sections =>
    cases h
    exact ⟨_, rfl⟩
  | file f =>
    obtain ⟨hf, rfl⟩ := set?_file.1 h
    exact ⟨_, set?_file.2 ⟨hf, rfl⟩⟩

def remarks : Store → Journal
  | .memory _ => []
  | .file f => f.remarks

end Store

end TabletopChat
