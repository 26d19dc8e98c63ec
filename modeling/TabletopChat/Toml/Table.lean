import TabletopChat.Toml.Value

/-!
# Toml/Table — tables that are written piece by piece

A table may be opened by a header, by a dotted key or by the header of a table inside of it, but what was
opened in one way cannot be opened again in another, and what is written in one piece cannot be added to.

- `within?`  : changing a table inside of a table
- `Marks`    : which tables are declared, and which are complete
- `Document` : a configuration that is being read
- `Document.openTable?`, `Document.openItem?`, `Document.define?` : its three kinds of statements
-/

namespace TabletopChat

namespace Toml

abbrev Key := List Text

/-! ## Tables inside of tables -/

/-- A table after a change of the table under a key; tables on the way there are made if they are
missing. Where `throughLists` is set, the last item of a list stands for the list. -/
def within? (throughLists : Bool) (change : Table → Option Table) : Key → Table → Option Table
  | [], t => change t
  | k :: ks, t =>
    match Entries.get? k t with
    | none => (within? throughLists change ks []).map fun inner => Entries.insert k (.table inner) t
    | some (.table inner) =>
      (within? throughLists change ks inner).map fun inner => Entries.insert k (.table inner) t
    | some (.list items) =>
      match throughLists, items.getLast? with
      | true, some (.table inner) =>
        (within? throughLists change ks inner).map fun inner =>
          Entries.insert k (.list (items.dropLast ++ [.table inner])) t
      | _, _ => none
    | some _ => none

def addMember? (k : Text) (v : Value) (t : Table) : Option Table :=
  if Entries.has k t then none else some (Entries.insert k v t)

/-- A table with an empty table at the end of the list of tables under a key. -/
def addItem? (k : Text) (t : Table) : Option Table :=
  match Entries.get? k t with
  | none => some (Entries.insert k (.list [.table []]) t)
  | some (.list items) => some (Entries.insert k (.list (items ++ [.table []])) t)
  | some _ => none

def define? (throughLists : Bool) (path : Key) (v : Value) (t : Table) : Option Table :=
  match path.getLast? with
  | some k => within? throughLists (addMember? k v) path.dropLast t
  | none => none

/-! ## Marks -/

/-- Tables that are declared, and values that are complete together with all that is inside of them. -/
structure Marks where
  declared : List Key
  complete : List Key
  deriving Repr

namespace Marks

def isDeclared (m : Marks) (k : Key) : Bool := m.declared.contains k

def isComplete (m : Marks) (k : Key) : Bool := m.complete.any fun c => c.isPrefixOf k

def forget (m : Marks) (k : Key) : Marks :=
  ⟨m.declared.filter fun d => !k.isPrefixOf d, m.complete.filter fun c => !k.isPrefixOf c⟩

def addValue (m : Marks) (k : Key) : Value → Marks
  | .list _ | .table _ => { m with complete := k :: m.complete }
  | _ => m

end Marks

/-! ## Documents -/

/-- A configuration that is being read: its table, its marks, the tables that dotted keys have opened
since the last header, and the last header. -/
structure Document where
  table : Table
  marks : Marks
  opened : List Key
  header : Key

namespace Document

def empty : Document := ⟨[], ⟨[], []⟩, [], []⟩

def closeSection (d : Document) : Document :=
  { d with marks := { d.marks with declared := d.opened ++ d.marks.declared }, opened := [] }

def openTable? (k : Key) (d : Document) : Option Document :=
  let d := d.closeSection
  if d.marks.isDeclared k || d.marks.isComplete k then none
  else
    (within? true some k d.table).map fun table =>
      { d with
        table := table
        marks := { d.marks with declared := k :: d.marks.declared }
        header := k }

def openItem? (k : Key) (d : Document) : Option Document :=
  let d := d.closeSection
  match k.getLast? with
  | none => none
  | some last =>
    if d.marks.isComplete k then none
    else
      let marks := d.marks.forget k
      (within? true (addItem? last) k.dropLast d.table).map fun table =>
        { d with
          table := table
          marks := { marks with declared := k :: marks.declared }
          header := k }

def openedBy (header path : Key) : List Key :=
  (List.range (path.length - 1)).map fun i => header ++ path.take (i + 1)

def define? (path : Key) (v : Value) (d : Document) : Option Document :=
  let opened := openedBy d.header path
  if opened.any d.marks.isDeclared || d.marks.isComplete (d.header ++ path.dropLast) then none
  else
    (Toml.define? true (d.header ++ path) v d.table).map fun table =>
      { d with
        table := table
        marks := d.marks.addValue (d.header ++ path) v
        opened := opened ++ d.opened }

end Document

end Toml

end TabletopChat
