import TabletopChat.Text.Basic

/-!
# Entries — keyed values in the order in which the keys were first written

- `Entries`   : pairs of key and value
- `get?`      : the value under a key
- `insert`    : writing a key; a key that is there keeps its place
- `insertNew` : writing a key unless it is there
- `erase`     : removing a key
-/

namespace TabletopChat

/-- Values by key, oldest key first. -/
abbrev Entries (α : Type) := List (Text × α)

namespace Entries

variable {α : Type}

def get? (k : Text) : Entries α → Option α
  | [] => none
  | (l, v) :: es => if l = k then some v else get? k es

/-- Writes `v` under `k`: in place when the key is there, at the end when it is new. -/
def insert (k : Text) (v : α) : Entries α → Entries α
  | [] => [(k, v)]
  | (l, w) :: es => if l = k then (l, v) :: es else (l, w) :: insert k v es

def erase (k : Text) : Entries α → Entries α
  | [] => []
  | (l, w) :: es => if l = k then es else (l, w) :: erase k es

def has (k : Text) (es : Entries α) : Bool := (get? k es).isSome

/-- Writes `v` under `k` unless the key is there. -/
def insertNew (k : Text) (v : α) (es : Entries α) : Entries α :=
  if has k es then es else insert k v es

def keys (es : Entries α) : List Text := es.map Prod.fst

def update (es new : Entries α) : Entries α :=
  new.foldl (fun acc e => insert e.1 e.2 acc) es

/-! ## What each operation does to `get?` -/

@[simp] theorem get?_nil (k : Text) : get? k ([] : Entries α) = none := rfl

/-- What was put under a key is found there. -/
@[simp] theorem get?_insert_self (k : Text) (v : α) (es : Entries α) :
    get? k (insert k v es) = some v := by
  induction es with
  | nil => simp [insert, get?]
  | cons e es ih =>
    obtain ⟨l, w⟩ := e
    by_cases h : l = k <;> simp [insert, get?, h, ih]

/-- Writing under one key leaves the others as they are. -/
theorem get?_insert_of_ne {k l : Text} (v : α) (es : Entries α) (h : k ≠ l) :
    get? l (insert k v es) = get? l es := by
  induction es with
  | nil => simp [insert, get?, h]
  | cons e es ih =>
    obtain ⟨m, w⟩ := e
    by_cases hm : m = k
    · subst hm; simp [insert, get?, h]
    · by_cases hl : m = l
      · subst hl; simp [insert, get?, hm]
      · simp [insert, get?, hm, hl, ih]

/-- What is found was put under its key. -/
theorem mem_keys_of_get? {k : Text} {v : α} {es : Entries α} (h : get? k es = some v) :
    k ∈ keys es := by
  induction es with
  | nil => simp [get?] at h
  | cons e es ih =>
    by_cases hk : e.1 = k
    · simp [keys, hk]
    · simp only [get?, hk, if_false] at h
      exact List.mem_cons_of_mem _ (ih h)

/-- Writing a key makes it known and keeps all others. -/
theorem has_insert (k l : Text) (v : α) (es : Entries α) :
    has l (insert k v es) = (decide (k = l) || has l es) := by
  by_cases h : k = l
  · subst h; simp [has]
  · simp [has, get?_insert_of_ne v es h, h]

end Entries

end TabletopChat
