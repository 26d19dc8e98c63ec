import TabletopChat.Proofs.Prompt.Unreadable

/-!
# Proofs/Prompt/SharedStore — several memories of one store

A memory is loaded once, and saved as a whole. Of several memories that share a place in a store, the one
that is saved last decides what is loaded afterwards: what had been stored when it was loaded, with its own
changes. What others have saved since is lost. Nothing is lost if it was loaded after they were done.

- `Access`, `Shared`, `actAll` : loading, changing and saving, one after the other
- `changesOf`         : the changes of one memory
- `Orderly`           : every memory is loaded once, and saved after its last change
- `LastSave`          : the memory that is saved last
- `last_save_decides` : what is loaded afterwards
- `interleaved_saves_lose_choices` : two memories that were loaded before the other was saved
-/

namespace TabletopChat

namespace Prompt

open Act

variable {ι : Type}

/-! ## Accesses -/

inductive Access (ι : Type)
  | load (o : ι)
  | change (o : ι) (c : Memory.Change)
  | save (o : ι)
  deriving DecidableEq, Repr

/-- Several memories and the store that they share. What a memory is before it is loaded means nothing. -/
structure Shared (ι : Type) where
  memories : ι → Memory
  store : Store

section Run

variable [DecidableEq ι]

namespace Shared

def write (s : Shared ι) (o : ι) (m : Memory) : Shared ι :=
  { s with memories := fun p => if p = o then m else s.memories p }

@[simp] theorem memories_write_self (s : Shared ι) (o : ι) (m : Memory) : (s.write o m).memories o = m :=
  if_pos rfl

theorem memories_write_of_ne (s : Shared ι) {o p : ι} (h : p ≠ o) (m : Memory) :
    (s.write o m).memories p = s.memories p := if_neg h

end Shared

namespace Access

variable {place : Text} {s t : Shared ι} {o : ι} {c : Memory.Change}

def act (place : Text) : Access ι → Act Abort (Shared ι) Unit
  | .load o => fun s =>
    match Memory.load place s.store with
    | .ok (m, _) => (.ok (), s.write o m)
    | .error e => (.error e, s)
  | .change o c => fun s =>
    match c.apply (s.memories o) with
    | .ok m => (.ok (), s.write o m)
    | .error e => (.error e, s)
  | .save o => fun s =>
    match (s.memories o).save? s.store with
    | some store => (.ok (), { s with store := store })
    | none => (.error .notWritable, s)

theorem run_load_iff : ((Access.load o).act place).run s = (.ok (), t) ↔
    ∃ m remarks, Memory.load place s.store = .ok (m, remarks) ∧ t = s.write o m := by
  simp only [act, Act.run]
  rcases Memory.load place s.store with e | ⟨m, remarks⟩ <;> simp [eq_comm]

theorem run_change_iff : ((Access.change o c).act place).run s = (.ok (), t) ↔
    ∃ m, c.apply (s.memories o) = .ok m ∧ t = s.write o m := by
  simp only [act, Act.run]
  rcases c.apply (s.memories o) with e | m <;> simp [eq_comm]

theorem run_save_iff : ((Access.save o).act place).run s = (.ok (), t) ↔
    ∃ store, (s.memories o).save? s.store = some store ∧ t = { s with store := store } := by
  simp only [act, Act.run]
  rcases (s.memories o).save? s.store with - | store <;> simp [eq_comm]

end Access

def actAll (place : Text) : List (Access ι) → Act Abort (Shared ι) Unit
  | [] => pure ()
  | a :: as => do
    a.act place
    actAll place as

def changesOf (o : ι) (as : List (Access ι)) : List Memory.Change :=
  as.filterMap fun
    | .change p c => if p = o then some c else none
    | _ => none

theorem changesOf_change_self {o : ι} {c : Memory.Change} {as : List (Access ι)} :
    changesOf o (.change o c :: as) = c :: changesOf o as := by
  simp [changesOf]

theorem changesOf_change_of_ne {o p : ι} (h : p ≠ o) {c : Memory.Change} {as : List (Access ι)} :
    changesOf o (.change p c :: as) = changesOf o as := by
  simp [changesOf, h]

/-- The changes of one memory are among the accesses. -/
theorem mem_changesOf {o : ι} {as : List (Access ι)} {c : Memory.Change} :
    c ∈ changesOf o as ↔ .change o c ∈ as := by
  rw [changesOf, List.mem_filterMap]
  constructor
  · rintro ⟨a, ha, hc⟩
    split at hc
    · rename_i p d
      split at hc <;> cases hc
      subst p
      exact ha
    · cases hc
  · exact fun h => ⟨_, h, if_pos rfl⟩

theorem changesOf_append (o : ι) (as bs : List (Access ι)) :
    changesOf o (as ++ bs) = changesOf o as ++ changesOf o bs := List.filterMap_append

theorem changesOf_eq_nil {o : ι} {as : List (Access ι)} (h : ∀ c, .change o c ∉ as) : changesOf o as = [] :=
  List.eq_nil_iff_forall_not_mem.2 fun c hc => h c (mem_changesOf.1 hc)

variable {place : Text} {s t u : Shared ι} {as bs : List (Access ι)} {o : ι}

/-- Accesses are made one after the other. -/
theorem exists_of_run_actAll_append (h : (actAll place (as ++ bs)).run s = (.ok (), u)) :
    ∃ t, (actAll place as).run s = (.ok (), t) ∧ (actAll place bs).run t = (.ok (), u) := by
  induction as generalizing s with
  | nil => exact ⟨s, rfl, h⟩
  | cons a as ih =>
    obtain ⟨_, r, hfirst, hrest⟩ := exists_of_run_bind h
    obtain ⟨t, has, hbs⟩ := ih hrest
    exact ⟨t, (run_bind_of_ok hfirst).trans has, hbs⟩

/-- Nothing is stored until a memory is saved. -/
theorem store_of_actAll (h : (actAll place as).run s = (.ok (), t)) (hsave : ∀ o, .save o ∉ as) :
    t.store = s.store := by
  induction as generalizing s with
  | nil =>
    cases h
    rfl
  | cons a as ih =>
    obtain ⟨_, r, hfirst, hrest⟩ := exists_of_run_bind h
    have hr : r.store = s.store := by
      cases a with
      | load p =>
        obtain ⟨m, remarks, -, rfl⟩ := Access.run_load_iff.1 hfirst
        rfl
      | change p c =>
        obtain ⟨m, -, rfl⟩ := Access.run_change_iff.1 hfirst
        rfl
      | save p => exact absurd List.mem_cons_self (hsave p)
    exact (ih hrest fun o ho => hsave o (List.mem_cons_of_mem _ ho)).trans hr

/-- A memory that is not loaded again changes by its own changes. -/
theorem changes_of_actAll (h : (actAll place as).run s = (.ok (), t)) (hload : .load o ∉ as) :
    Memory.applyAll (changesOf o as) (s.memories o) = .ok (t.memories o) := by
  induction as generalizing s with
  | nil =>
    cases h
    rfl
  | cons a as ih =>
    obtain ⟨_, r, hfirst, hrest⟩ := exists_of_run_bind h
    have hrest := ih hrest fun ho => hload (List.mem_cons_of_mem _ ho)
    cases a with
    | load p =>
      have hp : o ≠ p := fun hop => hload (hop ▸ List.mem_cons_self)
      obtain ⟨m, remarks, -, rfl⟩ := Access.run_load_iff.1 hfirst
      rwa [Shared.memories_write_of_ne s hp] at hrest
    | change p c =>
      obtain ⟨m, hm, rfl⟩ := Access.run_change_iff.1 hfirst
      -- the change is the first one of this memory, or it is one of another memory
      by_cases hp : o = p
      · subst hp
        rw [Shared.memories_write_self] at hrest
        rw [changesOf_change_self, Memory.applyAll, hm]
        exact hrest
      · rw [Shared.memories_write_of_ne s hp] at hrest
        rwa [changesOf_change_of_ne (Ne.symm hp)]
    | save p =>
      obtain ⟨store, -, rfl⟩ := Access.run_save_iff.1 hfirst
      exact hrest

end Run

/-! ## Orderly accesses -/

/-- Every memory is loaded once, it is not changed or saved before, and it is saved after its last change.
Some have been `loaded` already. -/
def Orderly (loaded : List ι) : List (Access ι) → Prop
  | [] => True
  | .load o :: as => o ∉ loaded ∧ Orderly (o :: loaded) as
  | .change o _ :: as => o ∈ loaded ∧ .save o ∈ as ∧ Orderly loaded as
  | .save o :: as => o ∈ loaded ∧ Orderly loaded as

/-- Different memories are changed for different tags. -/
def Separate (as : List (Access ι)) : Prop :=
  ∀ o p c d, .change o c ∈ as → .change p d ∈ as → c.source = d.source → o = p

def Access.Keeps (tags : ι → Text) : Access ι → Prop
  | .change o c => c.source = tags o
  | _ => True

theorem separate_of_keeps {as : List (Access ι)} {tags : ι → Text} (htags : tags.Injective)
    (h : ∀ a ∈ as, a.Keeps tags) : Separate as :=
  fun _ _ _ _ hc hd hsource => htags ((h _ hc).symm.trans (hsource.trans (h _ hd)))

namespace Orderly

variable {loaded : List ι} {as bs : List (Access ι)} {o : ι} {c : Memory.Change}

/-- What is behind some of the accesses is orderly as well. -/
theorem suffix (h : Orderly loaded (as ++ bs)) :
    ∃ loaded', Orderly loaded' bs ∧ ∀ o, o ∈ loaded' ↔ o ∈ loaded ∨ .load o ∈ as := by
  induction as generalizing loaded with
  | nil => exact ⟨loaded, h, by simp⟩
  | cons a as ih =>
    cases a with
    | load p =>
      obtain ⟨loaded', hbs, hloaded⟩ := ih h.2
      exact ⟨loaded', hbs, fun o => by simp [hloaded, or_assoc, or_left_comm]⟩
    | change p c =>
      obtain ⟨loaded', hbs, hloaded⟩ := ih h.2.2
      exact ⟨loaded', hbs, fun o => by simp [hloaded]⟩
    | save p =>
      obtain ⟨loaded', hbs, hloaded⟩ := ih h.2
      exact ⟨loaded', hbs, fun o => by simp [hloaded]⟩

/-- A memory that was loaded is not loaded again. -/
theorem load_notMem (h : Orderly loaded as) (ho : o ∈ loaded) : .load o ∉ as := by
  induction as generalizing loaded with
  | nil => exact List.not_mem_nil
  | cons a as ih =>
    cases a with
    | load p =>
      have hop : o ≠ p := fun hop => h.1 (hop ▸ ho)
      simp [hop, ih h.2 (List.mem_cons_of_mem _ ho)]
    | change p c => simp [ih h.2.2 ho]
    | save p => simp [ih h.2 ho]

/-- A memory is saved if it is changed. -/
theorem save_mem (h : Orderly loaded as) (hc : .change o c ∈ as) : .save o ∈ as := by
  induction as generalizing loaded with
  | nil => cases hc
  | cons a as ih =>
    rcases List.mem_cons.1 hc with rfl | hrest
    · exact List.mem_cons_of_mem _ h.2.1
    · cases a with
      | load p => exact List.mem_cons_of_mem _ (ih h.2 hrest)
      | change p d => exact List.mem_cons_of_mem _ (ih h.2.2 hrest)
      | save p => exact List.mem_cons_of_mem _ (ih h.2 hrest)

/-- A memory is loaded before it is saved. -/
theorem load_mem (h : Orderly [] (as ++ .save o :: bs)) : .load o ∈ as := by
  obtain ⟨loaded', hsave, hloaded⟩ := h.suffix
  exact ((hloaded o).1 hsave.1).resolve_left List.not_mem_nil

/-- It is not changed before it is loaded, and not loaded again behind that. -/
theorem load_once (h : Orderly [] (as ++ .load o :: bs)) : (∀ c, .change o c ∉ as) ∧ .load o ∉ bs := by
  refine ⟨fun c hc => ?_, ?_⟩
  · -- whoever is changed was loaded before that, and would be loaded a second time
    obtain ⟨xs, ys, rfl⟩ := List.append_of_mem hc
    rw [List.append_assoc] at h
    obtain ⟨loaded', hchange, -⟩ := h.suffix
    exact hchange.load_notMem hchange.1 (by simp)
  · obtain ⟨loaded', hload, -⟩ := h.suffix
    exact hload.2.load_notMem List.mem_cons_self

end Orderly

section Last

variable {last : ι} {as before between rest : List (Access ι)}

/-- One of the memories is the last one that is saved, after it was loaded in front of some accesses. -/
structure LastSave (last : ι) (before between rest as : List (Access ι)) : Prop where
  accesses : as = before ++ .load last :: (between ++ .save last :: rest)
  unsaved : ∀ o, .save o ∉ rest

/-- There is a last time that a memory is saved. -/
theorem exists_last_save (h : ∃ o, .save o ∈ as) :
    ∃ front last rest, as = front ++ .save last :: rest ∧ ∀ o, .save o ∉ rest := by
  induction as with
  | nil => exact absurd h (by simp)
  | cons a as ih =>
    by_cases hlater : ∃ o, .save o ∈ as
    · obtain ⟨front, last, rest, rfl, hrest⟩ := ih hlater
      exact ⟨a :: front, last, rest, rfl, hrest⟩
    · obtain ⟨o, ho⟩ := h
      rcases List.mem_cons.1 ho with rfl | hlast
      · exact ⟨[], o, as, rfl, fun p hp => hlater ⟨p, hp⟩⟩
      · exact absurd ⟨o, hlast⟩ hlater

theorem Orderly.exists_lastSave (h : Orderly [] as) (hchange : ∃ o c, .change o c ∈ as) :
    ∃ last before between rest, LastSave last before between rest as := by
  obtain ⟨o, c, hc⟩ := hchange
  obtain ⟨front, last, rest, rfl, hrest⟩ := exists_last_save ⟨o, h.save_mem hc⟩
  obtain ⟨before, between, rfl⟩ := List.append_of_mem h.load_mem
  exact ⟨last, before, between, rest, by simp, hrest⟩

/-- It is not changed after it was saved. -/
theorem LastSave.change_notMem (h : LastSave last before between rest as) (horder : Orderly [] as) (o : ι)
    (c : Memory.Change) : .change o c ∉ rest := by
  intro hc
  have hsplit : as = (before ++ .load last :: (between ++ [.save last])) ++ rest := by simp [h.accesses]
  -- behind a change there is a save, but there is none behind the last one
  obtain ⟨loaded', hrest, -⟩ := (hsplit ▸ horder).suffix
  exact h.unsaved o (hrest.save_mem hc)

end Last

/-! ## Changes that can be made -/

namespace Memory

def Change.target : Change → Text × Text
  | .remember tag name _ => (tag, name)
  | .forget tag name => (tag, name)

/-- A change leaves what is remembered of another name or tag. -/
theorem Readable.find_of_apply_of_ne {c : Change} {m m' : Memory} {tag name : Text} (hm : m.Readable)
    (h : c.apply m = .ok m') (hc : c.target ≠ (tag, name)) : m'.find tag name = m.find tag name := by
  by_cases htag : c.source = tag
  · subst htag
    obtain ⟨old, hold, hafter⟩ := hm.find_of_apply h name
    have hsame : c.after name old = old := by
      cases c <;> exact if_neg fun hname => hc (by rw [hname]; rfl)
    rw [hold, hafter, hsame]
  · exact find_congr (get?_of_apply h htag) name

/-- What is remembered under a name is left by changes under others. -/
theorem Readable.find_of_applyAll_of_ne {cs : List Change} {m m' : Memory} {tag name : Text}
    (hm : m.Readable) (h : Memory.applyAll cs m = .ok m') (hcs : ∀ c ∈ cs, c.target ≠ (tag, name)) :
    m'.find tag name = m.find tag name := by
  induction cs generalizing m with
  | nil =>
    cases h
    rfl
  | cons c cs ih =>
    rw [List.forall_mem_cons] at hcs
    obtain ⟨n, hn, hrest⟩ := exists_of_applyAll_cons h
    exact (ih (hm.changes c.changes hn) hrest hcs.2).trans (hm.find_of_apply_of_ne hn hcs.1)

/-- A choice that is remembered, and not changed afterwards, is found. -/
theorem Readable.find_of_remember {cs ds : List Change} {m m' : Memory} {tag name value : Text}
    (hm : m.Readable) (h : Memory.applyAll (cs ++ .remember tag name value :: ds) m = .ok m')
    (hds : ∀ c ∈ ds, c.target ≠ (tag, name)) : m'.find tag name = .ok (some (.text value)) := by
  obtain ⟨n, hn, hrest⟩ := exists_of_applyAll_append h
  obtain ⟨k, hk, hlast⟩ := exists_of_applyAll_cons hrest
  have hnreadable := (hm.applyAll hn).2
  obtain ⟨old, -, hafter⟩ := hnreadable.find_of_apply hk name
  have hkept := (hnreadable.changes (Change.changes _) hk).find_of_applyAll_of_ne hlast hds
  exact hkept.trans (hafter.trans (by rw [Change.after, if_pos rfl]))

def Takes (place : Text) (tags : Text → Prop) (m : Memory) : Prop :=
  m.Fits place ∧ ∀ tag, tags tag → ¬ m.Garbled tag

/-- A memory takes changes of its own tags. -/
theorem Takes.apply {place : Text} {tags : Text → Prop} {m : Memory} (h : m.Takes place tags) {c : Change}
    (hc : tags c.source) : ∃ m', c.apply m = .ok m' ∧ m'.Takes place tags := by
  obtain ⟨m', hm', hclear⟩ := exists_apply_of_clear c (h.2 _ hc)
  refine ⟨m', hm', ⟨(c.changes.place_eq hm').trans h.1.1, h.1.2.changes c.changes hm'⟩, fun tag htag => ?_⟩
  by_cases hsource : c.source = tag
  · exact hsource ▸ hclear
  · rw [Garbled, get?_of_apply hm' hsource]
    exact h.2 tag htag

end Memory

section Run

variable [DecidableEq ι] {place : Text} {tags : Text → Prop} {loaded : List ι} {s : Shared ι}
  {as : List (Access ι)}

/-- The store can be written to, and choices of some tags can be changed in what is stored and in the
memories that were loaded. -/
structure Sound (place : Text) (tags : Text → Prop) (loaded : List ι) (s : Shared ι) : Prop where
  writable : s.store.Writable
  stored : ∃ m remarks, Memory.load place s.store = .ok (m, remarks) ∧ m.Takes place tags
  memories : ∀ o ∈ loaded, (s.memories o).Takes place tags

/-- Writing one memory keeps all of them sound. -/
theorem Sound.write (h : Sound place tags loaded s) {m : Memory} (hm : m.Takes place tags) (o : ι) :
    Sound place tags (o :: loaded) (s.write o m) where
  writable := h.writable
  stored := h.stored
  memories p hp := by
    by_cases hop : p = o
    · subst hop
      rwa [Shared.memories_write_self]
    · rw [Shared.memories_write_of_ne s hop]
      exact h.memories p ((List.mem_cons.1 hp).resolve_left hop)

/-- Orderly accesses can all be done. -/
theorem Sound.exists_run (h : Sound place tags loaded s) (horder : Orderly loaded as)
    (htags : ∀ o c, .change o c ∈ as → tags c.source) :
    ∃ t loaded', (actAll place as).run s = (.ok (), t) ∧ Sound place tags loaded' t := by
  -- on the accesses: each of them keeps the state sound, with one more memory behind a load
  induction as generalizing loaded s with
  | nil => exact ⟨s, loaded, rfl, h⟩
  | cons a as ih =>
    have hbehind {loaded' : List ι} {t : Shared ι} (hfirst : (a.act place).run s = (.ok (), t))
        (ht : Sound place tags loaded' t) (horder' : Orderly loaded' as) :
        ∃ u loaded'', (actAll place (a :: as)).run s = (.ok (), u) ∧ Sound place tags loaded'' u := by
      obtain ⟨u, loaded'', hrest, hu⟩ := ih ht horder' fun o c hc => htags o c (List.mem_cons_of_mem _ hc)
      exact ⟨u, loaded'', (run_bind_of_ok hfirst).trans hrest, hu⟩
    cases a with
    | load o =>
      obtain ⟨m, remarks, hload, hm⟩ := h.stored
      exact hbehind (Access.run_load_iff.2 ⟨m, remarks, hload, rfl⟩) (h.write hm o) horder.2
    | change o c =>
      obtain ⟨m, happly, hm⟩ := (h.memories o horder.1).apply (htags o c List.mem_cons_self)
      have ht := h.write hm o
      refine hbehind (Access.run_change_iff.2 ⟨m, happly, rfl⟩) ?_ horder.2.2
      exact ⟨ht.writable, ht.stored, fun p hp => ht.memories p (List.mem_cons_of_mem _ hp)⟩
    | save o =>
      have hm := h.memories o horder.1
      obtain ⟨store, hsave⟩ := (Store.exists_set?_iff _ Memory.key _).2 h.writable
      refine hbehind (Access.run_save_iff.2 ⟨store, hsave, rfl⟩) ?_ horder.2
      exact ⟨Store.writable_of_set? hsave,
        ⟨s.memories o, [], hm.1.1 ▸ Memory.load_of_save? hm.1.2 hsave, hm⟩, h.memories⟩

end Run

/-! ## What is loaded afterwards -/

section Afterwards

variable [DecidableEq ι] {place tag name value : Text} {s t u : Shared ι} {o : ι}
  {as before between rest : List (Access ι)}

/-- A choice that one of the memories has in the end: it is remembered and not changed afterwards. -/
def Chosen (o : ι) (tag name value : Text) (as : List (Access ι)) : Prop :=
  ∃ cs ds, changesOf o as = cs ++ .remember tag name value :: ds ∧ ∀ c ∈ ds, c.target ≠ (tag, name)

theorem Chosen.mem (h : Chosen o tag name value as) : .change o (.remember tag name value) ∈ as := by
  obtain ⟨cs, ds, hchanges, -⟩ := h
  exact mem_changesOf.1 (hchanges ▸ by simp)

/-- Accesses with the same changes of one of the memories have the same choices of it. -/
theorem Chosen.congr {bs : List (Access ι)} (h : Chosen o tag name value as)
    (hchanges : changesOf o as = changesOf o bs) : Chosen o tag name value bs := by
  rwa [Chosen, ← hchanges]

/-- What is loaded after a memory was saved is what was loaded for it, with its own changes. -/
theorem load_of_actAll (hload : .load o ∉ between)
    (hrun : (actAll place (before ++ .load o :: (between ++ .save o :: rest))).run s = (.ok (), u))
    (hrest : ∀ p, .save p ∉ rest) :
    ∃ t start remarks m, (actAll place before).run s = (.ok (), t) ∧
      Memory.load place t.store = .ok (start, remarks) ∧ start.Readable ∧
      Memory.applyAll (changesOf o between) start = .ok m ∧ Memory.load place u.store = .ok (m, []) := by
  -- in turn: what came before, the load, the changes, and the save
  obtain ⟨t, hbefore, hrun⟩ := exists_of_run_actAll_append hrun
  obtain ⟨_, _, hfirst, hrun⟩ := exists_of_run_bind hrun
  obtain ⟨start, remarks, hstart, rfl⟩ := Access.run_load_iff.1 hfirst
  obtain ⟨v, hbetween, hrun⟩ := exists_of_run_actAll_append hrun
  obtain ⟨_, _, hsecond, hrun⟩ := exists_of_run_bind hrun
  obtain ⟨store, hsave, rfl⟩ := Access.run_save_iff.1 hsecond
  have hchanges := changes_of_actAll hbetween hload
  rw [Shared.memories_write_self] at hchanges
  obtain ⟨hplace, hreadable⟩ := Memory.readable_of_load hstart
  obtain ⟨hplace', hreadable'⟩ := hreadable.applyAll hchanges
  -- a new load reads what was saved last
  have hagain : Memory.load (v.memories o).place store = .ok (v.memories o, []) :=
    Memory.load_of_save? hreadable' hsave
  rw [hplace', hplace] at hagain
  exact ⟨t, start, remarks, v.memories o, hbefore, hstart, hreadable, hchanges,
    store_of_actAll hrun hrest ▸ hagain⟩

/-- A choice of the memory that was saved last is loaded afterwards. -/
theorem Orderly.find_of_chosen {behind : List (Access ι)} (h : Orderly [] (as ++ .save o :: behind))
    (hrun : (actAll place (as ++ .save o :: rest)).run s = (.ok (), u)) (hrest : ∀ p, .save p ∉ rest)
    (hchosen : Chosen o tag name value as) :
    ∃ m, Memory.load place u.store = .ok (m, []) ∧ m.find tag name = .ok (some (.text value)) := by
  obtain ⟨before, between, rfl⟩ := List.append_of_mem h.load_mem
  rw [List.append_assoc, List.cons_append] at h hrun
  obtain ⟨hbefore, hbetween⟩ := h.load_once
  rw [List.mem_append, not_or] at hbetween
  obtain ⟨t, start, remarks, m, -, -, hreadable, hchanges, hload⟩ := load_of_actAll hbetween.1 hrun hrest
  obtain ⟨cs, ds, hsplit, hds⟩ := hchosen
  rw [changesOf_append, changesOf_eq_nil hbefore] at hsplit
  rw [show changesOf o between = _ from hsplit] at hchanges
  exact ⟨m, hload, hreadable.find_of_remember hchanges hds⟩

namespace LastSave

variable {last : ι} {before between : List (Access ι)}

/-- A choice of the memory that is saved last is loaded afterwards. -/
theorem find_of_chosen (h : LastSave last before between rest as) (horder : Orderly [] as)
    (hrun : (actAll place as).run s = (.ok (), u)) (hchosen : Chosen last tag name value as) :
    ∃ m, Memory.load place u.store = .ok (m, []) ∧ m.find tag name = .ok (some (.text value)) := by
  have hsplit : as = (before ++ .load last :: between) ++ .save last :: rest := by simp [h.accesses]
  have hrest : changesOf last (.save last :: rest) = [] :=
    changesOf_eq_nil fun c hc => h.change_notMem horder last c (by simpa using hc)
  have hchanges : changesOf last as = changesOf last (before ++ .load last :: between) := by
    rw [hsplit, changesOf_append, hrest, List.append_nil]
  exact (hsplit ▸ horder).find_of_chosen (hsplit ▸ hrun) h.unsaved (hchosen.congr hchanges)

/-- What it does not change is loaded afterwards as it was loaded for it. -/
theorem load_of_ne {final : Memory} {remarks : Journal} (h : LastSave last before between rest as)
    (horder : Orderly [] as) (hrun : (actAll place as).run s = (.ok (), t))
    (hfinal : Memory.load place t.store = .ok (final, remarks)) :
    ∃ u start remarks, (actAll place before).run s = (.ok (), u) ∧
      Memory.load place u.store = .ok (start, remarks) ∧
      ∀ tag name, (∀ c, .change last c ∈ as → c.source ≠ tag) → final.find tag name = start.find tag name := by
  obtain ⟨rfl, hunsaved⟩ := h
  have hload : .load last ∉ between := fun h => horder.load_once.2 (List.mem_append_left _ h)
  obtain ⟨u, start, remarks, m, hbefore, hstart, -, hchanges, hm⟩ := load_of_actAll hload hrun hunsaved
  cases hfinal.symm.trans hm
  refine ⟨u, start, remarks, hbefore, hstart, fun tag name htag => ?_⟩
  refine find_congr (Memory.get?_of_applyAll hchanges fun c hc => htag c ?_) name
  exact List.mem_append_right _ (List.mem_cons_of_mem _ (List.mem_append_left _ (mem_changesOf.1 hc)))

/-- A choice of another one is there when it is loaded, if the other one was done and saved before. -/
theorem find_of_done {earlier later : List (Access ι)} (h : LastSave last before between rest as)
    (horder : Orderly [] as) (hbefore : (actAll place before).run s = (.ok (), u))
    (hearlier : before = earlier ++ .save o :: later) (hlater : ∀ p, .save p ∉ later)
    (hdone : ∀ c, .change o c ∉ later ++ (between ++ rest)) (hchosen : Chosen o tag name value as) :
    ∃ m, Memory.load place u.store = .ok (m, []) ∧ m.find tag name = .ok (some (.text value)) := by
  have hsplit : as = earlier ++ .save o :: (later ++ .load last :: (between ++ .save last :: rest)) := by
    simp [h.accesses, hearlier]
  have hrest : changesOf o (.save o :: (later ++ .load last :: (between ++ .save last :: rest))) = [] :=
    changesOf_eq_nil fun c hc => hdone c (by simpa using hc)
  have hchanges : changesOf o as = changesOf o earlier := by
    rw [hsplit, changesOf_append, hrest, List.append_nil]
  exact (hsplit ▸ horder).find_of_chosen (hearlier ▸ hbefore) hlater (hchosen.congr hchanges)

end LastSave

/-- Several memories share a place in a store. They are loaded, changed and saved in any order, so that each
is loaded once and saved after its last change, and different memories are changed for different tags. All
of this can be done. A memory that is loaded afterwards has every choice of the memory that was saved last.
It has a choice of another memory exactly if this choice was stored when the one that was saved last was
loaded; in particular, if the other memory was the last one to be saved until then, and was not changed any
more. -/
theorem last_save_decides {m : Memory} {remarks : Journal}
    (hload : Memory.load place s.store = .ok (m, remarks))
    (hclear : ∀ o c, .change o c ∈ as → ¬ m.Garbled c.source) (hwritable : s.store.Writable)
    (horder : Orderly [] as) (hseparate : Separate as) :
    ∃ t final remarks, (actAll place as).run s = (.ok (), t) ∧
      Memory.load place t.store = .ok (final, remarks) ∧
      ((∃ o c, .change o c ∈ as) → ∃ last before between rest, LastSave last before between rest as) ∧
      ∀ last before between rest, LastSave last before between rest as →
        (∀ tag name value, Chosen last tag name value as → final.find tag name = .ok (some (.text value))) ∧
        ∃ u start remarks, (actAll place before).run s = (.ok (), u) ∧
          Memory.load place u.store = .ok (start, remarks) ∧
          ∀ o tag name value, o ≠ last → Chosen o tag name value as →
            (final.find tag name = .ok (some (.text value)) ↔
              start.find tag name = .ok (some (.text value))) ∧
            ∀ earlier later, before = earlier ++ .save o :: later → (∀ p, .save p ∉ later) →
              (∀ c, .change o c ∉ later ++ (between ++ rest)) →
              final.find tag name = .ok (some (.text value)) := by
  have hsound : Sound place (fun tag => ∃ o c, .change o c ∈ as ∧ c.source = tag) [] s :=
    ⟨hwritable, ⟨m, remarks, hload, Memory.readable_of_load hload,
      fun tag ⟨o, c, hc, htag⟩ => htag ▸ hclear o c hc⟩, List.forall_mem_nil _⟩
  obtain ⟨t, _, hrun, ht⟩ := hsound.exists_run horder fun o c hc => ⟨o, c, hc, rfl⟩
  obtain ⟨final, remarks', hfinal, -⟩ := ht.stored
  refine ⟨t, final, remarks', hrun, hfinal, horder.exists_lastSave, fun last before between rest hlast => ?_⟩
  refine ⟨fun tag name value hchosen => ?_, ?_⟩
  · obtain ⟨m', hm', hfound⟩ := hlast.find_of_chosen horder hrun hchosen
    cases hfinal.symm.trans hm'
    exact hfound
  · obtain ⟨u, start, remarks'', hbefore, hstart, hsame⟩ := hlast.load_of_ne horder hrun hfinal
    refine ⟨u, start, remarks'', hbefore, hstart, fun o tag name value ho hchosen => ?_⟩
    have hkept : final.find tag name = start.find tag name :=
      hsame tag name fun c hc hsource => ho (hseparate o last _ c hchosen.mem hc hsource.symm)
    refine ⟨by rw [hkept], fun earlier later hearlier hlater hdone => ?_⟩
    -- the last one has loaded this choice, and saved it again
    obtain ⟨m', hm', hfound⟩ := hlast.find_of_done horder hbefore hearlier hlater hdone hchosen
    cases hstart.symm.trans hm'
    exact hkept.trans hfound

def twoTags (o : Bool) : Text := if o then "?\x7bQ|B,2\x7d".toList else "?\x7bP|A,1\x7d".toList

def choosing (o : Bool) (value : String) : Access Bool :=
  .change o (.remember (twoTags o) "value".toList value.toList)

def nothingShared : Shared Bool := ⟨fun _ => ⟨"chatmacro".toList, []⟩, .memory []⟩

theorem twoTags_injective : twoTags.Injective := by
  intro o p h
  cases o <;> cases p <;> first | rfl | exact absurd h (by decide)

/-- Two memories of which the second one is loaded after the first one was saved: the choices of both are
loaded afterwards. -/
theorem last_save_decides_in_turn :
    let as := [.load false, choosing false "1", .save false, .load true, choosing true "2", .save true]
    Memory.load "chatmacro".toList nothingShared.store = .ok (⟨"chatmacro".toList, []⟩, []) ∧
      Orderly [] as ∧ Separate as ∧
      ∃ t final remarks, (actAll "chatmacro".toList as).run nothingShared = (.ok (), t) ∧
        Memory.load "chatmacro".toList t.store = .ok (final, remarks) ∧
        final.find (twoTags false) "value".toList = .ok (some (.text "1".toList)) ∧
        final.find (twoTags true) "value".toList = .ok (some (.text "2".toList)) := by
  intro as
  have hload : Memory.load "chatmacro".toList nothingShared.store = .ok (⟨"chatmacro".toList, []⟩, []) := rfl
  have horder : Orderly [] as := by simp [as, Orderly, choosing]
  have hseparate : Separate as := separate_of_keeps twoTags_injective (by
    simp [as, choosing, Access.Keeps, Memory.Change.source])
  obtain ⟨t, final, remarks, hrun, hfinal, -, hdecided⟩ :=
    last_save_decides hload (fun _ _ _ => Memory.not_garbled_iff.2 (.inl rfl)) trivial horder hseparate
  -- the second object saves last, and what it loaded is what the first one saved
  obtain ⟨hown, u, start, remarks', -, -, hothers⟩ :=
    hdecided true (as.take 3) [choosing true "2"] [] ⟨rfl, fun _ => List.not_mem_nil⟩
  refine ⟨hload, horder, hseparate, t, final, remarks, hrun, hfinal, ?_, ?_⟩
  · exact (hothers false _ _ _ (by decide) ⟨[], [], rfl, List.forall_mem_nil _⟩).2 (as.take 2) [] rfl
      (fun _ => List.not_mem_nil) (by simp [choosing])
  · exact hown _ _ _ ⟨[], [], rfl, List.forall_mem_nil _⟩

/-- Two memories that are both loaded before one of them is saved: the choice of the one that is saved first
is lost. -/
theorem interleaved_saves_lose_choices :
    let as := [.load false, .load true, choosing false "1", choosing true "2", .save false, .save true]
    Orderly [] as ∧ Separate as ∧ Chosen false (twoTags false) "value".toList "1".toList as ∧
      ∃ t final, (actAll "chatmacro".toList as).run nothingShared = (.ok (), t) ∧
        Memory.load "chatmacro".toList t.store = .ok (final, []) ∧
        final.find (twoTags false) "value".toList = .ok none := by
  intro as
  have horder : Orderly [] as := by simp [as, Orderly, choosing]
  have hseparate : Separate as := separate_of_keeps twoTags_injective (by
    simp [as, choosing, Access.Keeps, Memory.Change.source])
  have hload : Memory.load "chatmacro".toList ((actAll "chatmacro".toList as).run nothingShared).2.store =
      .ok (⟨"chatmacro".toList, [(twoTags true, .object [("value".toList, .text "2".toList)])]⟩, []) := by cbv
  exact ⟨horder, hseparate, ⟨[], [], rfl, List.forall_mem_nil _⟩, _, _, Prod.ext rfl rfl, hload, rfl⟩

end Afterwards

end Prompt

end TabletopChat
