/-!
# Act — actions that change a state and may stop early

An action that stops early leaves the state it has reached behind, because what was asked, rolled
and stored until then stays asked, rolled and stored.

- `Abort`     : why an action stops
- `Act`       : an action on a state
- `Act.zoom`  : an action on a part of a state
- `Act.attempt` : the result or the reason to stop of an action, as a result
- `Act.Always`  : what holds between the first and the last state of every run
- `Act.Yields`  : what holds for every result
-/

namespace TabletopChat

inductive Abort
  /-- a die was needed that the source does not have -/
  | diceExhausted
  /-- an expression holds a null character -/
  | nullCharacter
  /-- a term of a roll has no value -/
  | worthlessTerm
  /-- a table has no entry with a weight above zero -/
  | noWeights
  /-- a table has no entry for the number that was drawn -/
  | tableMissed
  /-- stored data is not an object where an object is needed -/
  | noObject
  /-- stored data cannot be changed in the way that is needed -/
  | wrongType
  /-- a number has too many digits to be read -/
  | numeralTooLong
  /-- stored data cannot be written -/
  | notWritable
  /-- a number is too large for the numbers it is combined with -/
  | numberTooLarge
  /-- more calls would be open at once than the host allows -/
  | callsTooDeep
  deriving DecidableEq, Repr

/-- An action on a state: it has a result or stops, and leaves a state in both cases. -/
def Act (ε σ α : Type) : Type := σ → Except ε α × σ

namespace Act

variable {ε δ σ τ α β : Type}

def run (a : Act ε σ α) (s : σ) : Except ε α × σ := a s

/-- Nothing but a result. -/
protected def pure (x : α) : Act ε σ α := fun s => (.ok x, s)

protected def bind (a : Act ε σ α) (f : α → Act ε σ β) : Act ε σ β := fun s =>
  match a s with
  | (.ok x, s') => f x s'
  | (.error e, s') => (.error e, s')

instance : Monad (Act ε σ) where
  pure := Act.pure
  bind := Act.bind

@[simp] theorem run_pure (x : α) (s : σ) : (pure x : Act ε σ α).run s = (.ok x, s) := rfl

theorem run_bind (a : Act ε σ α) (f : α → Act ε σ β) (s : σ) :
    (a >>= f).run s =
      match a.run s with
      | (.ok x, s') => (f x).run s'
      | (.error e, s') => (.error e, s') := rfl

theorem run_bind_of_ok {a : Act ε σ α} {f : α → Act ε σ β} {s s' : σ} {x : α}
    (h : a.run s = (.ok x, s')) : (a >>= f).run s = (f x).run s' := by
  rw [run_bind, h]

theorem run_bind_of_error {a : Act ε σ α} {f : α → Act ε σ β} {s s' : σ} {e : ε}
    (h : a.run s = (.error e, s')) : (a >>= f).run s = (.error e, s') := by
  rw [run_bind, h]

/-- What has a result in the end has one on the way. -/
theorem exists_of_run_bind {a : Act ε σ α} {f : α → Act ε σ β} {s s' : σ} {y : β}
    (h : (a >>= f).run s = (.ok y, s')) :
    ∃ x t, a.run s = (.ok x, t) ∧ (f x).run t = (.ok y, s') := by
  rcases ha : a.run s with ⟨result, t⟩
  cases result with
  | ok x => exact ⟨x, t, rfl, run_bind_of_ok ha ▸ h⟩
  | error e =>
    rw [run_bind_of_error ha] at h
    cases h

theorem exists_of_toOption {r : Except ε α} (h : r.toOption.isSome = true) : ∃ x, r = .ok x := by
  cases r with
  | ok x => exact ⟨x, rfl⟩
  | error e => cases h

/-- An action whose result is not missing has a result. -/
theorem exists_of_run {a : Act ε σ α} {s : σ} (h : (a.run s).1.toOption.isSome = true) :
    ∃ x s', a.run s = (.ok x, s') := by
  obtain ⟨x, hx⟩ := exists_of_toOption h
  exact ⟨x, (a.run s).2, Prod.ext hx rfl⟩

/-- What is computed from a result is known of the result. -/
theorem eq_of_run {a : Act ε σ α} {s s' : σ} {x : α} {f : α → β} {y : β}
    (hrun : a.run s = (.ok x, s')) (hy : (a.run s).1.toOption.map f = some y) : f x = y := by
  rw [hrun] at hy
  exact Option.some.inj hy

/-- An action of whose result something can be computed has such a result. -/
theorem exists_of_run_map {a : Act ε σ α} {s : σ} {f : α → β} {y : β}
    (h : (a.run s).1.toOption.map f = some y) : ∃ x s', a.run s = (.ok x, s') ∧ f x = y := by
  have hsome : (a.run s).1.toOption.isSome = true := by
    rw [← Option.isSome_map, h, Option.isSome_some]
  obtain ⟨x, s', hrun⟩ := exists_of_run hsome
  exact ⟨x, s', hrun, eq_of_run hrun h⟩

def fault? : Except ε α → Option ε
  | .ok _ => none
  | .error e => some e

theorem run_bind_pure (a : Act ε σ α) (f : α → β) (s : σ) :
    (a >>= fun x => pure (f x)).run s = ((a.run s).1.map f, (a.run s).2) := by
  rcases h : a.run s with ⟨result, s'⟩
  cases result with
  | ok x => rw [run_bind_of_ok h]; rfl
  | error e => rw [run_bind_of_error h]; rfl

def stop (e : ε) : Act ε σ α := fun s => (.error e, s)

@[simp] theorem run_stop (e : ε) (s : σ) : (stop e : Act ε σ α).run s = (.error e, s) := rfl

/-- Goes on only if a condition holds. -/
def ensure (p : Bool) (e : ε) : Act ε σ Unit := if p then pure () else stop e

theorem run_ensure (p : Bool) (e : ε) (s : σ) :
    (ensure p e : Act ε σ Unit).run s = (if p then .ok () else .error e, s) := by
  cases p <;> rfl

def get : Act ε σ σ := fun s => (.ok s, s)

@[simp] theorem run_get (s : σ) : (get : Act ε σ σ).run s = (.ok s, s) := rfl

def modify (f : σ → σ) : Act ε σ Unit := fun s => (.ok (), f s)

@[simp] theorem run_modify (f : σ → σ) (s : σ) :
    (modify f : Act ε σ Unit).run s = (.ok (), f s) := rfl

/-- An action on the part of a state that `view` shows and `update` puts back. -/
def zoom (view : σ → τ) (update : τ → σ → σ) (a : Act ε τ α) : Act ε σ α := fun s =>
  match a (view s) with
  | (r, t) => (r, update t s)

def mapError (f : ε → δ) (a : Act ε σ α) : Act δ σ α := fun s =>
  match a s with
  | (.ok x, s') => (.ok x, s')
  | (.error e, s') => (.error (f e), s')

/-- The result, or the reason to stop, of an action that is not to stop what comes after it. -/
def attempt (a : Act ε σ α) : Act δ σ (Except ε α) := fun s =>
  match a s with
  | (r, s') => (.ok r, s')

/-! ## First and last states -/

/-- From every state an action leads to a state that is related to it, whether it has a result or
stops. -/
def Always (R : σ → σ → Prop) (a : Act ε σ α) : Prop := ∀ s, R s (a.run s).2

/-- What holds along two actions holds along the one after the other, if it can be passed on. -/
theorem Always.bind {R : σ → σ → Prop} {a : Act ε σ α} {f : α → Act ε σ β}
    (htrans : ∀ {s t u}, R s t → R t u → R s u) (ha : Always R a) (hf : ∀ x, Always R (f x)) :
    Always R (a >>= f) := by
  intro s
  have hfirst := ha s
  rcases h : a.run s with ⟨result, s'⟩
  rw [h] at hfirst
  cases result with
  | error e => rwa [run_bind_of_error h]
  | ok x =>
    rw [run_bind_of_ok h]
    exact htrans hfirst (hf x s')

/-! ## Results -/

def Yields (P : α → Prop) (a : Act ε σ α) : Prop := ∀ s x s', a.run s = (.ok x, s') → P x

theorem Yields.pure {P : α → Prop} {x : α} (h : P x) : Yields P (pure x : Act ε σ α) := by
  intro s y s' hrun
  cases hrun
  exact h

theorem Yields.trivial (a : Act ε σ α) : Yields (fun _ => True) a := fun _ _ _ _ => True.intro

/-- The result of an action may be used for what follows. -/
theorem Yields.bind {Q : α → Prop} {P : β → Prop} {a : Act ε σ α} {f : α → Act ε σ β}
    (ha : Yields Q a) (hf : ∀ x, Q x → Yields P (f x)) : Yields P (a >>= f) := by
  intro s y s' hrun
  rcases h : a.run s with ⟨result, t⟩
  cases result with
  | error e =>
    rw [run_bind_of_error h] at hrun
    cases hrun
  | ok x =>
    rw [run_bind_of_ok h] at hrun
    exact hf x (ha s x t h) t y s' hrun

end Act

end TabletopChat
