import Mathlib.Data.Prod.Basic
import Mathlib.Logic.Basic

/-!
# Programs that fail, and what they leave behind

`Program σ ε α` is a program over a state `σ`: it aborts (`none`), fails with an error, or
returns a value. A failing program keeps the state it has reached; nothing is undone
unless it is run as a transaction.

Three properties of a program, each with its rules for sequencing:

* `Always R` — however it ends, it leaves a state that `R` relates to the one before;
* `OnError R` — it does where it fails;
* `Infallible` — it never fails.

`transact` runs a program on a working copy of a part of the state and writes the copy
back when it has returned, so that an error leaves the state as it was.
-/

namespace Rollback

/-- A program that may abort, and that fails in the state it has reached. -/
abbrev Program (σ ε α : Type) : Type := ExceptT ε (StateT σ Option) α

namespace Program

variable {σ ε α β : Type}

/-- Where a program ends that starts at a state. -/
def exec (m : Program σ ε α) (s : σ) : Option (Except ε α × σ) := m.run.run s

/-- The program that aborts. -/
def abort : Program σ ε α := ExceptT.mk fun _ => none

/-- Fail, unless a condition holds. -/
def ensure (p : Prop) [Decidable p] (e : ε) : Program σ ε PUnit :=
  if p then pure ⟨⟩ else throw e

/-- The error a program fails with. -/
def failure (m : Program σ ε α) (s : σ) : Option ε :=
  (m.exec s).bind fun r => match r.1 with
    | .error e => some e
    | .ok _ => none

/-! ## Execution -/

section Exec

variable {m : Program σ ε α} {k : α → Program σ ε β} {s t : σ}

@[simp] theorem exec_pure (a : α) (s : σ) :
    (pure a : Program σ ε α).exec s = some (.ok a, s) := rfl

@[simp] theorem exec_throw (e : ε) (s : σ) :
    (throw e : Program σ ε α).exec s = some (.error e, s) := rfl

@[simp] theorem exec_get (s : σ) : (get : Program σ ε σ).exec s = some (.ok s, s) := rfl

@[simp] theorem exec_modify (f : σ → σ) (s : σ) :
    (modify f : Program σ ε PUnit).exec s = some (.ok ⟨⟩, f s) := rfl

@[simp] theorem exec_abort (s : σ) : (abort : Program σ ε α).exec s = none := rfl

@[simp] theorem exec_ensure (p : Prop) [Decidable p] (e : ε) (s : σ) :
    (ensure p e : Program σ ε PUnit).exec s =
      some (if p then .ok ⟨⟩ else .error e, s) := by
  rw [ensure]
  split
  · rfl
  · rfl

theorem failure_eq_some {e : ε} : m.failure s = some e ↔ ∃ t, m.exec s = some (.error e, t) := by
  rw [failure]
  rcases m.exec s with _ | ⟨e' | a, t⟩
  · simp
  · simp
  · simp

/-- A program that aborts ends what it is part of. -/
theorem exec_bind_none (h : m.exec s = none) : (m >>= k).exec s = none := by
  change (m.exec s).bind _ = none
  rw [h, Option.bind_none]

/-- An error ends a sequence. -/
theorem exec_bind_error {e : ε} (h : m.exec s = some (.error e, t)) :
    (m >>= k).exec s = some (.error e, t) := by
  change (m.exec s).bind _ = _
  rw [h, Option.bind_some]
  rfl

/-- A value is passed on, with the state. -/
theorem exec_bind_ok {a : α} (h : m.exec s = some (.ok a, t)) :
    (m >>= k).exec s = (k a).exec t := by
  change (m.exec s).bind _ = _
  rw [h, Option.bind_some]
  rfl

/-- Inversion for a sequence: its first part fails, or it returns and the rest ends it. -/
theorem exec_bind_eq_some {r : Except ε β} (h : (m >>= k).exec s = some (r, t)) :
    (∃ e, m.exec s = some (.error e, t) ∧ r = .error e) ∨
      ∃ a u, m.exec s = some (.ok a, u) ∧ (k a).exec u = some (r, t) := by
  rcases hm : m.exec s with _ | ⟨r' | a, u⟩
  · rw [exec_bind_none hm] at h
    cases h
  · rw [exec_bind_error hm] at h
    cases h
    exact .inl ⟨r', rfl, rfl⟩
  · rw [exec_bind_ok hm] at h
    exact .inr ⟨a, u, rfl, h⟩

end Exec

/-- What a program returns, its state aside. -/
def result (m : Program σ ε α) (s : σ) : Option (Except ε α) := (m.exec s).map (·.1)

section Result

variable {m : Program σ ε α} {k : α → Program σ ε β} {s t : σ}

theorem result_bind_ok {a : α} (h : m.exec s = some (.ok a, t)) :
    (m >>= k).result s = (k a).result t := by
  rw [result, exec_bind_ok h, result]

theorem result_bind_error {e : ε} (h : m.exec s = some (.error e, t)) :
    (m >>= k).result s = some (.error e) := by
  rw [result, exec_bind_error h, Option.map_some]

theorem result_get_bind {k : σ → Program σ ε β} : (get >>= k).result s = (k s).result s :=
  result_bind_ok (exec_get s)

theorem result_ensure_bind (p : Prop) [Decidable p] (e : ε) {k : PUnit → Program σ ε β} :
    (ensure p e >>= k).result s = if p then (k ⟨⟩).result s else some (.error e) := by
  by_cases hp : p
  · rw [if_pos hp]
    exact result_bind_ok (by rw [exec_ensure, if_pos hp])
  · rw [if_neg hp]
    exact result_bind_error (by rw [exec_ensure, if_neg hp])

theorem result_eq_none : m.result s = none ↔ m.exec s = none := Option.map_eq_none_iff

theorem result_eq_some {r : Except ε α} : m.result s = some r ↔ ∃ t, m.exec s = some (r, t) := by
  rw [result, Option.map_eq_some_iff]
  constructor
  · rintro ⟨⟨r', t⟩, h, rfl⟩
    exact ⟨t, h⟩
  · rintro ⟨t, h⟩
    exact ⟨_, h, rfl⟩

end Result

/-! ## What a program leaves behind -/

/-- However the program ends, it leaves a related state. -/
def Always (R : σ → σ → Prop) (m : Program σ ε α) : Prop :=
  ∀ s r t, m.exec s = some (r, t) → R s t

/-- Where the program fails, it leaves a related state. -/
def OnError (R : σ → σ → Prop) (m : Program σ ε α) : Prop :=
  ∀ s e t, m.exec s = some (.error e, t) → R s t

/-- The program does not fail. -/
def Infallible (m : Program σ ε α) : Prop := ∀ s e t, m.exec s ≠ some (.error e, t)

section Rules

variable {R : σ → σ → Prop} {m : Program σ ε α} {k : α → Program σ ε β}

theorem Always.onError (h : Always R m) : OnError R m := fun s e t he => h s (.error e) t he

theorem always_pure (hrefl : ∀ s, R s s) (a : α) : Always R (pure a : Program σ ε α) := by
  rintro s r t ⟨⟩
  exact hrefl s

theorem always_throw (hrefl : ∀ s, R s s) (e : ε) : Always R (throw e : Program σ ε α) := by
  rintro s r t ⟨⟩
  exact hrefl s

theorem always_get (hrefl : ∀ s, R s s) : Always R (get : Program σ ε σ) := by
  rintro s r t ⟨⟩
  exact hrefl s

theorem always_abort : Always R (abort : Program σ ε α) := nofun

theorem always_ensure (hrefl : ∀ s, R s s) (p : Prop) [Decidable p] (e : ε) :
    Always R (ensure p e : Program σ ε PUnit) := by
  intro s r t h
  rw [exec_ensure] at h
  cases h
  exact hrefl s

theorem always_modify {f : σ → σ} (hf : ∀ s, R s (f s)) :
    Always R (modify f : Program σ ε PUnit) := by
  rintro s r t ⟨⟩
  exact hf s

theorem Always.bind (htrans : ∀ s t u, R s t → R t u → R s u) (hm : Always R m)
    (hk : ∀ a, Always R (k a)) : Always R (m >>= k) := by
  intro s r t h
  rcases exec_bind_eq_some h with ⟨e, he, -⟩ | ⟨a, u, ha, hb⟩
  · exact hm s _ t he
  · exact htrans s u t (hm s _ u ha) (hk a u r t hb)

/-- What comes before an error counts as well: it has to leave a related state. -/
theorem OnError.bind (htrans : ∀ s t u, R s t → R t u → R s u) (hm : Always R m)
    (hk : ∀ a, OnError R (k a)) : OnError R (m >>= k) := by
  intro s e t h
  rcases exec_bind_eq_some h with ⟨e', he, -⟩ | ⟨a, u, ha, hb⟩
  · exact hm s _ t he
  · exact htrans s u t (hm s _ u ha) (hk a u e t hb)

/-- What comes after the last point of failure may change anything. -/
theorem OnError.bind_infallible (hm : OnError R m) (hk : ∀ a, Infallible (k a)) :
    OnError R (m >>= k) := by
  intro s e t h
  rcases exec_bind_eq_some h with ⟨e', he, -⟩ | ⟨a, u, -, hb⟩
  · exact hm s e' t he
  · exact absurd hb (hk a u e t)

theorem infallible_abort : Infallible (abort : Program σ ε α) := by
  rintro s e t ⟨⟩

theorem infallible_modify (f : σ → σ) : Infallible (modify f : Program σ ε PUnit) := by
  rintro s e t ⟨⟩

theorem Infallible.bind (hm : Infallible m) (hk : ∀ a, Infallible (k a)) :
    Infallible (m >>= k) := by
  intro s e t h
  rcases exec_bind_eq_some h with ⟨e', he, -⟩ | ⟨a, u, -, hb⟩
  · exact hm s e' t he
  · exact hk a u e t hb

end Rules

/-! ## Transactions -/

/-- What a transaction makes of the end its body has come to. -/
def settle {τ : Type} (write : τ → σ → σ) (commit : Option ε) (s : σ) :
    Except ε α × τ → Except ε α × σ
  | (.error e, _) => (.error e, s)
  | (.ok a, copy) =>
    match commit with
    | some e => (.error e, s)
    | none => (.ok a, write copy s)

/-- Run a program on a working copy of a part of the state. The copy is written back when
the program has returned and `commit` does not fail. -/
def transact {τ : Type} (read : σ → τ) (write : τ → σ → σ) (commit : Option ε)
    (body : Program τ ε α) : Program σ ε α :=
  ExceptT.mk fun s => (body.exec (read s)).map (settle write commit s)

section Transact

variable {τ : Type} {read : σ → τ} {write : τ → σ → σ} {commit : Option ε}
  {body : Program τ ε α}

theorem exec_transact (s : σ) :
    (transact read write commit body).exec s =
      (body.exec (read s)).map (settle write commit s) := rfl

theorem settle_error {s t : σ} {e : ε} {end' : Except ε α × τ}
    (h : settle write commit s end' = (.error e, t)) : t = s := by
  obtain ⟨e' | a, copy⟩ := end'
  · cases h
    rfl
  · cases commit with
    | some e' =>
      cases h
      rfl
    | none => cases h

/-- **A transaction that fails has changed nothing.** -/
theorem onError_transact {R : σ → σ → Prop} (hrefl : ∀ s, R s s) :
    OnError R (transact read write commit body) := by
  intro s e t h
  rw [exec_transact, Option.map_eq_some_iff] at h
  obtain ⟨end', -, hend⟩ := h
  rw [settle_error hend]
  exact hrefl s

/-- An error of the body is that of the transaction. -/
theorem exec_transact_error {s : σ} {e : ε} (h : body.result (read s) = some (.error e)) :
    (transact read write commit body).exec s = some (.error e, s) := by
  obtain ⟨copy, hcopy⟩ := result_eq_some.mp h
  rw [exec_transact, hcopy]
  rfl

/-- A body that returns is committed. -/
theorem exec_transact_ok {s : σ} {a : α} {copy : τ} (h : body.exec (read s) = some (.ok a, copy)) :
    (transact read write commit body).exec s =
      some (settle write commit s (.ok a, copy)) := by
  rw [exec_transact, h]
  rfl

end Transact

end Program

end Rollback
