/-
Outcomes. A computation that may fail goes on with what its first part
comes to, so a success says that all parts went well
(`Except.exists_of_bind_eq_ok`) and a failure which part failed first. The
second is followed here without the values: `failure?` is what an outcome
failed with, and of two parts the first failure counts (`failure?_bind`).
Over a list, success is one value for each element (`mapM_eq_ok_iff`) and
failure is that of the first element that has one (`mapM_of_first_error`).
-/
import Mathlib.Data.List.Forall2

namespace LayerPage

variable {ε α β : Type}

-- ========================================================== one outcome

/-- A result that was changed afterwards was there before. -/
theorem Except.exists_of_map_eq_ok {g : α → β} {outcome : Except ε α} {b : β}
    (h : outcome.map g = .ok b) : ∃ a, outcome = .ok a ∧ g a = b := by
  cases outcome with
  | error e => cases h
  | ok a => exact ⟨a, rfl, Except.ok.inj h⟩

/-- If two parts go well one after the other, then the first does, and the
second with what that came to. -/
theorem Except.exists_of_bind_eq_ok {first : Except ε β}
    {rest : β → Except ε α} {a : α} (h : first >>= rest = .ok a) :
    ∃ b, first = .ok b ∧ rest b = .ok a := by
  cases first with
  | error e => cases h
  | ok b => exact ⟨b, rfl, h⟩

/-- What an outcome failed with. -/
def failure? : Except ε α → Option ε
  | .error e => some e
  | .ok _ => none

/-- The failure of an outcome is the error it is. -/
theorem failure?_eq_some_iff {outcome : Except ε α} {e : ε} :
    failure? outcome = some e ↔ outcome = .error e := by
  cases outcome <;> simp [failure?]

theorem failure?_eq_none_iff {outcome : Except ε α} :
    failure? outcome = none ↔ ∃ a, outcome = .ok a := by
  cases outcome <;> simp [failure?]

/-- Of two parts, the first that fails decides. What the second one fails
with must not depend on what the first came to. -/
theorem failure?_bind {first : Except ε β} {next : β → Except ε α}
    {later : Option ε} (h : ∀ b, failure? (next b) = later) :
    failure? (first >>= next) = (failure? first).or later := by
  cases first with
  | error e => rfl
  | ok b => exact h b

/-- What is made of a result at the end does not fail any more. -/
theorem failure?_bind_pure (first : Except ε β) (f : β → α) :
    failure? (first >>= fun b => pure (f b)) = failure? first := by
  cases first <;> rfl

-- ======================================================= lists of them

section

variable {f : α → Except ε β}

/-- Going through a list succeeds with a value for each element. -/
theorem mapM_eq_ok_iff {xs : List α} {ys : List β} :
    xs.mapM f = .ok ys ↔ List.Forall₂ (fun x y => f x = .ok y) xs ys := by
  induction xs generalizing ys with
  | nil =>
      rw [List.mapM_nil, List.forall₂_nil_left_iff]
      constructor
      · intro h
        exact (Except.ok.inj h).symm
      · intro h
        exact congrArg Except.ok h.symm
  | cons x xs ih =>
      rw [List.mapM_cons, List.forall₂_cons_left_iff]
      cases hx : f x with
      | error e => simp [bind, Except.bind]
      | ok y =>
          cases hxs : xs.mapM f with
          | error e => simp [bind, Except.bind, ← ih, hxs]
          | ok tail =>
              simp [bind, Except.bind, pure, Except.pure, ← ih, hxs, eq_comm]

/-- The first element that fails decides, whatever follows it. -/
theorem mapM_of_first_error {before behind : List α} {x : α} {e : ε}
    (hbefore : ∀ a ∈ before, ∃ y, f a = .ok y) (hx : f x = .error e) :
    (before ++ x :: behind).mapM f = .error e := by
  induction before with
  | nil =>
      rw [List.nil_append, List.mapM_cons, hx]
      rfl
  | cons a before ih =>
      obtain ⟨y, hy⟩ := hbefore a List.mem_cons_self
      rw [List.cons_append, List.mapM_cons, hy,
        ih fun b hb => hbefore b (List.mem_cons_of_mem a hb)]
      rfl

/-- A value for each element, chosen at once or one by one. -/
theorem exists_forall₂_iff {R : α → β → Prop} {P : β → Prop} {xs : List α} :
    (∃ ys, List.Forall₂ R xs ys ∧ ∀ y ∈ ys, P y)
      ↔ ∀ x ∈ xs, ∃ y, R x y ∧ P y := by
  induction xs with
  | nil => simp
  | cons x xs ih =>
      rw [List.forall_mem_cons, ← ih]
      constructor
      · intro h
        obtain ⟨ys, hys, hP⟩ := h
        cases hys with
        | cons hy htail =>
            obtain ⟨hPy, hPtail⟩ := List.forall_mem_cons.1 hP
            exact ⟨⟨_, hy, hPy⟩, _, htail, hPtail⟩
      · intro h
        obtain ⟨⟨y, hy, hPy⟩, ys, htail, hPtail⟩ := h
        exact ⟨y :: ys, .cons hy htail, List.forall_mem_cons.2 ⟨hPy, hPtail⟩⟩

end

end LayerPage
