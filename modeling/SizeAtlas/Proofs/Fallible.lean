import Mathlib

/-!
# Computations that may fail

A computation in several steps succeeds exactly if each of them does.

## Main statements

* `bind_eq_ok` — when two steps succeed, and with what.
* `bind_eq_error` — when they fail.
* `foldlM_image` — when a computation over a list is the image of another.
-/

namespace SizeAtlas

variable {ε α β : Type}

/-- A computation with two steps succeeds when both do. -/
theorem bind_eq_ok {x : Except ε α} {f : α → Except ε β} {b : β} :
    x >>= f = .ok b ↔ ∃ a, x = .ok a ∧ f a = .ok b := by
  cases x with
  | error e => simp [bind, Except.bind]
  | ok a => simp [bind, Except.bind]

/-- A computation with two steps fails when the first one does, or the second after it. -/
theorem bind_eq_error {x : Except ε α} {f : α → Except ε β} {e : ε} :
    x >>= f = .error e ↔ x = .error e ∨ ∃ a, x = .ok a ∧ f a = .error e := by
  cases x with
  | error e' => simp [bind, Except.bind]
  | ok a => simp [bind, Except.bind]

/-- What succeeds by what it makes of one result is made of such a result. -/
theorem eq_of_bind_ok {x : Except ε α} {f : α → β} {b : β}
    (h : (x >>= fun a => .ok (f a)) = .ok b) : ∃ a, x = .ok a ∧ f a = b := by
  obtain ⟨a, ha, h⟩ := bind_eq_ok.1 h
  exact ⟨a, ha, by simpa using h⟩

/-- What several computations give together, one of them gave. -/
theorem exists_of_mem_mapM {f : α → Except ε β} {l : List α} {bs : List β}
    (h : l.mapM f = .ok bs) {b : β} (mem : b ∈ bs) : ∃ a ∈ l, f a = .ok b := by
  induction l generalizing bs with
  | nil =>
    cases h
    exact absurd mem List.not_mem_nil
  | cons a l ih =>
    rw [List.mapM_cons] at h
    obtain ⟨first, here, h⟩ := bind_eq_ok.1 h
    obtain ⟨rest, later, h⟩ := bind_eq_ok.1 h
    cases h
    rcases List.mem_cons.1 mem with rfl | mem
    · exact ⟨a, List.mem_cons_self, here⟩
    · obtain ⟨x, hx, found⟩ := ih later mem
      exact ⟨x, List.mem_cons_of_mem _ hx, found⟩

/-- Two computations over a list stay in step if each step of one is the image of that of the
other. -/
theorem foldlM_image {γ : Type} {f : β → α → Except ε β} {g : γ → α → Except ε γ} {φ : β → γ}
    (step : ∀ b a, g (φ b) a = (f b a).map φ) (l : List α) (b : β) :
    l.foldlM g (φ b) = (l.foldlM f b).map φ := by
  induction l generalizing b with
  | nil => rfl
  | cons a l ih =>
    rw [List.foldlM_cons, List.foldlM_cons, step]
    cases f b a with
    | error e => rfl
    | ok b => exact ih b

theorem exists_eq_ok {x : Except ε α} (h : x.isOk = true) : ∃ a, x = .ok a := by
  cases x with
  | error e => simp [Except.isOk, Except.toBool] at h
  | ok a => exact ⟨a, rfl⟩

end SizeAtlas
