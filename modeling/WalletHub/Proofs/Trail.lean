import WalletHub.Event

/-!
# Trails of notices

A relation `R a ns b` says that one change leads from `a` to `b` and is told as the notices `ns`. A
trail is a row of such changes with all that is told on the way. What a record can do is stated once
as a relation of single changes; every operation is then shown to be a trail, and every property of
whole runs follows from what one change does.
-/
namespace WalletHub

/-- A row of changes, with everything told on the way. -/
inductive Trail {σ : Type} (R : σ → List Notice → σ → Prop) : σ → List Notice → σ → Prop
  | still (a : σ) : Trail R a [] a
  | step {a b c : σ} {ns ms : List Notice} : R a ns b → Trail R b ms c → Trail R a (ns ++ ms) c

namespace Trail

variable {σ : Type} {R : σ → List Notice → σ → Prop} {a b c : σ} {ns ms : List Notice}

theorem one (h : R a ns b) : Trail R a ns b := by
  simpa using Trail.step h (.still b)

theorem trans (h : Trail R a ns b) (h' : Trail R b ms c) : Trail R a (ns ++ ms) c := by
  induction h with
  | still => exact h'
  | step hr _ ih => rw [List.append_assoc]; exact .step hr (ih h')

/-- What every single change keeps, a trail keeps. -/
theorem invariant {P : σ → Prop} (keep : ∀ {a ns b}, R a ns b → P a → P b)
    (h : Trail R a ns b) (ha : P a) : P b := by
  induction h with
  | still => exact ha
  | step hr _ ih => exact ih (keep hr ha)

/-- A property of a state and of all that was told so far, kept by every single change from a
state with `P`, is kept by a trail. -/
theorem told {P : σ → Prop} {Q : List Notice → σ → Prop}
    (keep : ∀ {a ns b}, R a ns b → P a → P b)
    (tell : ∀ {a ns b s}, R a ns b → P a → Q s a → Q (s ++ ns) b)
    (h : Trail R a ns b) (ha : P a) {s : List Notice} (hs : Q s a) : Q (s ++ ns) b := by
  induction h generalizing s with
  | still => simpa using hs
  | step hr _ ih => rw [← List.append_assoc]; exact ih (keep hr ha) (tell hr ha hs)

end Trail
end WalletHub
