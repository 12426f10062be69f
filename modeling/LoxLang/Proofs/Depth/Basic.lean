/-
Module: LoxLang.Proofs.Depth.Basic
Purpose: Steps that are given more room.  Unless the one with less room has to give up, both end in
  the same way; and if it does give up, all that it has shown by then the other shows as well.
Main exports: reached, Further, Deepens, Deepens.bind
-/
import Mathlib.Data.List.Infix

namespace LoxLang

section Deepens

variable {ε σ α β γ : Type}

/-- The state that a step comes to, however it ends. -/
def reached : EStateM.Result ε σ α → σ
  | .ok _ state => state
  | .error _ state => state

/-- What becomes of a step that is given more room: it ends as it did before, or it goes on where
it had to give up with `deep`.  What a state shows is never taken back. -/
inductive Further (deep : ε) (shown : σ → List γ) (start : σ) :
    EStateM.Result ε σ α → EStateM.Result ε σ α → Prop where
  | same {result : EStateM.Result ε σ α} (grows : shown start <+: shown (reached result)) :
      Further deep shown start result result
  | further {stopped : σ} {result : EStateM.Result ε σ α} (grows : shown start <+: shown stopped)
      (covers : shown stopped <+: shown (reached result)) :
      Further deep shown start (.error deep stopped) result

/-- A step and the same step with more room, from any state. -/
def Deepens (deep : ε) (shown : σ → List γ) (step deeper : EStateM ε σ α) : Prop :=
  ∀ state, Further deep shown state (step state) (deeper state)

variable {deep : ε} {shown : σ → List γ}

namespace Further

variable {start later : σ} {result other : EStateM.Result ε σ α}

/-- With more room no less is shown than at the start. -/
theorem grows (further : Further deep shown start result other) :
    shown start <+: shown (reached other) := by
  cases further with
  | same grows => exact grows
  | further grows covers => exact grows.trans covers

theorem after (further : Further deep shown later result other)
    (grows : shown start <+: shown later) : Further deep shown start result other := by
  cases further with
  | same grown => exact .same (grows.trans grown)
  | further grown covers => exact .further (grows.trans grown) covers

/-- What does not give up ends in the same way with more room. -/
theorem eq_of_ne (further : Further deep shown start result other)
    (completes : ∀ stopped, result ≠ .error deep stopped) : other = result := by
  cases further with
  | same => rfl
  | further => exact absurd rfl (completes _)

/-- All that is shown with less room is shown with more. -/
theorem covers (further : Further deep shown start result other) :
    shown (reached result) <+: shown (reached other) := by
  cases further with
  | same => exact List.prefix_refl _
  | further _ covers => exact covers

end Further

namespace Deepens

variable {step deeper : EStateM ε σ α}

theorem pure (value : α) : Deepens deep shown (Pure.pure value : EStateM ε σ α) (Pure.pure value) :=
  fun _ => .same (List.prefix_refl _)

/-- Steps one after the other.  Where the first gives up, the others still only show more. -/
theorem bind {next following : α → EStateM ε σ β} (first : Deepens deep shown step deeper)
    (second : ∀ value, Deepens deep shown (next value) (following value)) :
    Deepens deep shown (step >>= next) (deeper >>= following) := by
  intro state
  have outcome := first state
  simp only [Bind.bind, EStateM.bind]
  generalize step state = result at outcome ⊢
  generalize deeper state = other at outcome ⊢
  cases outcome with
  | same grows =>
      cases result with
      | error stop rest => exact .same grows
      | ok value rest => exact (second value rest).after grows
  | further grows covers =>
      cases other with
      | error stop rest => exact .further grows covers
      | ok value rest => exact .further grows (covers.trans (second value rest).grows)

/-- A choice between two steps. -/
theorem ite {condition : Prop} [Decidable condition] {yes no moreYes moreNo : EStateM ε σ α}
    (whenTrue : Deepens deep shown yes moreYes) (whenFalse : Deepens deep shown no moreNo) :
    Deepens deep shown (if condition then yes else no)
      (if condition then moreYes else moreNo) := by
  split
  · exact whenTrue
  · exact whenFalse

end Deepens

end Deepens

end LoxLang
