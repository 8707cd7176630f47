import LinuxApp.Lib.System

/-!
# Forward simulation

`Sim C A R`: the states of a concrete system `C` and of an abstract one `A` are related
by `R` at the start, and every step of `C` between reachable states is a stutter or one
step of `A`. What holds of every reachable state of `A` then holds of every reachable
state of `C` in the terms of `R`, also when both are held to runs whose states meet a
condition (`Sim.restrict`).
-/

namespace LinuxApp.Lib

namespace Sys

variable {σ τ α β : Type}

structure Sim (C : Sys σ α) (A : Sys τ β) (R : σ → τ → Prop) : Prop where
  init : ∀ s, C.Init s → ∃ u, A.Init u ∧ R s u
  step : ∀ s a t u, C.Reach s → A.Reach u → R s u → C.Next s a t →
    R t u ∨ ∃ b v, A.Next u b v ∧ R t v

section Rules

variable {C : Sys σ α} {A : Sys τ β} {R : σ → τ → Prop}

theorem Sim.reach (h : Sim C A R) {s : σ} (hs : C.Reach s) : ∃ u, A.Reach u ∧ R s u := by
  induction hs with
  | init hi =>
    obtain ⟨u, hu, hr⟩ := h.init _ hi
    exact ⟨u, .init hu, hr⟩
  | next hs hn ih =>
    obtain ⟨u, hu, hr⟩ := ih
    rcases h.step _ _ _ _ hs hu hr hn with hr' | ⟨b, v, hv, hr'⟩
    · exact ⟨u, hu, hr'⟩
    · exact ⟨v, .next hu hv, hr'⟩

theorem Sim.restrict (h : Sim C A R) {P : τ → Prop} {Q : σ → Prop}
    (hPQ : ∀ s u, R s u → Q s → P u) :
    Sim (C.restrict fun _ _ t => Q t) (A.restrict fun _ _ v => P v) R where
  init := h.init
  step := by
    rintro s a t u hs hu hr ⟨hn, ht⟩
    rcases h.step s a t u hs.of_restrict hu.of_restrict hr hn with hr' | ⟨b, v, hv, hr'⟩
    · exact .inl hr'
    · exact .inr ⟨b, v, ⟨hv, hPQ t v hr' ht⟩, hr'⟩

end Rules

end Sys

end LinuxApp.Lib
