import Mathlib.Data.List.Induction

/-!
# Labelled transition systems

A `Sys σ α` has states `σ`, labels `α`, initial states and a labelled step
relation. `Reach` is reachability from an initial state, `Steps` reachability
between two states, and `Runs` a run with its list of labels.

* `Reach.induct`: the invariant rule, with reachability of the pre-state at hand.
* `Steps.descend`: what a falling measure drives a run to.
* `restrict`: the runs all of whose steps meet a condition.
* `exec`: the executable form of a system given by a step function; `Reach.of_exec`
  turns a computed trace into a run.
-/

namespace LinuxApp.Lib

structure Sys (σ α : Type) where
  Init : σ → Prop
  Next : σ → α → σ → Prop

namespace Sys

variable {σ α : Type} {S : Sys σ α}

inductive Reach (S : Sys σ α) : σ → Prop where
  | init {s : σ} : S.Init s → Reach S s
  | next {s t : σ} {a : α} : Reach S s → S.Next s a t → Reach S t

/-- `t` is reached from `s` in zero or more steps. -/
inductive Steps (S : Sys σ α) : σ → σ → Prop where
  | refl (s : σ) : Steps S s s
  | head {s t u : σ} {a : α} : S.Next s a t → Steps S t u → Steps S s u

inductive Runs (S : Sys σ α) : σ → List α → σ → Prop where
  | nil (s : σ) : Runs S s [] s
  | snoc {s t u : σ} {as : List α} {a : α} : Runs S s as t → S.Next t a u →
      Runs S s (as ++ [a]) u

/-- The invariant rule: what holds initially and is kept by every step taken
from a reachable state holds in every reachable state. -/
theorem Reach.induct {I : σ → Prop} (h0 : ∀ s, S.Init s → I s)
    (hstep : ∀ s a t, S.Reach s → I s → S.Next s a t → I t) {s : σ} (h : S.Reach s) : I s := by
  induction h with
  | init hi => exact h0 _ hi
  | next hr hn ih => exact hstep _ _ _ hr ih hn

theorem Reach.steps {s t : σ} (h : S.Reach s) (hs : S.Steps s t) : S.Reach t := by
  induction hs with
  | refl => exact h
  | head hn _ ih => exact ih (.next h hn)

theorem Steps.trans {s t u : σ} (hs : S.Steps s t) (ht : S.Steps t u) : S.Steps s u := by
  induction hs with
  | refl => exact ht
  | head hn _ ih => exact .head hn (ih ht)

/-- What every step from a reachable state keeps is kept along `Steps`. -/
theorem Steps.keep {I : σ → Prop} (hstep : ∀ s a t, S.Reach s → I s → S.Next s a t → I t)
    {s t : σ} (hs : S.Steps s t) (hr : S.Reach s) (hi : I s) : I t := by
  induction hs with
  | refl => exact hi
  | head hn _ ih => exact ih (.next hr hn) (hstep _ _ _ hr hi hn)

/-- The progress rule: where `I` holds and `Q` does not yet, some step keeps `I` and
lowers the measure. -/
theorem Steps.descend {I Q : σ → Prop} (m : σ → Nat)
    (hstep : ∀ s, I s → Q s ∨ ∃ a t, S.Next s a t ∧ I t ∧ m t < m s) {s : σ} (hs : I s) :
    ∃ t, S.Steps s t ∧ Q t := by
  induction hn : m s using Nat.strongRecOn generalizing s with
  | ind n ih =>
    rcases hstep s hs with hq | ⟨a, t, hnext, ht, hlt⟩
    · exact ⟨s, .refl s, hq⟩
    · obtain ⟨u, hu, hq⟩ := ih (m t) (hn ▸ hlt) ht rfl
      exact ⟨u, .head hnext hu, hq⟩

theorem Runs.cons {s t u : σ} {a : α} {as : List α} (hn : S.Next s a t) (h : S.Runs t as u) :
    S.Runs s (a :: as) u := by
  induction h with
  | nil =>
    have hone := Runs.snoc (.nil s) hn
    exact hone
  | snoc _ hu ih => exact .snoc ih hu

theorem Runs.last {s u : σ} {as : List α} {a : α} (h : S.Runs s (as ++ [a]) u) :
    ∃ t, S.Runs s as t ∧ S.Next t a u := by
  generalize hl : as ++ [a] = l at h
  cases h with
  | nil => simp at hl
  | snoc h hn =>
    obtain ⟨rfl, ha⟩ := List.append_inj' hl rfl
    obtain rfl := List.singleton_inj.mp ha
    exact ⟨_, h, hn⟩

theorem Runs.split {s t : σ} {as bs : List α} (h : S.Runs s (as ++ bs) t) :
    ∃ u, S.Runs s as u ∧ S.Runs u bs t := by
  induction bs using List.reverseRecOn generalizing t with
  | nil => exact ⟨t, by simpa using h, .nil t⟩
  | append_singleton bs b ih =>
    rw [← List.append_assoc] at h
    obtain ⟨v, hv, hn⟩ := h.last
    obtain ⟨u, hu, hbs⟩ := ih hv
    exact ⟨u, hu, .snoc hbs hn⟩

/-- The runs whose every step meets `ok`. -/
def restrict (S : Sys σ α) (ok : σ → α → σ → Prop) : Sys σ α where
  Init := S.Init
  Next s a t := S.Next s a t ∧ ok s a t

theorem Reach.of_restrict {ok : σ → α → σ → Prop} {s : σ} (h : (S.restrict ok).Reach s) :
    S.Reach s := by
  induction h with
  | init hi => exact .init hi
  | next _ hn ih => exact .next ih hn.1

/-! ## Systems given by a step function -/

def ofStep (Init : σ → Prop) (step : σ → α → Option σ) : Sys σ α where
  Init := Init
  Next s a t := step s a = some t

/-- Run the listed labels in order. -/
def exec (step : σ → α → Option σ) : σ → List α → Option σ
  | s, [] => some s
  | s, a :: as => (step s a).bind (exec step · as)

/-- A computed trace is a run of every system that makes its steps. -/
theorem Reach.of_exec {step : σ → α → Option σ} :
    ∀ {as : List α} {s t : σ}, S.Reach s → exec step s as = some t →
      (∀ a ∈ as, ∀ s t, step s a = some t → S.Next s a t) → S.Reach t
  | [], s, t, hr, h, _ => by
    simp only [exec, Option.some.injEq] at h
    exact h ▸ hr
  | a :: as, s, t, hr, h, hn => by
    simp only [exec, Option.bind_eq_some_iff] at h
    obtain ⟨u, hu, ht⟩ := h
    have hnext := hn a (List.mem_cons_self ..) s u hu
    exact of_exec (.next hr hnext) ht fun b hb => hn b (List.mem_cons_of_mem _ hb)

/-- A computed trace that ends in `P` reaches `P`. -/
theorem Reach.exists_exec {step : σ → α → Option σ} {P : σ → Prop} {s : σ} (as : List α)
    (hr : S.Reach s) (hn : ∀ a ∈ as, ∀ s t, step s a = some t → S.Next s a t)
    (h : ∃ t ∈ exec step s as, P t) : ∃ t, S.Reach t ∧ P t := by
  obtain ⟨t, ht, hp⟩ := h
  exact ⟨t, of_exec hr ht hn, hp⟩

theorem runs_exec {Init : σ → Prop} {step : σ → α → Option σ} :
    ∀ {as : List α} {s t : σ}, exec step s as = some t → (ofStep Init step).Runs s as t
  | [], s, t, h => by
    simp only [exec, Option.some.injEq] at h
    exact h ▸ .nil s
  | a :: as, s, t, h => by
    simp only [exec, Option.bind_eq_some_iff] at h
    obtain ⟨u, hu, ht⟩ := h
    exact .cons (show (ofStep Init step).Next s a u from hu) (runs_exec ht)

theorem reach_exec {Init : σ → Prop} {step : σ → α → Option σ} {s : σ} {as : List α}
    (hi : Init s) (h : (exec step s as).isSome) :
    (ofStep Init step).Reach ((exec step s as).get h) :=
  Reach.of_exec (.init hi) (Option.some_get h).symm fun _ _ _ _ hn => hn

end Sys

end LinuxApp.Lib
