import LinuxApp.Lib.System
import Mathlib.Algebra.BigOperators.Group.Finset.Basic
import Mathlib.Algebra.Order.BigOperators.Group.Finset

/-!
# What a run can cost

The potential method on labelled runs: a step may cost something only if the
potential falls by as much, or if its label brings that much in, or if the state has
earned it (`Runs.earn`, `Runs.pay`). `total` is the sum over the labels of a run. `sum_pay`
is the step lemma of a potential that is a sum over threads of which one moves.
-/

namespace LinuxApp.Lib

/-- The sum of `cost` over the labels of a run. -/
def total {α : Type} (cost : α → Nat) : List α → Nat
  | [] => 0
  | a :: as => cost a + total cost as

section Total

variable {α : Type} (cost : α → Nat)

@[simp] theorem total_nil : total cost [] = 0 := rfl

theorem total_snoc (as : List α) (a : α) : total cost (as ++ [a]) = total cost as + cost a := by
  induction as with
  | nil => simp [total]
  | cons b as ih =>
    simp only [List.cons_append, total, ih]
    omega

/-- Where each label of a kind costs the same. -/
theorem total_eq_mul {k : Nat} {p : α → Bool} (h : ∀ a, cost a = if p a then k else 0)
    (as : List α) : total cost as = k * as.countP p := by
  induction as with
  | nil => rfl
  | cons a as ih =>
    rw [total, ih, h, List.countP_cons]
    cases p a with
    | true => simp only [if_true, Nat.mul_add, Nat.mul_one, Nat.add_comm]
    | false => simp

variable {cost}

theorem total_add {f g : α → Nat} (h : ∀ a, cost a = f a + g a) (as : List α) :
    total cost as = total f as + total g as := by
  induction as with
  | nil => rfl
  | cons a as ih =>
    rw [total, total, total, ih, h]
    omega

end Total

namespace Sys

variable {σ α : Type} {S : Sys σ α}

/-- The potential rule: if every step pays for its cost out of the potential, what its
label brings in and what it adds to the earnings, so does a run. -/
theorem Runs.earn {I : σ → Prop} (pot earned : σ → Nat) (cost gain : α → Nat)
    (hstep : ∀ s a t, I s → S.Next s a t →
      I t ∧ pot t + cost a + earned s ≤ pot s + gain a + earned t)
    {s t : σ} {as : List α} (hs : I s) (h : S.Runs s as t) :
    I t ∧ pot t + total cost as + earned s ≤ pot s + total gain as + earned t := by
  induction h with
  | nil => exact ⟨hs, Nat.le_refl _⟩
  | snoc _ hn ih =>
    obtain ⟨hi, hle⟩ := ih
    obtain ⟨hi', hpay⟩ := hstep _ _ _ hi hn
    refine ⟨hi', ?_⟩
    rw [total_snoc, total_snoc]
    omega

theorem Runs.pay {I : σ → Prop} (pot : σ → Nat) (cost gain : α → Nat)
    (hstep : ∀ s a t, I s → S.Next s a t → I t ∧ pot t + cost a ≤ pot s + gain a)
    {s t : σ} {as : List α} (hs : I s) (h : S.Runs s as t) :
    I t ∧ pot t + total cost as ≤ pot s + total gain as :=
  Runs.earn pot (fun _ => 0) cost gain hstep hs h

/-- The budget rule: a list that steps only append to, each item paid for out of a budget
that nothing refills. -/
theorem Steps.grow {ι : Type} {I : σ → Prop} (f : σ → List ι) (budget : σ → Nat)
    (hstep : ∀ s a t, I s → S.Next s a t →
      I t ∧ ∃ xs, f t = f s ++ xs ∧ xs.length + budget t ≤ budget s)
    {s t : σ} (hs : I s) (h : S.Steps s t) :
    I t ∧ ∃ xs, f t = f s ++ xs ∧ xs.length + budget t ≤ budget s := by
  induction h with
  | refl s => exact ⟨hs, [], (List.append_nil _).symm, by simp⟩
  | head hn _ ih =>
    obtain ⟨hi, xs, hf, hle⟩ := hstep _ _ _ hs hn
    obtain ⟨hi', ys, hf', hle'⟩ := ih hi
    refine ⟨hi', xs ++ ys, ?_, ?_⟩
    · rw [hf', hf, List.append_assoc]
    · rw [List.length_append]
      omega

end Sys

/-- A sum over threads of which `t` pays `d` out of its own share and the gain `e`, and
a further `k` for each of the others, whose shares may rise by that. -/
theorem sum_pay {T : Type} [Fintype T] [DecidableEq T] {f g : T → Nat} {t : T} {d e k : Nat}
    (ht : g t + d + k * Fintype.card T ≤ f t + e) (hu : ∀ u, u ≠ t → g u ≤ f u + k) :
    ∑ u, g u + d ≤ ∑ u, f u + e := by
  have hrest : ∑ u ∈ Finset.univ.erase t, g u ≤ ∑ u ∈ Finset.univ.erase t, (f u + k) :=
    Finset.sum_le_sum fun u hm => hu u (Finset.ne_of_mem_erase hm)
  have hcard : (Finset.univ.erase t).card * k ≤ k * Fintype.card T := by
    rw [Nat.mul_comm]
    exact Nat.mul_le_mul_left k (Finset.card_le_univ _)
  rw [Finset.sum_add_distrib, Finset.sum_const, Nat.nsmul_eq_mul] at hrest
  rw [← Finset.add_sum_erase _ g (Finset.mem_univ t),
    ← Finset.add_sum_erase _ f (Finset.mem_univ t)]
  omega

end LinuxApp.Lib
