import Mathlib.Algebra.Ring.Nat
import Mathlib.Data.List.Basic

/-!
# Counters and the logs they count

`tally reset p log` is the number of entries of `log` that meet `p` and come after
the last one that meets `reset`. A 32-bit counter `Counts` them if it holds that
number modulo 2^32; one that every entry clears, advances or leaves does
(`Counts.snoc`). `over_iff` and `under_iff` say when a counter that advances too
often, or not often enough, is right all the same.
-/

namespace LinuxApp.Lib

variable {α : Type} {reset p q r : α → Bool} {log : List α} {e : α} {n : UInt32}

/-- The entries after the last one that resets. -/
def since (reset : α → Bool) (log : List α) : List α :=
  (log.reverse.takeWhile fun e => !reset e).reverse

def tally (reset p : α → Bool) (log : List α) : Nat := (since reset log).countP p

/-- A counter after one more entry. -/
def advance (reset p : α → Bool) (n : UInt32) (e : α) : UInt32 :=
  if reset e then 0 else if p e then n + 1 else n

def Counts (reset p : α → Bool) (log : List α) (n : UInt32) : Prop :=
  n.toNat = tally reset p log % 2 ^ 32

instance (log : List α) (n : UInt32) : Decidable (Counts reset p log n) :=
  inferInstanceAs (Decidable (_ = _))

theorem mem_of_mem_since (h : e ∈ since reset log) : e ∈ log := by
  rw [since, List.mem_reverse] at h
  exact List.mem_reverse.mp ((List.takeWhile_sublist _).mem h)

theorem since_snoc_reset (h : reset e = true) : since reset (log ++ [e]) = [] := by
  simp [since, h]

theorem since_snoc (h : reset e = false) : since reset (log ++ [e]) = since reset log ++ [e] := by
  simp [since, h]

theorem tally_snoc :
    tally reset p (log ++ [e]) = if reset e then 0 else tally reset p log + (p e).toNat := by
  unfold tally
  cases h : reset e with
  | true => rw [since_snoc_reset h]; rfl
  | false =>
    rw [since_snoc h, List.countP_append, List.countP_singleton]
    cases p e <;> rfl

theorem countP_split {l : List α} (h : ∀ e ∈ l, (p e).toNat = (q e).toNat + (r e).toNat) :
    l.countP p = l.countP q + l.countP r := by
  induction l with
  | nil => rfl
  | cons e l ih =>
    have he := h e (List.mem_cons_self ..)
    have hrest := ih fun x hx => h x (List.mem_cons_of_mem _ hx)
    simp only [List.countP_cons]
    cases hp : p e <;> cases hq : q e <;> cases hr : r e <;> simp_all <;> omega

/-- Entries of two kinds that exclude each other are counted apart. -/
theorem tally_split (h : ∀ e ∈ log, (p e).toNat = (q e).toNat + (r e).toNat) :
    tally reset p log = tally reset q log + tally reset r log :=
  countP_split fun e he => h e (mem_of_mem_since he)

theorem tally_eq_zero (h : ∀ e ∈ log, p e = false) : tally reset p log = 0 := by
  rw [tally, List.countP_eq_zero]
  intro e he
  simp [h e (mem_of_mem_since he)]

namespace Counts

theorem nil : Counts reset p [] 0 := rfl

theorem eq_ofNat (h : Counts reset p log n) : n = .ofNat (tally reset p log) := by
  unfold Counts at h
  rw [← UInt32.toNat_inj, h, UInt32.toNat_ofNat']

/-- One entry keeps a counter that it clears, advances or leaves. -/
theorem snoc (h : Counts reset p log n) : Counts reset p (log ++ [e]) (advance reset p n e) := by
  unfold Counts advance at *
  rw [tally_snoc]
  cases reset e with
  | true => rfl
  | false =>
    cases p e with
    | true => simp [h]
    | false => simpa using h

/-- A counter of `p` counts `q`, part of `p`, just if the rest of `p` does not show. -/
theorem over_iff (h : Counts reset p log n)
    (hs : ∀ e ∈ log, (p e).toNat = (q e).toNat + (r e).toNat) :
    Counts reset q log n ↔ 2 ^ 32 ∣ tally reset r log := by
  unfold Counts at *
  rw [h, tally_split hs]
  omega

/-- A counter of `p` counts `q`, which `p` is part of, just if the rest of `q` does not
show. -/
theorem under_iff (h : Counts reset p log n)
    (hs : ∀ e ∈ log, (q e).toNat = (p e).toNat + (r e).toNat) :
    Counts reset q log n ↔ 2 ^ 32 ∣ tally reset r log := by
  unfold Counts at *
  rw [h, tally_split hs]
  omega

end Counts

end LinuxApp.Lib
