import Mathlib.Data.Int.ModEq

/-!
# Circular windows of a fixed array

`window buf head count` lists the `count` slots of `buf` from `head` on, indices
modulo the array's length. `window_push` writes the slot just past the window,
`window_pop` takes the first slot off; both hold through the wrap-around, and
`window_push` needs only that the window does not fill the array, which is what
keeps the written slot outside it (`slot_inj`).
-/

namespace LinuxApp.Lib.Ring

variable {α : Type} {n : Nat} [NeZero n]

/-- The contents of the circular window, oldest first. -/
def window (buf : Vector α n) (head count : Nat) : List α :=
  (List.range count).map fun i => buf[Fin.ofNat n (head + i)]

@[simp] theorem length_window (buf : Vector α n) (head count : Nat) :
    (window buf head count).length = count := by simp [window]

@[simp] theorem window_zero (buf : Vector α n) (head : Nat) : window buf head 0 = [] := rfl

omit [NeZero n] in
/-- Distinct offsets below the array's length name distinct slots. -/
theorem slot_inj {head i j : Nat} (hi : i < n) (hj : j < n)
    (h : (head + i) % n = (head + j) % n) : i = j := by
  have hmod : i % n = j % n := Nat.ModEq.add_left_cancel' head h
  rwa [Nat.mod_eq_of_lt hi, Nat.mod_eq_of_lt hj] at hmod

theorem window_push (buf : Vector α n) {head count : Nat} (x : α) (hc : count < n)
    (ht : (head + count) % n < n) :
    window (buf.set ((head + count) % n) x ht) head (count + 1) = window buf head count ++ [x] := by
  unfold window
  rw [List.range_succ, List.map_append, List.map_singleton]
  congr 1
  · apply List.map_congr_left
    intro i hi
    have hlt : i < count := List.mem_range.mp hi
    have hne : (head + count) % n ≠ (head + i) % n := fun e =>
      absurd (slot_inj hc (by omega) e) (by omega)
    exact Vector.getElem_set_ne ht _ hne
  · simp [Fin.ofNat]

theorem window_pop (buf : Vector α n) (head count : Nat) :
    window buf head (count + 1) =
      buf[Fin.ofNat n head] :: window buf ((head + 1) % n) count := by
  unfold window
  rw [List.range_succ_eq_map, List.map_cons, List.map_map]
  congr 1
  apply List.map_congr_left
  intro i _
  have he : Fin.ofNat n (head + (i + 1)) = Fin.ofNat n ((head + 1) % n + i) := by
    apply Fin.ext
    simp only [Fin.ofNat, Nat.mod_add_mod]
    congr 1
    omega
  simp only [Function.comp_apply, Nat.succ_eq_add_one, he]

end LinuxApp.Lib.Ring
