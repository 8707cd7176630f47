import LinuxApp.Lib.System

/-!
# The bounded FIFO

The abstract object behind a ring buffer: a list of at most `cap` messages, with
three completed operations. `put` appends to a list that is not full, `reject`
happens on a full one and changes nothing, `take` removes the head.
`fifo_conserve` is the whole behaviour seen from outside: what was put is what
was taken followed by what is still inside, in order.
-/

namespace LinuxApp.Lib

variable {α : Type}

inductive FifoOp (α : Type) where
  | put (x : α)
  | reject (x : α)
  | take (x : α)
  deriving DecidableEq

def fifo (cap : Nat) : Sys (List α) (FifoOp α) where
  Init xs := xs = []
  Next xs op ys :=
    match op with
    | .put x => xs.length < cap ∧ ys = xs ++ [x]
    | .reject _ => xs.length = cap ∧ ys = xs
    | .take x => xs = x :: ys

namespace FifoOp

def accepted? : FifoOp α → Option α
  | .put x => some x
  | _ => none

def taken? : FifoOp α → Option α
  | .take x => some x
  | _ => none

/-- The messages put, in order. -/
def accepted (ops : List (FifoOp α)) : List α := ops.filterMap accepted?

/-- The messages taken, in order. -/
def taken (ops : List (FifoOp α)) : List α := ops.filterMap taken?

end FifoOp

open FifoOp

theorem fifo_conserve {cap : Nat} {xs ys : List α} {ops : List (FifoOp α)}
    (h : (fifo cap).Runs xs ops ys) : xs ++ accepted ops = taken ops ++ ys := by
  induction h with
  | nil => simp [accepted, taken]
  | @snoc ys zs ops op _ hn ih =>
    simp only [accepted, taken, List.filterMap_append] at ih ⊢
    cases op with
    | put x =>
      obtain ⟨-, rfl⟩ := hn
      simp only [List.filterMap_cons, List.filterMap_nil, accepted?, taken?, List.append_nil]
      rw [← List.append_assoc, ih, List.append_assoc]
    | reject x =>
      obtain ⟨-, rfl⟩ := hn
      simpa [List.filterMap_cons, accepted?, taken?] using ih
    | take x =>
      obtain rfl : ys = x :: zs := hn
      simpa [List.filterMap_cons, accepted?, taken?] using ih

theorem fifo_length_le {cap : Nat} {xs ys : List α} {ops : List (FifoOp α)}
    (h : (fifo cap).Runs xs ops ys) (hx : xs.length ≤ cap) : ys.length ≤ cap := by
  induction h with
  | nil => exact hx
  | @snoc ys zs ops op _ hn ih =>
    cases op with
    | put x => obtain ⟨hlt, rfl⟩ := hn; simp; omega
    | reject x => obtain ⟨-, rfl⟩ := hn; exact ih
    | take x =>
      obtain rfl : ys = x :: zs := hn
      simp at ih; omega

/-- From an empty FIFO, what was taken is a prefix of what was put: no message is
taken twice or out of order. -/
theorem taken_prefix_accepted {cap : Nat} {ys : List α} {ops : List (FifoOp α)}
    (h : (fifo cap).Runs [] ops ys) : taken ops <+: accepted ops :=
  ⟨ys, by simpa using (fifo_conserve h).symm⟩

end LinuxApp.Lib
