import LinuxApp.Lib.System
import Mathlib.Data.List.Perm.Basic

/-!
# A bounded pipeline

What a store between a source and a sink is for: an item arrives, is accepted into a
buffer of `cap` places or, only if that is full, dropped, is taken out of it oldest
first and displayed. One item may stand before the buffer and one after it.

`Shuffle zs xs ys` says that `zs` is an interleaving of `xs` and `ys`. By `Pipe.Inv` the
items past the place before the buffer are an interleaving of those that went into it
and those dropped; `pipeline_lossless`: nothing is dropped while no more than `cap` items
are between arrival and the hand of the sink.
-/

namespace LinuxApp.Lib

/-- `zs` is an interleaving of `xs` and `ys`. -/
inductive Shuffle {α : Type} : List α → List α → List α → Prop where
  | nil : Shuffle [] [] []
  | left {zs xs ys : List α} (x : α) : Shuffle zs xs ys → Shuffle (zs ++ [x]) (xs ++ [x]) ys
  | right {zs xs ys : List α} (y : α) : Shuffle zs xs ys → Shuffle (zs ++ [y]) xs (ys ++ [y])

namespace Shuffle

variable {α : Type} {xs ys zs : List α}

theorem sublist_left (h : Shuffle zs xs ys) : xs.Sublist zs := by
  induction h with
  | nil => exact .slnil
  | left x _ ih => exact ih.append_right [x]
  | right y _ ih => exact ih.trans (List.sublist_append_left _ _)

theorem length_eq (h : Shuffle zs xs ys) : zs.length = xs.length + ys.length := by
  induction h with
  | nil => rfl
  | left x _ ih | right y _ ih =>
    simp only [List.length_append, List.length_singleton, ih]
    omega

theorem eq_of_nil (h : Shuffle zs xs []) : zs = xs := by
  have hlen := h.length_eq
  exact (h.sublist_left.eq_of_length (by simpa using hlen.symm)).symm

end Shuffle

structure Pipe (α : Type) where
  arrived : List α
  /-- Arrived and not yet offered to the buffer. -/
  held : Option α
  queued : List α
  /-- Taken and not yet displayed. -/
  hand : Option α
  displayed : List α
  dropped : List α

inductive PipeEvent (α : Type) where
  | arrive (x : α)
  | accept
  | drop
  | take
  | display

namespace Pipe

variable {α : Type}

def empty : Pipe α := ⟨[], none, [], none, [], []⟩

/-- What the sink has taken out of the buffer. -/
def taken (p : Pipe α) : List α := p.displayed ++ p.hand.toList

inductive Moves (cap : Nat) (p : Pipe α) : PipeEvent α → Pipe α → Prop where
  | arrive {x : α} : p.held = none →
      Moves cap p (.arrive x) { p with held := some x, arrived := p.arrived ++ [x] }
  | accept {x : α} : p.held = some x → p.queued.length < cap →
      Moves cap p .accept { p with held := none, queued := p.queued ++ [x] }
  | drop {x : α} : p.held = some x → p.queued.length = cap →
      Moves cap p .drop { p with held := none, dropped := p.dropped ++ [x] }
  | take {x : α} {rest : List α} : p.hand = none → p.queued = x :: rest →
      Moves cap p .take { p with hand := some x, queued := rest }
  | display {x : α} : p.hand = some x →
      Moves cap p .display { p with hand := none, displayed := p.displayed ++ [x] }

end Pipe

def pipeline {α : Type} (cap : Nat) : Sys (Pipe α) (PipeEvent α) := ⟨(· = .empty), Pipe.Moves cap⟩

namespace Pipe

variable {α : Type} {cap : Nat} {p p' : Pipe α} {e : PipeEvent α}

structure Inv (cap : Nat) (p : Pipe α) : Prop where
  bound : p.queued.length ≤ cap
  shuffle : ∃ settled, p.arrived = settled ++ p.held.toList ∧
    Shuffle settled (p.taken ++ p.queued) p.dropped

theorem Inv.step (hi : p.Inv cap) (h : Moves cap p e p') : p'.Inv cap := by
  obtain ⟨hb, settled, harr, hsh⟩ := hi
  cases h with
  | arrive hheld =>
    rw [hheld, Option.toList_none, List.append_nil] at harr
    exact ⟨hb, settled, by rw [harr]; rfl, hsh⟩
  | @accept x hheld hlt =>
    refine ⟨by rw [List.length_append]; exact hlt, settled ++ [x], ?_, ?_⟩
    · rw [harr, hheld]
      simp
    · have hl := Shuffle.left x hsh
      rwa [List.append_assoc] at hl
  | @drop x hheld _ =>
    refine ⟨hb, settled ++ [x], ?_, .right x hsh⟩
    rw [harr, hheld]
    simp
  | @take x rest hhand hq =>
    have heq : p.taken ++ p.queued = p.displayed ++ [x] ++ rest := by simp [taken, hhand, hq]
    rw [hq, List.length_cons] at hb
    rw [heq] at hsh
    exact ⟨Nat.le_of_succ_le hb, settled, harr, hsh⟩
  | @display x hhand =>
    have heq : p.taken = p.displayed ++ [x] ++ [] := by simp [taken, hhand]
    rw [heq] at hsh
    exact ⟨hb, settled, harr, hsh⟩

/-- What is on its way when an item is dropped. -/
theorem Inv.backlog (hi : p.Inv cap) {x : α} (hheld : p.held = some x) :
    p.arrived.length = p.taken.length + p.queued.length + p.dropped.length + 1 := by
  obtain ⟨-, settled, harr, hsh⟩ := hi
  rw [harr, hheld, List.length_append, hsh.length_eq, List.length_append]
  rfl

end Pipe

section Results

variable {α : Type} {cap : Nat} {p : Pipe α}

theorem pipeline_inv (h : (pipeline cap).Reach p) : p.Inv cap := by
  induction h with
  | init hi =>
    obtain rfl := hi
    exact ⟨Nat.zero_le _, [], rfl, .nil⟩
  | next _ hn ih => exact ih.step hn

/-- Nothing is dropped in a run in which at most `cap` items are on their way whenever
one is about to be offered. -/
theorem pipeline_lossless
    (h : ((pipeline cap).restrict fun _ _ q => q.arrived.length ≤ q.taken.length + cap).Reach p) :
    p.dropped = [] := by
  have hboth : p.dropped = [] ∧ p.arrived.length ≤ p.taken.length + cap := by
    induction h with
    | init hi =>
      obtain rfl := hi
      exact ⟨rfl, Nat.zero_le _⟩
    | @next q q' e hq hn ih =>
      obtain ⟨hmove, hle⟩ := hn
      refine ⟨?_, hle⟩
      cases hmove with
      | @drop x hheld hfull =>
        have hlen := (pipeline_inv hq.of_restrict).backlog hheld
        have := ih.2
        omega
      | arrive _ | accept _ _ | take _ _ | display _ => exact ih.1
  exact hboth.1

end Results

end LinuxApp.Lib
