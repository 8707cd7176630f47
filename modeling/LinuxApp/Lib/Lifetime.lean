import Mathlib.Data.Finset.Basic

/-!
# Lifetimes of resources

A log of `acquire`, `use` and `release` events over keys. `after L es` is the set
of live keys once `es` has happened on top of the live set `L`, and `none` as
soon as the log breaks the discipline: acquiring a live key, using or releasing
one that is not live. `live_before` reads the discipline off a kept log;
`count_balance` says that each key was released as often as it was acquired,
once less while it is live.
-/

namespace LinuxApp.Lib.Lifetime

inductive Op where
  | acquire
  | use
  | release
  deriving DecidableEq

variable {κ : Type} [DecidableEq κ]

def touch (L : Finset κ) : κ × Op → Option (Finset κ)
  | (k, .acquire) => if k ∈ L then none else some (insert k L)
  | (k, .use) => if k ∈ L then some L else none
  | (k, .release) => if k ∈ L then some (L.erase k) else none

def after : Finset κ → List (κ × Op) → Option (Finset κ)
  | L, [] => some L
  | L, e :: es => (touch L e).bind (after · es)

/-- How often a key was acquired. -/
def acquired (es : List (κ × Op)) (k : κ) : Nat := es.count (k, .acquire)

/-- How often a key was released. -/
def released (es : List (κ × Op)) (k : κ) : Nat := es.count (k, .release)

@[simp] theorem after_nil (L : Finset κ) : after L [] = some L := rfl

theorem after_append (L : Finset κ) (es fs : List (κ × Op)) :
    after L (es ++ fs) = (after L es).bind (after · fs) := by
  induction es generalizing L with
  | nil => rfl
  | cons e es ih =>
    simp only [List.cons_append, after, Option.bind_assoc]
    congr 1
    funext M
    exact ih M

theorem touch_use {L : Finset κ} {k : κ} (h : k ∈ L) : touch L (k, .use) = some L := if_pos h

/-- Uses of live keys. -/
theorem after_uses {L : Finset κ} {es : List (κ × Op)} (h : ∀ e ∈ es, e.1 ∈ L ∧ e.2 = .use) :
    after L es = some L := by
  induction es with
  | nil => rfl
  | cons e es ih =>
    obtain ⟨k, o⟩ := e
    obtain ⟨hk, rfl⟩ := h (k, o) (List.mem_cons_self ..)
    rw [after, touch_use hk]
    exact ih fun e he => h e (List.mem_cons_of_mem _ he)

theorem touch_live {L M : Finset κ} {k : κ} {o : Op} (ho : o ≠ .acquire)
    (h : touch L (k, o) = some M) : k ∈ L := by
  cases o with
  | acquire => exact absurd rfl ho
  | use => by_contra hk; simp [touch, hk] at h
  | release => by_contra hk; simp [touch, hk] at h

/-- In a log that keeps the discipline every use and every release finds its key live. -/
theorem live_before {L M : Finset κ} {es fs : List (κ × Op)} {k : κ} {o : Op}
    (h : after L (es ++ (k, o) :: fs) = some M) (ho : o ≠ .acquire) :
    ∃ N, after L es = some N ∧ k ∈ N := by
  rw [after_append, Option.bind_eq_some_iff] at h
  obtain ⟨N, hN, h⟩ := h
  simp only [after, Option.bind_eq_some_iff] at h
  obtain ⟨N', hN', -⟩ := h
  exact ⟨N, hN, touch_live ho hN'⟩

@[simp] theorem acquired_nil (k : κ) : acquired [] k = 0 := rfl

theorem acquired_append (es fs : List (κ × Op)) (k : κ) :
    acquired (es ++ fs) k = acquired es k + acquired fs k := List.count_append ..

theorem released_append (es fs : List (κ × Op)) (k : κ) :
    released (es ++ fs) k = released es k + released fs k := List.count_append ..

theorem acquired_eq_zero {es : List (κ × Op)} {k : κ} (h : ∀ e ∈ es, e.2 ≠ .acquire) :
    acquired es k = 0 := List.count_eq_zero.mpr fun hk => h _ hk rfl

theorem touch_balance {L M : Finset κ} {e : κ × Op} (h : touch L e = some M) (k : κ) :
    acquired [e] k + (if k ∈ L then 1 else 0) = released [e] k + if k ∈ M then 1 else 0 := by
  unfold acquired released
  obtain ⟨k', o⟩ := e
  cases o with
  | acquire =>
    simp only [touch] at h
    split at h
    · cases h
    · next hk =>
      cases h
      by_cases he : k = k'
      · subst he; simp [hk]
      · simp [he, Ne.symm he]
  | use =>
    simp only [touch] at h
    split at h
    · cases h; simp
    · cases h
  | release =>
    simp only [touch] at h
    split at h
    · next hk =>
      cases h
      by_cases he : k = k'
      · subst he; simp [hk]
      · simp [he, Ne.symm he]
    · cases h

theorem count_balance {L M : Finset κ} {es : List (κ × Op)} (h : after L es = some M) (k : κ) :
    acquired es k + (if k ∈ L then 1 else 0) = released es k + if k ∈ M then 1 else 0 := by
  induction es generalizing L with
  | nil => cases h; simp [acquired, released]
  | cons e es ih =>
    simp only [after, Option.bind_eq_some_iff] at h
    obtain ⟨N, hN, hM⟩ := h
    have h1 := touch_balance hN k
    have h2 := ih hM
    rw [show e :: es = [e] ++ es from rfl, acquired_append, released_append]
    omega

end LinuxApp.Lib.Lifetime
