/-!
# Programs that make requests

`Prog S α` is a program that asks the environment requests of the signature `S`
and ends with a result; `Exchange` is a request with its answer. `replay p es` is
the result of `p` when the environment answers exactly as in `es`, and `none` when
`p` does not make just those requests. `replay_ret`, `replay_ask`, `replay_bind`
say what the exchanges of a program are, construct by construct.

An environment with a state is a partial function `κ → Exchange S → Option κ`,
undefined on an answer it never gives; `serve` runs it along a list of exchanges.
-/

namespace LinuxApp.Lib

structure Signature where
  Req : Type
  Ans : Req → Type

/-- A request and its answer. -/
structure Exchange (S : Signature) where
  req : S.Req
  ans : S.Ans req

inductive Prog (S : Signature) (α : Type) where
  | ret (a : α)
  | ask (r : S.Req) (k : S.Ans r → Prog S α)

namespace Prog

variable {S : Signature} {α β κ : Type}

def bind : Prog S α → (α → Prog S β) → Prog S β
  | .ret a, f => f a
  | .ask r k, f => .ask r fun x => (k x).bind f

instance : Monad (Prog S) where
  pure := .ret
  bind := .bind

/-- One request, whose answer is the result. -/
def call (r : S.Req) : Prog S (S.Ans r) := .ask r .ret

/-- The result of the program on exactly these exchanges. -/
def replay [DecidableEq S.Req] : Prog S α → List (Exchange S) → Option α
  | .ret a, [] => some a
  | .ret _, _ :: _ => none
  | .ask _ _, [] => none
  | .ask r k, ⟨r', x⟩ :: es => if h : r' = r then replay (k (h ▸ x)) es else none

variable [DecidableEq S.Req] {a a' : α} {b : β} {es : List (Exchange S)}

theorem replay_ret : replay (.ret a : Prog S α) es = some a' ↔ es = [] ∧ a = a' := by
  cases es <;> simp [replay]

theorem replay_pure : replay (pure a : Prog S α) es = some a' ↔ es = [] ∧ a = a' := replay_ret

theorem replay_ask {r : S.Req} {k : S.Ans r → Prog S α} :
    replay (.ask r k) es = some a ↔ ∃ x rest, es = ⟨r, x⟩ :: rest ∧ replay (k x) rest = some a := by
  cases es with
  | nil => simp [replay]
  | cons e es =>
    obtain ⟨r', x⟩ := e
    simp only [replay]
    split
    · next h =>
      subst h
      constructor
      · intro h
        exact ⟨x, es, rfl, h⟩
      · rintro ⟨y, rest, he, h⟩
        simp only [List.cons.injEq, Exchange.mk.injEq, heq_eq_eq, true_and] at he
        obtain ⟨rfl, rfl⟩ := he
        exact h
    · next h =>
      constructor
      · intro h'; cases h'
      · rintro ⟨y, rest, he, -⟩
        simp only [List.cons.injEq, Exchange.mk.injEq] at he
        exact absurd he.1.1 h

theorem replay_call {r : S.Req} {x : S.Ans r} : replay (call r) es = some x ↔ es = [⟨r, x⟩] := by
  unfold call
  rw [replay_ask]
  refine ⟨fun hx => ?_, fun hx => ?_⟩
  · obtain ⟨y, rest, rfl, h⟩ := hx
    obtain ⟨rfl, rfl⟩ := (replay_ret (S := S)).mp h
    rfl
  · subst hx
    exact ⟨x, [], rfl, replay_ret.mpr ⟨rfl, rfl⟩⟩

/-- The exchanges of a sequence are those of the first part and then those of the rest. -/
theorem replay_bind {p : Prog S α} {f : α → Prog S β} :
    replay (p >>= f) es = some b ↔
      ∃ es₁ es₂ a, es = es₁ ++ es₂ ∧ replay p es₁ = some a ∧ replay (f a) es₂ = some b := by
  show replay (p.bind f) es = some b ↔ _
  induction p generalizing es with
  | ret a =>
    constructor
    · intro h
      exact ⟨[], es, a, rfl, rfl, h⟩
    · rintro ⟨es₁, es₂, a', rfl, h1, h2⟩
      obtain ⟨rfl, rfl⟩ := (replay_ret (S := S)).mp h1
      exact h2
  | ask r k ih =>
    simp only [bind, replay_ask]
    refine ⟨fun hx => ?_, fun hx => ?_⟩
    · obtain ⟨x, rest, rfl, h⟩ := hx
      obtain ⟨es₁, es₂, a, rfl, h1, h2⟩ := (ih x).mp h
      exact ⟨⟨r, x⟩ :: es₁, es₂, a, rfl, ⟨x, es₁, rfl, h1⟩, h2⟩
    · obtain ⟨es₁, es₂, a, rfl, ⟨x, rest, rfl, h1⟩, h2⟩ := hx
      exact ⟨x, rest ++ es₂, rfl, (ih x).mpr ⟨rest, es₂, a, rfl, h1, h2⟩⟩

/-- A program followed by a function of its result. -/
theorem replay_map {p : Prog S α} {f : α → β} :
    replay (p >>= fun a => pure (f a)) es = some b ↔ ∃ a, replay p es = some a ∧ f a = b := by
  rw [replay_bind]
  refine ⟨fun hx => ?_, fun hx => ?_⟩
  · obtain ⟨es₁, es₂, a, rfl, h1, h2⟩ := hx
    obtain ⟨rfl, rfl⟩ := (replay_ret (S := S)).mp h2
    exact ⟨a, by rwa [List.append_nil], rfl⟩
  · obtain ⟨a, h, rfl⟩ := hx
    exact ⟨es, [], a, by simp, h, replay_ret.mpr ⟨rfl, rfl⟩⟩

end Prog

/-- The environment's state after these exchanges. -/
def serve {S : Signature} {κ : Type} (K : κ → Exchange S → Option κ) :
    κ → List (Exchange S) → Option κ
  | k, [] => some k
  | k, e :: es => (K k e).bind (serve K · es)

section Serve

variable {S : Signature} {κ : Type} {K : κ → Exchange S → Option κ} {k k' : κ}

@[simp] theorem serve_nil : serve K k [] = some k := rfl

@[simp] theorem serve_single {e : Exchange S} : serve K k [e] = K k e := by
  simp [serve]

theorem serve_append {es fs : List (Exchange S)} :
    serve K k (es ++ fs) = (serve K k es).bind (serve K · fs) := by
  induction es generalizing k with
  | nil => rfl
  | cons e es ih =>
    simp only [List.cons_append, serve, Option.bind_assoc]
    exact congrArg _ (funext fun _ => ih)

/-- An exchange of an accepted list is accepted where it stands. -/
theorem serve_split {es fs : List (Exchange S)} {e : Exchange S}
    (h : serve K k (es ++ e :: fs) = some k') :
    ∃ k₁ k₂, serve K k es = some k₁ ∧ K k₁ e = some k₂ ∧ serve K k₂ fs = some k' := by
  rw [serve_append] at h
  obtain ⟨k₁, h1, h⟩ := Option.bind_eq_some_iff.mp h
  obtain ⟨k₂, h2, h⟩ := Option.bind_eq_some_iff.mp h
  exact ⟨k₁, k₂, h1, h2, h⟩

theorem serve_mem {es : List (Exchange S)} {e : Exchange S} (h : serve K k es = some k')
    (he : e ∈ es) : ∃ k₁ k₂, K k₁ e = some k₂ := by
  obtain ⟨es₁, es₂, rfl⟩ := List.append_of_mem he
  obtain ⟨k₁, k₂, -, h, -⟩ := serve_split h
  exact ⟨k₁, k₂, h⟩

end Serve

end LinuxApp.Lib
