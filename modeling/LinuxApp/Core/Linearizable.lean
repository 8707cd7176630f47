import LinuxApp.Core.QueueInvariant

/-!
# Linearizability of the queue

The effects of the calls, in the order of their critical sections, are a
sequential run of `msg_queue_push` and `msg_queue_pop` from the initialised
queue; each call's effect lies between its call and its return and decides what
it returns. Seen through the bounded FIFO, the messages popped are a prefix of
the messages accepted. `offers` and `dequeued` read the history the other way
round, from the messages: `queue_conserve` balances what was offered, taken and
is still queued.
-/

namespace LinuxApp.Core

open Lib

variable {T : Type} [DecidableEq T]

/-- The FIFO operations of the effects so far. -/
def fifoOps (log : List (Event T)) : List (FifoOp AppMsg) := (effects log).map Call.op

namespace QState

variable {s : QState T}

theorem Inv.fifo (hi : s.Inv) : (Lib.fifo queueMaxSize).Runs [] (fifoOps s.log) s.q.contents := by
  obtain ⟨q₀, h0, hruns⟩ := hi.seq
  obtain ⟨g, rfl⟩ := seqQueue_init h0
  exact (seqQueue_ok (MsgQueue.ok_clear g) hruns).2

/-- A copy that is about to run has its defined behaviour. -/
theorem Inv.copy_defined (hi : s.Inv) {t : T} :
    (s.pc t = .popCopy → s.q.copyOut.isSome) ∧
      ∀ m, s.pc t = .pushCopy m → (s.q.copyIn m).isSome := by
  refine ⟨fun hpc => ?_, fun m hpc => ?_⟩
  · obtain ⟨m, q', hq, -⟩ := hi.ok.copyOut (by simpa [hpc, Pc.Fact] using hi.fact t)
    rw [hq]; rfl
  · obtain ⟨q', hq, -⟩ := hi.ok.copyIn m (by simpa [hpc, Pc.Fact] using hi.fact t)
    rw [hq]; rfl

theorem Inv.pending_le (_ : s.Inv) : s.pending.length ≤ 1 := by
  unfold pending
  split
  · simp
  · next t _ => cases s.pc t <;> simp [Pc.done]

end QState

/-! ## What decides a call -/

/-- A push is accepted below 100 messages and rejected at exactly 100; a pop finds one. -/
def Decided : Event T → Prop
  | .effect _ (.push _ ret) held =>
    ret = 0 ∧ held < queueMaxSize ∨ ret = -enospc ∧ held = queueMaxSize
  | .effect _ (.pop _ ret) held => ret = 0 ∧ 0 < held
  | _ => True

namespace QState

theorem decided_ran {s s' : QState T} {t : T} {woken : Finset T} (hi : s.Inv)
    (hd : ∀ e ∈ s.log, Decided e) (h : Ran s t woken s') : ∀ e ∈ s'.log, Decided e := by
  have hadd : ∀ e, Decided e → ∀ e' ∈ s.log ++ [e], Decided e' := by
    intro e he e' he'
    rcases List.mem_append.mp he' with he' | he'
    · exact hd e' he'
    · rwa [List.mem_singleton.mp he']
  cases h with
  | pushFull hpc hfull => exact hadd _ (.inr ⟨rfl, hi.ok.full_iff.1 hfull⟩)
  | pushCopy hpc _ => exact hadd _ (.inl ⟨rfl, by simpa [hpc, Pc.Fact] using hi.fact t⟩)
  | popCopy hpc _ => exact hadd _ ⟨rfl, by simpa [hpc, Pc.Fact] using hi.fact t⟩
  | pushUnlock _ _ | popUnlock _ _ => exact hadd _ trivial
  | pushLock _ _ | pushRoom _ _ | pushSignal _ _ | popLock _ _ | popEmpty _ _ | popSome _ _
  | popSleep _ _ | popRelock _ _ => exact hd

end QState

theorem queue_decided {s : QState T} (h : (queueSys T).Reach s) : ∀ e ∈ s.log, Decided e := by
  induction h with
  | init h =>
    obtain ⟨q, -, rfl⟩ := h
    exact fun e he => by cases he
  | @next s s' a hr hn ih =>
    cases a with
    | call t op =>
      obtain ⟨-, rfl⟩ := QState.call_eq_some.mp hn
      intro e he
      rcases List.mem_append.mp he with he | he
      · exact ih e he
      · rw [List.mem_singleton.mp he]
        trivial
    | run t woken => exact QState.decided_ran (queue_inv hr) ih (QState.ran_of_run hn)
    | wake t =>
      obtain ⟨mon, -, rfl⟩ := Option.map_eq_some_iff.mp hn
      exact ih

/-- **Linearizability.** In every reachable state of any number of threads on one
initialised queue: at most one thread is between lock and unlock; a message is
copied out only with `count > 0`, and neither copy is ever undefined; the
returned calls in the order of their critical sections, followed by at most one
call that has taken effect and not yet unlocked, are a sequential run of the two
functions from the initialised queue with the same return codes and messages, each
pop at a point with `count > 0`; every thread's finished calls returned what their one
effect decided; and what was popped is a prefix of what was accepted. -/
theorem msgQueue_linearizable {s : QState T} (h : (queueSys T).Reach s) :
    (∀ t u, (s.pc t).place = .inside → (s.pc u).place = .inside → t = u) ∧
    (∀ t, s.pc t = .popCopy → 0 < s.q.count ∧ s.q.copyOut.isSome) ∧
    (∀ t m, s.pc t = .pushCopy m → (s.q.copyIn m).isSome) ∧
    (∃ q₀ q₁ rest, seqQueue.Init q₀ ∧ seqQueue.Runs q₀ (returned s.log) q₁ ∧
      seqQueue.Runs q₁ rest s.q ∧ effects s.log = returned s.log ++ rest ∧ rest.length ≤ 1) ∧
    (∀ t m (ret held : Int), .effect t (.pop m ret) held ∈ s.log → 0 < held) ∧
    (∀ t, ∃ l, Finished l ∧ ownEvents t s.log = l ++ (s.pc t).opened) ∧
    FifoOp.taken (fifoOps s.log) <+: FifoOp.accepted (fifoOps s.log) := by
  have hi := queue_inv h
  obtain ⟨q₀, h0, hruns⟩ := hi.seq
  have hsplit := hruns
  rw [hi.done] at hsplit
  obtain ⟨q₁, h1, h2⟩ := hsplit.split
  refine ⟨?_, ?_, fun t m ht => hi.copy_defined.2 m ht,
    ⟨q₀, q₁, s.pending, h0, h1, h2, hi.done, hi.pending_le⟩,
    fun _ _ _ _ he => (queue_decided h _ he).2, hi.calls, taken_prefix_accepted hi.fifo⟩
  · intro t u ht hu
    exact hi.coherent.unique (show s.place t = .inside from ht) hu
  · intro t ht
    exact ⟨by simpa [ht, Pc.Fact] using hi.fact t, hi.copy_defined.1 ht⟩

/-! ## What is offered and what is taken -/

/-- The message of a push and the number of messages held when it was decided. -/
def Event.offer? {T : Type} : Event T → Option (AppMsg × Int)
  | .effect _ (.push m _) held => some (m, held)
  | _ => none

def offers {T : Type} (log : List (Event T)) : List (AppMsg × Int) := log.filterMap Event.offer?

/-- The messages popped so far. -/
def dequeued {T : Type} (log : List (Event T)) : List AppMsg := FifoOp.taken (fifoOps log)

namespace Pc

/-- The message of a push that is not decided yet. -/
def unoffered : Pc → List AppMsg
  | .pushLock m | .pushTest m | .pushCopy m => [m]
  | _ => []

/-- The message popped by a call that has not returned. -/
def inHand : Pc → List AppMsg
  | .popUnlock m => [m]
  | _ => []

theorem inHand_of_pushing {p : Pc} {m : AppMsg} (h : p.Pushing m) : p.inHand = [] := by
  cases p <;> first | rfl | exact h.elim

theorem inHand_of_popping {p : Pc} (h : p.Popping) (hno : ∀ m, p ≠ .popUnlock m) :
    p.inHand = [] := by
  cases p with
  | popUnlock m => exact absurd rfl (hno m)
  | _ => rfl

theorem unoffered_of_popping {p : Pc} (h : p.Popping) : p.unoffered = [] := by
  cases p <;> first | rfl | exact h.elim

end Pc

namespace QState

variable {s s' : QState T} {t : T} {woken : Finset T}

/-- A line moves the message of its push to the offers, or keeps it. -/
theorem ran_offers (h : Ran s t woken s') :
    (offers s'.log).map Prod.fst ++ (s'.pc t).unoffered =
      (offers s.log).map Prod.fst ++ (s.pc t).unoffered := by
  cases h with
  | pushLock hpc _ | pushFull hpc _ | pushRoom hpc _ | pushCopy hpc _ | pushSignal hpc _
  | pushUnlock hpc _ | popLock hpc _ | popEmpty hpc _ | popSome hpc _ | popSleep hpc _
  | popRelock hpc _ | popCopy hpc _ | popUnlock hpc _ =>
    simp [hpc, offers, Event.offer?, Pc.unoffered, List.filterMap_cons]

/-- A line before the unlock of `msg_queue_pop` takes what it brings into its thread's hand. -/
theorem ran_dequeued (h : Ran s t woken s') (hno : ∀ m, s.pc t ≠ .popUnlock m) :
    dequeued s'.log = dequeued s.log ++ (s'.pc t).inHand := by
  cases h with
  | popUnlock hpc _ => exact absurd hpc (hno _)
  | popCopy _ _ | pushCopy _ _ | pushFull _ _ =>
    simp [dequeued, fifoOps, effects, Event.effect?, FifoOp.taken, Call.op, FifoOp.taken?,
      Pc.inHand, enospc, List.filterMap_cons]
  | pushLock _ _ | pushRoom _ _ | pushSignal _ _ | pushUnlock _ _ | popLock _ _ | popEmpty _ _
  | popSome _ _ | popSleep _ _ | popRelock _ _ =>
    simp [dequeued, fifoOps, effects, Event.effect?, Pc.inHand, List.filterMap_cons]

theorem ran_unlock_dequeued (h : Ran s t woken s') {m : AppMsg} (hu : s.pc t = .popUnlock m) :
    dequeued s'.log = dequeued s.log := by
  cases h with
  | popUnlock _ _ => simp [dequeued, fifoOps, effects, Event.effect?, List.filterMap_cons]
  | pushLock hpc _ | pushFull hpc _ | pushRoom hpc _ | pushCopy hpc _ | pushSignal hpc _
  | pushUnlock hpc _ | popLock hpc _ | popEmpty hpc _ | popSome hpc _ | popSleep hpc _
  | popRelock hpc _ | popCopy hpc _ => rw [hu] at hpc; cases hpc

theorem ran_push_dequeued (h : Ran s t woken s') {m : AppMsg} (hp : (s.pc t).Pushing m) :
    dequeued s'.log = dequeued s.log := by
  have hno : ∀ m, s.pc t ≠ .popUnlock m := by
    intro m' hu
    rw [hu] at hp
    exact hp
  rw [ran_dequeued h hno]
  rcases ran_pushing h hp with ⟨-, hidle⟩ | ⟨-, hp'⟩
  · rw [hidle]
    exact List.append_nil _
  · rw [Pc.inHand_of_pushing hp', List.append_nil]

theorem ran_pop_offers (h : Ran s t woken s') (hp : (s.pc t).Popping) :
    (offers s'.log).map Prod.fst = (offers s.log).map Prod.fst := by
  have hoff := ran_offers h
  rw [Pc.unoffered_of_popping hp, List.append_nil] at hoff
  rcases ran_popping h hp with ⟨-, hidle⟩ | ⟨-, hp'⟩
  · rw [hidle] at hoff
    exact (List.append_nil _).symm.trans hoff
  · rwa [Pc.unoffered_of_popping hp', List.append_nil] at hoff

theorem call_log {op : Op} (h : s.call t op = some s') :
    offers s'.log = offers s.log ∧ dequeued s'.log = dequeued s.log := by
  obtain ⟨-, rfl⟩ := call_eq_some.mp h
  simp [offers, Event.offer?, dequeued, fifoOps, effects, Event.effect?, List.filterMap_cons]

end QState

omit [DecidableEq T] in
/-- The accepted messages are those offered to fewer than 100. -/
theorem accepted_offers {log : List (Event T)} (h : ∀ e ∈ log, Decided e) :
    FifoOp.accepted (fifoOps log) =
      ((offers log).filter fun o => o.2 ≠ (queueMaxSize : Int)).map Prod.fst := by
  induction log with
  | nil => rfl
  | cons e log ih =>
    have ih := ih fun x hx => h x (List.mem_cons_of_mem _ hx)
    have he := h e (List.mem_cons_self ..)
    simp only [fifoOps, effects, offers, FifoOp.accepted] at ih ⊢
    cases e with
    | call t op => simpa [List.filterMap_cons, Event.effect?, Event.offer?] using ih
    | ret t c => simpa [List.filterMap_cons, Event.effect?, Event.offer?] using ih
    | effect t c held =>
      cases c with
      | pop m ret =>
        simpa [List.filterMap_cons, Event.effect?, Event.offer?, Call.op, FifoOp.accepted?] using ih
      | push m ret =>
        rcases he with ⟨rfl, hlt⟩ | ⟨rfl, rfl⟩
        · have hne : held ≠ (queueMaxSize : Int) := by omega
          simpa [List.filterMap_cons, Event.effect?, Event.offer?, Call.op, FifoOp.accepted?,
            hne] using ih
        · simpa [List.filterMap_cons, Event.effect?, Event.offer?, Call.op, FifoOp.accepted?,
            enospc] using ih

/-- Everything taken and everything still queued is what was offered to fewer than 100. -/
theorem queue_conserve {s : QState T} (h : (queueSys T).Reach s) :
    dequeued s.log ++ s.q.contents =
      ((offers s.log).filter fun o => o.2 ≠ (queueMaxSize : Int)).map Prod.fst := by
  rw [← accepted_offers (queue_decided h)]
  simpa [dequeued] using (fifo_conserve (queue_inv h).fifo).symm

/-- A consumer that falls asleep on the empty queue, a push that wakes it, and a
second consumer that takes the message first. -/
def overtaken : List (QAct Nat) :=
  [.call 0 .pop, .run 0 ∅, .run 0 ∅, .run 0 ∅,
    .call 1 (.push default), .run 1 ∅, .run 1 ∅, .run 1 ∅, .run 1 {0}, .call 2 .pop, .run 1 ∅,
    .run 2 ∅, .run 2 ∅, .run 2 ∅, .run 2 ∅, .run 0 ∅, .run 0 ∅, .run 0 ∅]

theorem overtaken_runs :
    (Sys.exec QState.step (QState.start (MsgQueue.clear default)) overtaken).isSome := by
  decide +kernel

theorem msgQueue_linearizable_overtaken :
    ∃ s : QState Nat, s.pc 0 = .popAsleep ∧ (returned s.log).length = 2 ∧
      FifoOp.taken (fifoOps s.log) <+: FifoOp.accepted (fifoOps s.log) := by
  obtain ⟨-, -, -, -, -, -, h⟩ :=
    msgQueue_linearizable (Sys.reach_exec (queueSys_start default) overtaken_runs)
  exact ⟨_, by decide +kernel, by decide +kernel, h⟩

end LinuxApp.Core
