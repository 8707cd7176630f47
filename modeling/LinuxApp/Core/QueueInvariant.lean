import LinuxApp.Core.QueueThreads

/-!
# The invariant of the shared queue

`QState.Inv s` holds in every reachable state (`queue_inv`):

* `coherent`: the mutex is held by exactly the thread whose position is between
  lock and unlock, and only threads in `pthread_cond_wait` sleep;
* `ok`: the representation invariant of the ring buffer;
* `fact`: what the holder of the lock has tested is still true where it stands;
* `seq`: the effects in the log, in order, are a sequential run of the two
  functions that ends in the present queue;
* `done`: the effects are the returned calls, then the one whose thread is
  between its effect and its unlock;
* `calls`: a thread's own events are finished calls (call, effect, return) and
  then the events of the call it is in.

Each is kept line by line. Only the thread that runs changes its position, and
it changes the queue only from inside, so what another thread has tested cannot
be undone (`fact_update`).
-/

namespace LinuxApp.Core

open Lib

/-! ## The history -/

def Event.effect? {T : Type} : Event T → Option Call
  | .effect _ c _ => some c
  | _ => none

def Event.ret? {T : Type} : Event T → Option Call
  | .ret _ c => some c
  | _ => none

/-- The results decided so far, in the order of the critical sections. -/
def effects {T : Type} (log : List (Event T)) : List Call := log.filterMap Event.effect?

/-- The calls that have returned, in the order of their unlocks. -/
def returned {T : Type} (log : List (Event T)) : List Call := log.filterMap Event.ret?

/-- A thread's own view of its calls. -/
inductive CallStep where
  | call (op : Op)
  | effect (c : Call)
  | ret (c : Call)
  deriving DecidableEq

def Event.by {T : Type} [DecidableEq T] (t : T) : Event T → Option CallStep
  | .call u op => if u = t then some (.call op) else none
  | .effect u c _ => if u = t then some (.effect c) else none
  | .ret u c => if u = t then some (.ret c) else none

/-- The events of thread `t`. -/
def ownEvents {T : Type} [DecidableEq T] (t : T) (log : List (Event T)) : List CallStep :=
  log.filterMap (Event.by t)

/-- `c` is a completed call of `op`. -/
def Call.Of : Call → Op → Prop
  | .push m _, .push m' => m = m'
  | .pop _ _, .pop => True
  | _, _ => False

/-- Finished calls: each has one effect between its call and its return, and
returns what the effect decided. -/
inductive Finished : List CallStep → Prop where
  | nil : Finished []
  | snoc {l : List CallStep} {op : Op} {c : Call} : Finished l → c.Of op →
      Finished (l ++ [.call op, .effect c, .ret c])

namespace Pc

/-- The call whose effect is done but whose lock is still held. -/
def done : Pc → List Call
  | .pushSignal m => [.push m 0]
  | .pushUnlock m ret => [.push m ret]
  | .popUnlock m => [.pop m 0]
  | _ => []

/-- The events of the call a thread is in. -/
def opened : Pc → List CallStep
  | .idle => []
  | .pushLock m | .pushTest m | .pushCopy m => [.call (.push m)]
  | .pushSignal m => [.call (.push m), .effect (.push m 0)]
  | .pushUnlock m ret => [.call (.push m), .effect (.push m ret)]
  | .popLock | .popTest | .popSleep | .popAsleep | .popCopy => [.call .pop]
  | .popUnlock m => [.call .pop, .effect (.pop m 0)]

/-- What the holder of the lock knows about `count`. -/
def Fact : Pc → Int → Prop
  | .pushCopy _, n => n < queueMaxSize
  | .popCopy, n => 0 < n
  | .popSleep, n => n = 0
  | _, _ => True

theorem fact_of_place {p : Pc} (h : p.place ≠ .inside) (n : Int) : p.Fact n := by
  cases p <;> simp_all [place, Fact]

end Pc

namespace QState

variable {T : Type} [DecidableEq T]

def place (s : QState T) : T → Place := fun t => (s.pc t).place

/-- The call whose effect is done and that has not returned, if any. -/
def pending (s : QState T) : List Call :=
  match s.mon.owner with
  | none => []
  | some t => (s.pc t).done

/-- Each thread's events are finished calls and then those of the call it is in. -/
def CallsOk (s : QState T) : Prop :=
  ∀ t, ∃ l, Finished l ∧ ownEvents t s.log = l ++ (s.pc t).opened

structure Inv (s : QState T) : Prop where
  coherent : s.mon.Coherent s.place
  ok : s.q.Ok
  fact : ∀ t, (s.pc t).Fact s.q.count
  seq : ∃ q₀, seqQueue.Init q₀ ∧ seqQueue.Runs q₀ (effects s.log) s.q
  done : effects s.log = returned s.log ++ s.pending
  calls : s.CallsOk

theorem place_goto (s : QState T) (t : T) (p : Pc) :
    (s.goto t p).place = Function.update s.place t p.place :=
  Function.comp_update Pc.place s.pc t p

omit [DecidableEq T] in
theorem place_of_pc {s : QState T} {t : T} {p : Pc} (h : s.pc t = p) : s.place t = p.place :=
  congrArg Pc.place h

/-- A line that keeps the thread on its side of the mutex. -/
theorem coherent_goto {s s₁ : QState T} {t : T} {p p' : Pc} (hpc : s.pc t = p) (h₁ : s₁.pc = s.pc)
    (hp : p'.place = p.place) (hc : s₁.mon.Coherent s.place) :
    (s₁.goto t p').mon.Coherent (s₁.goto t p').place := by
  have hplace : s₁.place = s.place := funext fun u => congrArg Pc.place (congrFun h₁ u)
  rw [place_goto, hp, ← place_of_pc hpc, hplace, Function.update_eq_self]
  exact hc

/-! ## One line at a time -/

section Line

variable {s s' : QState T} {t : T} {woken : Finset T}

theorem coherent_ran (hc : s.mon.Coherent s.place) (h : Ran s t woken s') :
    s'.mon.Coherent s'.place := by
  cases h with
  | pushLock _ hm | popLock _ hm | popRelock _ hm => rw [place_goto]; exact hc.acquire hm
  | pushFull hpc _ | pushRoom hpc _ | pushCopy hpc _ | popEmpty hpc _ | popSome hpc _
  | popCopy hpc _ => exact coherent_goto hpc rfl rfl hc
  | pushSignal hpc hm => exact coherent_goto hpc rfl rfl (hc.signal hm)
  | pushUnlock _ hm | popUnlock _ hm => rw [place_goto]; exact hc.release hm
  | popSleep _ hm => rw [place_goto]; exact hc.wait hm

omit [DecidableEq T] in
/-- Whoever is at an inside line holds the mutex. -/
theorem owner_of_inside (hc : s.mon.Coherent s.place) {p : Pc} (hpc : s.pc t = p)
    (hp : p.place = .inside) : s.mon.owner = some t :=
  (hc.owner t).2 ((place_of_pc hpc).trans hp)

/-- The others know nothing that `t`, from inside, could invalidate. -/
theorem fact_update (hc : s.mon.Coherent s.place) (hf : ∀ u, (s.pc u).Fact s.q.count) {n : Int}
    {p : Pc} (hn : n = s.q.count ∨ s.mon.owner = some t) (hp : p.Fact n) :
    ∀ u, (Function.update s.pc t p u).Fact n := by
  intro u
  by_cases hu : u = t
  · subst hu; simpa using hp
  · rw [Function.update_of_ne hu]
    rcases hn with rfl | hown
    · exact hf u
    · refine Pc.fact_of_place (fun hin => hu ?_) n
      exact hc.unique (show s.place u = .inside from hin) ((hc.owner t).1 hown)

omit [DecidableEq T] in
theorem count_of_not_empty (hok : s.q.Ok) (h : s.q.empty = false) : 0 < s.q.count := by
  have := hok.count
  simp only [MsgQueue.empty, decide_eq_false_iff_not] at h
  omega

omit [DecidableEq T] in
theorem count_of_not_full (hok : s.q.Ok) (h : s.q.full = false) : s.q.count < queueMaxSize := by
  have := hok.count
  have : s.q.count ≠ queueMaxSize := fun e => by simp [hok.full_iff.2 e] at h
  omega

theorem fact_ran (hc : s.mon.Coherent s.place) (hok : s.q.Ok) (hf : ∀ u, (s.pc u).Fact s.q.count)
    (h : Ran s t woken s') : ∀ u, (s'.pc u).Fact s'.q.count := by
  cases h with
  | pushLock _ _ | pushFull _ _ | pushSignal _ _ | pushUnlock _ _ | popLock _ _ | popSleep _ _
  | popRelock _ _ | popUnlock _ _ => exact fact_update hc hf (.inl rfl) trivial
  | pushRoom _ hr => exact fact_update hc hf (.inl rfl) (count_of_not_full hok hr)
  | pushCopy hpc _ => exact fact_update hc hf (.inr (owner_of_inside hc hpc rfl)) trivial
  | popEmpty _ he =>
    have hzero : s.q.count = 0 := by simpa [MsgQueue.empty] using he
    exact fact_update hc hf (.inl rfl) hzero
  | popSome _ he => exact fact_update hc hf (.inl rfl) (count_of_not_empty hok he)
  | popCopy hpc _ => exact fact_update hc hf (.inr (owner_of_inside hc hpc rfl)) trivial

/-- The queue of the next state is an `Ok` queue, and if the line decided a result
it is the sequential function that got there. -/
theorem seq_ran (hok : s.q.Ok) (hf : ∀ u, (s.pc u).Fact s.q.count) (h : Ran s t woken s') :
    s'.q.Ok ∧ ((effects s'.log = effects s.log ∧ s'.q = s.q) ∨
      ∃ c, effects s'.log = effects s.log ++ [c] ∧ seqQueue.Next s.q c s'.q) := by
  cases h with
  | pushLock _ _ | pushRoom _ _ | pushSignal _ _ | popLock _ _ | popEmpty _ _ | popSome _ _
  | popSleep _ _ | popRelock _ _ => exact ⟨hok, .inl ⟨rfl, rfl⟩⟩
  | pushUnlock _ _ | popUnlock _ _ => exact ⟨hok, .inl ⟨by simp [effects, Event.effect?], rfl⟩⟩
  | @pushFull m hpc hfull =>
    refine ⟨hok, .inr ⟨.push m (-enospc), by simp [effects, Event.effect?], ?_⟩⟩
    show msgQueuePush (some s.q) (some m) = .ok (-enospc, some s.q)
    simp [msgQueuePush, hfull]
  | @pushCopy m q hpc hq =>
    have hlt : s.q.count < queueMaxSize := by simpa [hpc, Pc.Fact] using hf t
    obtain ⟨q', hq', hok', -, -⟩ := hok.copyIn m hlt
    obtain rfl : q' = q := Option.some.inj (hq'.symm.trans hq)
    have hfull : s.q.full = false := Bool.eq_false_iff.mpr fun e => by
      have := hok.full_iff.1 e; omega
    refine ⟨hok', .inr ⟨.push m 0, by simp [effects, Event.effect?], ?_⟩⟩
    show msgQueuePush (some s.q) (some m) = .ok (0, some q')
    simp [msgQueuePush, hfull, hq]
  | @popCopy m q hpc hq =>
    have hpos : 0 < s.q.count := by simpa [hpc, Pc.Fact] using hf t
    obtain ⟨m', q', hq', hok', -, -⟩ := hok.copyOut hpos
    rw [hq] at hq'
    cases hq'
    have hempty : s.q.empty = false := by simp only [MsgQueue.empty, decide_eq_false_iff_not]; omega
    refine ⟨hok', .inr ⟨.pop m 0, by simp [effects, Event.effect?], m, ?_⟩⟩
    show msgQueuePop (some s.q) (some m) = .ok (0, some m, some q)
    simp [msgQueuePop, hempty, hq]

omit [DecidableEq T] in
theorem pending_of_owner {p : Pc} (ho : s.mon.owner = some t) (hpc : s.pc t = p) :
    s.pending = p.done := by
  rw [pending, ho]
  exact congrArg Pc.done hpc

theorem done_goto {s₁ : QState T} {p : Pc} (ho : s₁.mon.owner = some t)
    (hd : effects s₁.log = returned s₁.log ++ p.done) :
    effects (s₁.goto t p).log = returned (s₁.goto t p).log ++ (s₁.goto t p).pending := by
  rw [pending_of_owner (s := s₁.goto t p) (p := p) ho (by simp)]
  exact hd

theorem done_free {s₁ : QState T} {p : Pc} (ho : s₁.mon.owner = none)
    (hd : effects s₁.log = returned s₁.log) :
    effects (s₁.goto t p).log = returned (s₁.goto t p).log ++ (s₁.goto t p).pending := by
  have hp : (s₁.goto t p).pending = [] := by simp [pending, ho]
  rw [hp, List.append_nil]
  exact hd

theorem done_ran (hc : s.mon.Coherent s.place) (hd : effects s.log = returned s.log ++ s.pending)
    (h : Ran s t woken s') : effects s'.log = returned s'.log ++ s'.pending := by
  cases h with
  | pushLock _ hm | popLock _ hm | popRelock _ hm =>
    obtain ⟨hfree, -, rfl⟩ := Monitor.acquire_eq_some.mp hm
    simp only [pending, hfree] at hd
    exact done_goto rfl hd
  | pushRoom hpc _ | popEmpty hpc _ | popSome hpc _ =>
    have ho := owner_of_inside hc hpc rfl
    rw [pending_of_owner ho hpc] at hd
    exact done_goto ho hd
  | pushFull hpc _ | pushCopy hpc _ | popCopy hpc _ =>
    have ho := owner_of_inside hc hpc rfl
    rw [pending_of_owner ho hpc] at hd
    refine done_goto ho ?_
    simp only [effects, returned, emit_log, List.filterMap_append] at hd ⊢
    rw [hd]
    simp [Event.effect?, Event.ret?, Pc.done]
  | pushSignal hpc hm =>
    have ho := owner_of_inside hc hpc rfl
    obtain ⟨-, -, rfl⟩ := Monitor.signal_eq_some.mp hm
    rw [pending_of_owner ho hpc] at hd
    exact done_goto ho hd
  | pushUnlock hpc hm | popUnlock hpc hm =>
    obtain ⟨ho, rfl⟩ := Monitor.release_eq_some.mp hm
    rw [pending_of_owner ho hpc] at hd
    refine done_free rfl ?_
    simp only [effects, returned, emit_log, List.filterMap_append] at hd ⊢
    rw [hd]
    simp [Event.effect?, Event.ret?, Pc.done]
  | popSleep hpc hm =>
    obtain ⟨ho, rfl⟩ := Monitor.wait_eq_some.mp hm
    rw [pending_of_owner ho hpc] at hd
    exact done_free rfl (by simpa [Pc.done] using hd)

omit [DecidableEq T] in
theorem ownEvents_append [DecidableEq T] (u : T) (log : List (Event T)) (e : Event T) :
    ownEvents u (log ++ [e]) = ownEvents u log ++ (Event.by u e).toList := by
  rw [ownEvents, List.filterMap_append]
  cases h : Event.by u e <;> simp [ownEvents, h]

/-- A line that logs nothing and stays in the same call. -/
theorem calls_goto {s₁ : QState T} {p : Pc} (hcalls : CallsOk s) (hlog : s₁.log = s.log)
    (hpc : s₁.pc = s.pc) (hp : p.opened = (s.pc t).opened) : CallsOk (s₁.goto t p) := by
  intro u
  obtain ⟨l, hl, hown⟩ := hcalls u
  refine ⟨l, hl, ?_⟩
  rw [goto_log, hlog, goto_pc, hpc, hown]
  by_cases hu : u = t
  · subst hu; rw [Function.update_self, hp]
  · rw [Function.update_of_ne hu]

/-- A line of `t` that logs one event of `t`. -/
theorem calls_emit {s₁ : QState T} {p : Pc} {e : Event T} {x : CallStep} (hcalls : CallsOk s)
    (hlog : s₁.log = s.log) (hpc : s₁.pc = s.pc)
    (hby : ∀ u, Event.by u e = if t = u then some x else none)
    (hp : ∀ l, Finished l → ∃ l', Finished l' ∧ l ++ (s.pc t).opened ++ [x] = l' ++ p.opened) :
    CallsOk ((s₁.emit e).goto t p) := by
  intro u
  obtain ⟨l, hl, hown⟩ := hcalls u
  rw [goto_log, emit_log, ownEvents_append, hlog, hown, hby, goto_pc, emit_pc, hpc]
  by_cases hu : u = t
  · subst hu
    simpa using hp l hl
  · exact ⟨l, hl, by simp [Ne.symm hu, hu]⟩

theorem calls_ran (hcalls : CallsOk s) (h : Ran s t woken s') : CallsOk s' := by
  cases h with
  | pushLock hpc _ | pushRoom hpc _ | pushSignal hpc _ | popLock hpc _ | popEmpty hpc _
  | popSome hpc _ | popSleep hpc _ | popRelock hpc _ =>
    exact calls_goto hcalls rfl rfl (by rw [hpc]; rfl)
  | pushFull hpc _ | pushCopy hpc _ | popCopy hpc _ =>
    exact calls_emit hcalls rfl rfl (fun u => rfl) fun l hl =>
      ⟨l, hl, by rw [hpc]; simp [Pc.opened]⟩
  | @pushUnlock m ret _ hpc _ =>
    exact calls_emit hcalls rfl rfl (fun u => rfl) fun l hl =>
      ⟨_, .snoc hl (show Call.Of (.push m ret) (.push m) from rfl), by
        rw [hpc]; simp [Pc.opened]⟩
  | @popUnlock m _ hpc _ =>
    exact calls_emit hcalls rfl rfl (fun u => rfl) fun l hl =>
      ⟨_, .snoc hl (show Call.Of (.pop m 0) .pop from trivial), by
        rw [hpc]; simp [Pc.opened]⟩

end Line

theorem Inv.ran {s s' : QState T} {t : T} {woken : Finset T} (hi : s.Inv) (h : Ran s t woken s') :
    s'.Inv := by
  obtain ⟨q₀, h0, hruns⟩ := hi.seq
  obtain ⟨hok, hseq⟩ := seq_ran hi.ok hi.fact h
  refine ⟨coherent_ran hi.coherent h, hok, fact_ran hi.coherent hi.ok hi.fact h, ⟨q₀, h0, ?_⟩,
    done_ran hi.coherent hi.done h, calls_ran hi.calls h⟩
  rcases hseq with ⟨hlog, hq⟩ | ⟨c, hlog, hn⟩
  · rwa [hlog, hq]
  · rw [hlog]; exact .snoc hruns hn

theorem Inv.call {s s' : QState T} {t : T} {op : Op} (hi : s.Inv) (h : s.call t op = some s') :
    s'.Inv := by
  obtain ⟨hpc, rfl⟩ := call_eq_some.mp h
  have hplace : op.entry.place = .outside := by cases op <;> rfl
  have hout : s.place t = .outside := place_of_pc hpc
  have hdone : op.entry.done = [] := by cases op <;> rfl
  refine ⟨?_, hi.ok, ?_, ?_, ?_, ?_⟩
  · exact coherent_goto hpc rfl hplace hi.coherent
  · exact fact_update hi.coherent hi.fact (.inl rfl) (Pc.fact_of_place (by simp [hplace]) _)
  · simpa [effects, List.filterMap_cons, Event.effect?] using hi.seq
  · have hp : ((s.emit (.call t op)).goto t op.entry).pending = s.pending := by
      simp only [pending, goto_mon, emit_mon, goto_pc, emit_pc]
      split
      · rfl
      · next u hu =>
        have hne : u ≠ t := fun e => by
          have := (hi.coherent.owner u).1 hu
          rw [e, hout] at this; cases this
        rw [Function.update_of_ne hne]
    rw [hp]
    simpa [effects, returned, List.filterMap_cons, Event.effect?, Event.ret?] using hi.done
  · refine calls_emit hi.calls rfl rfl (fun u => rfl) fun l hl => ⟨l, hl, ?_⟩
    rw [hpc]
    cases op <;> simp [Pc.opened, Op.entry]

theorem Inv.wake {s : QState T} {t : T} {mon : Monitor T} (hi : s.Inv)
    (h : s.mon.wake t = some mon) : ({ s with mon } : QState T).Inv := by
  have hc := hi.coherent.wake h
  obtain ⟨-, rfl⟩ := Monitor.wake_eq_some.mp h
  exact ⟨hc, hi.ok, hi.fact, hi.seq, hi.done, hi.calls⟩

theorem inv_start {q : MsgQueue} (h : seqQueue.Init q) : (start (T := T) q).Inv := by
  obtain ⟨g, hg⟩ := seqQueue_init h
  refine ⟨Monitor.Coherent.init fun t => rfl, ?_, fun t => trivial, ⟨q, h, .nil q⟩, rfl,
    fun t => ⟨[], .nil, rfl⟩⟩
  rw [start, hg]
  exact MsgQueue.ok_clear g

theorem Inv.step {s s' : QState T} {a : QAct T} (hi : s.Inv) (h : s.step a = some s') : s'.Inv := by
  cases a with
  | call t op => exact hi.call h
  | run t woken => exact hi.ran (ran_of_run h)
  | wake t =>
    obtain ⟨mon, hm, rfl⟩ := Option.map_eq_some_iff.mp h
    exact hi.wake hm

end QState

theorem queue_inv {T : Type} [DecidableEq T] {s : QState T} (h : (queueSys T).Reach s) : s.Inv :=
  h.induct (fun _ ⟨_, hq, he⟩ => he ▸ QState.inv_start hq) fun _ _ _ _ hi hn => hi.step hn

end LinuxApp.Core
