import LinuxApp.App.Progress
import LinuxApp.App.Telemetry
import LinuxApp.Lib.Pipeline
import LinuxApp.Lib.Simulation

/-!
# The application as a pipeline

`Follows`: the abstract pipeline of 100 places whose items are the packets. The RPMSG
worker's `rx_msg` is the place before the buffer, `rx_queue` the buffer, and the packet
the GUI worker has popped and not printed the place after it. Every step of the three
threads, a line of the queue's code included, is a stutter or one move of the pipeline
(`app_sim`).
-/

namespace LinuxApp.App

open Lib LinuxApp.Core Drivers

namespace QueueLine

variable {T : Type} [DecidableEq T]

/-- What a line of thread `t` does to the messages. -/
inductive Moves (s s' : QState T) (t : T) : Prop where
  | accept {m : AppMsg} : (s.pc t).unoffered = [m] → (s'.pc t).unoffered = [] →
      s.q.contents.length < queueMaxSize → s'.q.contents = s.q.contents ++ [m] →
      rejected s'.log = rejected s.log → dequeued s'.log = dequeued s.log → Moves s s' t
  | drop {m : AppMsg} : (s.pc t).unoffered = [m] → (s'.pc t).unoffered = [] →
      s.q.contents.length = queueMaxSize → s'.q.contents = s.q.contents →
      rejected s'.log = rejected s.log ++ [m] → dequeued s'.log = dequeued s.log → Moves s s' t
  | take {m : AppMsg} : (s.pc t).inHand = [] → (s'.pc t).inHand = [m] →
      s.q.contents = m :: s'.q.contents →
      rejected s'.log = rejected s.log → dequeued s'.log = dequeued s.log ++ [m] → Moves s s' t
  | none : (s'.pc t).unoffered = (s.pc t).unoffered →
      ((s'.pc t).inHand = (s.pc t).inHand ∨ ∃ m, s.pc t = .popUnlock m) →
      s'.q.contents = s.q.contents →
      rejected s'.log = rejected s.log → dequeued s'.log = dequeued s.log → Moves s s' t

end QueueLine

section Line

variable {T : Type} [DecidableEq T] {s s' : QState T} {t : T} {W : Finset T}

theorem line_moves (hi : s.Inv) (h : QState.Ran s t W s') : QueueLine.Moves s s' t := by
  have hlen := hi.ok.length_contents
  cases h with
  | @pushCopy m q hpc hcopy =>
    have hlt : s.q.count < queueMaxSize := by simpa [hpc, Pc.Fact] using hi.fact t
    obtain ⟨q', hq', -, hcont, -⟩ := hi.ok.copyIn m hlt
    obtain rfl := Option.some.inj (hcopy.symm.trans hq')
    refine .accept (by rw [hpc]; rfl) (by simp [Pc.unoffered]) (by omega) hcont ?_ ?_
    · have hne : s.q.count ≠ (queueMaxSize : Int) := by omega
      simp [rejected, offers, Event.offer?, hne]
    · simp [dequeued, fifoOps, effects, Event.effect?, FifoOp.taken, Call.op,
        FifoOp.taken?]
  | @pushFull m hpc hfull =>
    have hmax := hi.ok.full_iff.mp hfull
    refine .drop (by rw [hpc]; rfl) (by simp [Pc.unoffered]) (by omega) rfl ?_ ?_
    · simp [rejected, offers, Event.offer?, hmax]
    · simp [dequeued, fifoOps, effects, Event.effect?, FifoOp.taken, Call.op,
        FifoOp.taken?, enospc]
  | @popCopy m q hpc hcopy =>
    have hpos : 0 < s.q.count := by simpa [hpc, Pc.Fact] using hi.fact t
    obtain ⟨m', q', hcopy', -, hcont, -⟩ := hi.ok.copyOut hpos
    obtain ⟨rfl, rfl⟩ := Prod.mk.inj (Option.some.inj (hcopy.symm.trans hcopy'))
    refine .take (by rw [hpc]; rfl) (by simp [Pc.inHand]) hcont ?_ ?_
    · simp [rejected, offers, Event.offer?]
    · simp [dequeued, fifoOps, effects, Event.effect?, FifoOp.taken, Call.op,
        FifoOp.taken?]
  | pushLock hpc _ | pushRoom hpc _ | pushSignal hpc _ | popLock hpc _ | popEmpty hpc _
  | popSome hpc _ | popSleep hpc _ | popRelock hpc _ =>
    refine .none ?_ (.inl ?_) rfl rfl rfl <;> simp [hpc, Pc.unoffered, Pc.inHand]
  | pushUnlock hpc _ =>
    refine .none (by simp [hpc, Pc.unoffered]) (.inl (by simp [hpc, Pc.inHand])) rfl ?_ ?_
    · simp [rejected, offers, Event.offer?]
    · simp [dequeued, fifoOps, effects, Event.effect?, FifoOp.taken]
  | @popUnlock m _ hpc _ =>
    refine .none (by simp [hpc, Pc.unoffered]) (.inr ⟨m, hpc⟩) rfl ?_ ?_
    · simp [rejected, offers, Event.offer?]
    · simp [dequeued, fifoOps, effects, Event.effect?, FifoOp.taken]

/-- The unlock of a pop touches no message. -/
theorem unlock_moves (hi : s.Inv) (h : QState.Ran s t W s') {m : AppMsg}
    (hu : s.pc t = .popUnlock m) : s'.q.contents = s.q.contents ∧
      rejected s'.log = rejected s.log ∧ dequeued s'.log = dequeued s.log := by
  cases line_moves hi h with
  | accept hm _ _ _ _ _ | drop hm _ _ _ _ _ => rw [hu] at hm; cases hm
  | take hm _ _ _ _ => rw [hu] at hm; cases hm
  | none _ _ hcont hrej hdeq => exact ⟨hcont, hrej, hdeq⟩

end Line

namespace AppState

/-- The packets in `rx_queue` once it is in use. -/
def buffered (s : AppState) : List AppMsg :=
  if s.rpmsg = .notCreated then [] else s.rx.q.contents

structure Follows (s : AppState) (p : Pipe AppMsg) : Prop where
  arrived : p.arrived = s.received
  held : p.held.toList = s.holding
  queued : p.queued = s.buffered
  hand : p.hand.toList = s.unprinted
  taken : p.taken = dequeued s.rx.log
  output : s.output = s.gui.banner ++ p.displayed.flatMap report ++ s.gui.trailer
  dropped : p.dropped = rejected s.rx.log

section Step

variable {s s' : AppState} {p : Pipe AppMsg}

theorem buffered_of_created (hc : s.rpmsg ≠ .notCreated) : s.buffered = s.rx.q.contents :=
  if_neg hc

/-- A step that touches no packet. -/
theorem Follows.same (hf : s.Follows p) (hlog : s'.rx.log = s.rx.log)
    (hpc : s'.rx.pc = s.rx.pc) (hr : s'.received = s.received) (hb : s'.buffered = s.buffered)
    (hu : s'.unprinted = s.unprinted)
    (ho : s'.output = s'.gui.banner ++ p.displayed.flatMap report ++ s'.gui.trailer) :
    s'.Follows p := by
  refine ⟨?_, ?_, ?_, ?_, ?_, ho, ?_⟩
  · rw [hr, hf.arrived]
  · rw [holding, hpc]
    exact hf.held
  · rw [hb, hf.queued]
  · rw [hu, hf.hand]
  · rw [hlog, hf.taken]
  · rw [hlog, hf.dropped]

/-- Nothing is queued before the RPMSG worker is created. -/
theorem contents_nil (h : appSys.Reach s) (hm : s.main = .createRpmsg) :
    s.rx.q.contents = [] := by
  have hi := app_inv h
  have hreach := hi.link.reach_at (by rw [hm]; rfl) (by simp [hm])
  have hnot := hi.threads.notYet .rpmsg (by rw [hm]; rfl)
  simp only [created, decide_eq_false_iff_not, not_not] at hnot
  have hnone := ((device_inv h).before (by rw [hnot]; rfl)).2.2
  have hoff := (telemetry_inv h).offered
  rw [hnone] at hoff
  obtain ⟨hmap, -⟩ := List.append_eq_nil_iff.mp hoff.symm
  have hcons := queue_conserve hreach
  rw [List.map_eq_nil_iff.mp hmap] at hcons
  exact (List.append_eq_nil_iff.mp hcons).2

theorem Follows.main (hf : s.Follows p) (hr : appSys.Reach s) (h : MainRan s s') :
    s'.Follows p := by
  have ht := (app_inv hr).threads
  obtain ⟨-, hrecv, -, ho, hpc, -, hlog, hrp, hg, -⟩ := mainRan_frame h
  have hb : s'.buffered = s.buffered := by
    rcases hrp with hrp | ⟨hm, hrp⟩
    · by_cases hc : s.rpmsg = .notCreated
      · rw [buffered, buffered, hrp, if_pos hc, if_pos hc]
      · rw [buffered_of_created (by rw [hrp]; exact hc), buffered_of_created hc, main_q ht hc h]
    · have hnot := ht.notYet .rpmsg (by rw [hm]; rfl)
      simp only [created, decide_eq_false_iff_not, not_not] at hnot
      have hq : s'.rx.q = s.rx.q := by
        cases h with
        | initRx hm' _ => rw [hm] at hm'; cases hm'
        | _ => rfl
      rw [buffered_of_created (by simp [hrp]), buffered, if_pos hnot, hq, contents_nil hr hm]
  rcases hg with hg | ⟨hm, hg⟩
  · refine hf.same hlog hpc hrecv hb ?_ ?_
    · rw [unprinted, unprinted, hg, hpc]
    · rw [ho, hg, hf.output]
  · have hnot := ht.notYet .gui (by rw [hm]; rfl)
    simp only [created, decide_eq_false_iff_not, not_not] at hnot
    refine hf.same hlog hpc hrecv hb ?_ ?_
    · rw [unprinted_of_ne (by simp [hg]), unprinted_of_ne (by simp [hnot]), hpc]
    · rw [ho, hf.output, hg, hnot]
      rfl

/-- A move of the pipeline, or a stutter. -/
def Answered (p : Pipe AppMsg) (s' : AppState) : Prop :=
  s'.Follows p ∨ ∃ e p', (pipeline queueMaxSize).Next p e p' ∧ s'.Follows p'

/-- A line of the RPMSG worker in `msg_queue_push`. -/
theorem Follows.push (hf : s.Follows p) (hq : s.rx.Inv) (hpc : s.rpmsg = .push)
    (hpush : (s.rx.pc .rpmsg).Pushing s.rxMsg)
    {woken : Finset Worker} {rx : QState Worker} (hran : QState.Ran s.rx .rpmsg woken rx)
    (hrx : s'.rx = rx) (hr : s'.received = s.received) (ho : s'.output = s.output)
    (hg : s'.gui = s.gui) (hc : s'.rpmsg ≠ .notCreated) : Answered p s' := by
  subst hrx
  have hb := buffered_of_created hc
  have hb₀ : s.buffered = s.rx.q.contents := buffered_of_created (by simp [hpc])
  have hu : s'.unprinted = s.unprinted := by
    rw [unprinted, unprinted, hg, QState.ran_other hran (by decide)]
  have hout : s'.output = s'.gui.banner ++ p.displayed.flatMap report ++ s'.gui.trailer := by
    rw [ho, hg, hf.output]
  cases line_moves hq hran with
  | @accept m hm hm' hlt hcont hrej hdeq =>
    have hheld : p.held = some m := Option.toList_eq_singleton_iff.mp (hf.held.trans hm)
    refine .inr ⟨.accept, _, .accept hheld ?_, ?_⟩
    · rw [hf.queued, hb₀]
      exact hlt
    · refine ⟨?_, ?_, ?_, ?_, ?_, hout, ?_⟩
      · rw [hr]; exact hf.arrived
      · rw [holding, hm']; rfl
      · rw [hb, hcont, ← hb₀, ← hf.queued]
      · rw [hu]; exact hf.hand
      · rw [hdeq]; exact hf.taken
      · rw [hrej]; exact hf.dropped
  | @drop m hm hm' hlen hcont hrej hdeq =>
    have hheld : p.held = some m := Option.toList_eq_singleton_iff.mp (hf.held.trans hm)
    refine .inr ⟨.drop, _, .drop hheld ?_, ?_⟩
    · rw [hf.queued, hb₀]
      exact hlen
    · refine ⟨?_, ?_, ?_, ?_, ?_, hout, ?_⟩
      · rw [hr]; exact hf.arrived
      · rw [holding, hm']; rfl
      · rw [hb, hcont, ← hb₀, ← hf.queued]
      · rw [hu]; exact hf.hand
      · rw [hdeq]; exact hf.taken
      · rw [hrej, ← hf.dropped]
  | take _ hm' _ _ _ =>
    rcases QState.ran_pushing hran hpush with ⟨-, hidle⟩ | ⟨-, hp⟩
    · rw [hidle] at hm'; cases hm'
    · rw [Pc.inHand_of_pushing hp] at hm'; cases hm'
  | none hm _ hcont hrej hdeq =>
    refine .inl ⟨?_, ?_, ?_, ?_, ?_, hout, ?_⟩
    · rw [hr]; exact hf.arrived
    · rw [holding, hm]; exact hf.held
    · rw [hb, hcont, ← hb₀, ← hf.queued]
    · rw [hu]; exact hf.hand
    · rw [hdeq]; exact hf.taken
    · rw [hrej]; exact hf.dropped

theorem Follows.rpmsg (hf : s.Follows p) (hi : s.Inv) (h : RpmsgRan s s') : Answered p s' := by
  obtain ⟨-, hg, -, ho, hal, hc⟩ := rpmsgRan_frame h
  have hq := queue_inv (hi.link.reach hi.threads (show s.alive .rpmsg = true from hal)).2
  have hc₀ : s.rpmsg ≠ .notCreated := by
    intro hn
    rw [hn] at hal
    cases hal
  have hout : s'.output = s'.gui.banner ++ p.displayed.flatMap report ++ s'.gui.trailer := by
    rw [ho, hg, hf.output]
  cases h with
  | start _ _ _ | again _ _ | leave _ _ | poll _ _ | nothing _ _ _ | close _ _ =>
    refine .inl (hf.same rfl rfl rfl ?_ rfl hout)
    rw [buffered_of_created hc, buffered_of_created hc₀]
  | @received es m drv rx hpc _ hcall =>
    have hidle := hi.link.rpmsgIdle (by simp [hpc])
    obtain ⟨hself, hother⟩ := QState.call_pc hcall
    have hlog := QState.call_log hcall
    have hcall' : rx.q = s.rx.q := by
      obtain ⟨-, rfl⟩ := QState.call_eq_some.mp hcall
      rfl
    have hnone : p.held = none := by
      have h1 := hf.held
      rw [holding, hidle] at h1
      exact Option.toList_eq_nil_iff.mp h1
    refine .inr ⟨.arrive m, _, .arrive hnone, ?_, ?_, ?_, ?_, ?_, hout, ?_⟩
    · show p.arrived ++ [m] = s.received ++ [m]
      rw [hf.arrived]
    · show [m] = (rx.pc .rpmsg).unoffered
      rw [hself]
      rfl
    · rw [buffered_of_created hc]
      dsimp only
      rw [hcall', hf.queued, buffered_of_created hc₀]
    · rw [unprinted]
      dsimp only
      rw [hother .gui (by decide)]
      exact hf.hand
    · dsimp only
      rw [hlog.2]
      exact hf.taken
    · dsimp only
      rw [rejected, hlog.1]
      exact hf.dropped
  | push hpc _ hr | pushed hpc _ hr =>
    obtain ⟨rx, hrx, rfl⟩ := runRx_eq_some.mp hr
    exact hf.push hq hpc (hi.link.rpmsgPush hpc) (QState.ran_of_run hrx) rfl rfl rfl rfl hc

/-- A line of the GUI worker in `msg_queue_pop` before the unlock. -/
theorem Follows.pop (hf : s.Follows p) (hq : s.rx.Inv) (hpc : s.gui = .pop)
    (hpop : (s.rx.pc .gui).Popping) (hc₀ : s.rpmsg ≠ .notCreated)
    {woken : Finset Worker} {rx : QState Worker} (hran : QState.Ran s.rx .gui woken rx)
    (hno : ∀ m, s.rx.pc .gui ≠ .popUnlock m) (hrx : s'.rx = rx) (hr : s'.received = s.received)
    (ho : s'.output = s.output) (hg : s'.gui = s.gui) (hrp : s'.rpmsg = s.rpmsg) :
    Answered p s' := by
  subst hrx
  have hb := buffered_of_created (by rw [hrp]; exact hc₀)
  have hb₀ := buffered_of_created hc₀
  have hheld : s'.holding = s.holding := by
    rw [holding, holding, QState.ran_other hran (by decide)]
  have hu : s'.unprinted = (s'.rx.pc .gui).inHand := unprinted_of_ne (by simp [hg, hpc])
  have hu₀ : s.unprinted = (s.rx.pc .gui).inHand := unprinted_of_ne (by simp [hpc])
  have hout : s'.output = s'.gui.banner ++ p.displayed.flatMap report ++ s'.gui.trailer := by
    rw [ho, hg, hf.output]
  cases line_moves hq hran with
  | accept hm _ _ _ _ _ | drop hm _ _ _ _ _ =>
    rw [Pc.unoffered_of_popping hpop] at hm
    cases hm
  | @take m hm hm' hcont hrej hdeq =>
    have hnone : p.hand = none :=
      Option.toList_eq_nil_iff.mp (hf.hand.trans (hu₀.trans hm))
    have hqueued : p.queued = m :: s'.rx.q.contents := by rw [hf.queued, hb₀, hcont]
    have htaken : p.displayed = dequeued s.rx.log := by
      rw [← hf.taken, Pipe.taken, hnone, Option.toList_none, List.append_nil]
    refine .inr ⟨.take, _, .take hnone hqueued, ?_, ?_, ?_, ?_, ?_, hout, ?_⟩
    · rw [hr]; exact hf.arrived
    · rw [hheld]; exact hf.held
    · rw [hb]
    · rw [hu, hm']; rfl
    · rw [hdeq, ← htaken]; rfl
    · rw [hrej]; exact hf.dropped
  | none _ hm hcont hrej hdeq =>
    have hsame : (s'.rx.pc .gui).inHand = (s.rx.pc .gui).inHand :=
      hm.resolve_right fun hex => hex.elim hno
    refine .inl ⟨?_, ?_, ?_, ?_, ?_, hout, ?_⟩
    · rw [hr]; exact hf.arrived
    · rw [hheld]; exact hf.held
    · rw [hb, hcont, ← hb₀, ← hf.queued]
    · rw [hu, hsame, ← hu₀]; exact hf.hand
    · rw [hdeq]; exact hf.taken
    · rw [hrej]; exact hf.dropped

/-- The unlock of `msg_queue_pop`: the packet stays in the GUI worker's hand. -/
theorem Follows.unlock (hf : s.Follows p) (hq : s.rx.Inv) (hpc : s.gui = .pop)
    (hc₀ : s.rpmsg ≠ .notCreated) {m : AppMsg} {woken : Finset Worker} {rx : QState Worker}
    (hran : QState.Ran s.rx .gui woken rx) (hu : s.rx.pc .gui = .popUnlock m) (hrx : s'.rx = rx)
    (hr : s'.received = s.received) (ho : s'.output = s.output) (hg : s'.gui = .handle m)
    (hrp : s'.rpmsg = s.rpmsg) : s'.Follows p := by
  subst hrx
  have hb := buffered_of_created (by rw [hrp]; exact hc₀)
  have hb₀ := buffered_of_created hc₀
  obtain ⟨hcont, hrej, hdeq⟩ := unlock_moves hq hran hu
  refine ⟨?_, ?_, ?_, ?_, ?_, ?_, ?_⟩
  · rw [hr]; exact hf.arrived
  · rw [holding, QState.ran_other hran (by decide)]; exact hf.held
  · rw [hb, hcont, ← hb₀, ← hf.queued]
  · rw [hf.hand, unprinted_of_ne (by simp [hpc]), hu, unprinted, hg]
    rfl
  · rw [hdeq]; exact hf.taken
  · rw [ho, hf.output, hpc, hg]
    rfl
  · rw [hrej]; exact hf.dropped

theorem Follows.gui (hf : s.Follows p) (h₀ : appSys.Reach s) (h : GuiRan s s') :
    Answered p s' := by
  have hi := app_inv h₀
  obtain ⟨-, hrp, -, -, -, -, hal, -⟩ := guiRan_frame h
  have hc₀ := created_of_gui h₀ hal
  have hq := queue_inv (hi.link.reach_of_created hc₀)
  cases h with
  | start hpc =>
    have hnone : dequeued s.rx.log = [] := (telemetry_inv h₀).early (by rw [hpc]; rfl)
    obtain ⟨hdis, -⟩ := List.append_eq_nil_iff.mp (hf.taken.trans hnone)
    refine .inl (hf.same rfl rfl rfl rfl ?_ ?_)
    · rw [unprinted_of_ne (by simp), unprinted_of_ne (by simp [hpc])]
    · dsimp only
      rw [hf.output, hdis, hpc]
      rfl
  | leave hpc _ =>
    refine .inl (hf.same rfl rfl rfl rfl ?_ ?_)
    · rw [unprinted_of_ne (by simp), unprinted_of_ne (by simp [hpc])]
    · dsimp only
      rw [hf.output, hpc]
      rfl
  | stop hpc =>
    refine .inl (hf.same rfl rfl rfl rfl ?_ ?_)
    · rw [unprinted_of_ne (by simp), unprinted_of_ne (by simp [hpc])]
    · dsimp only
      rw [hf.output, hpc]
      simp [GuiPc.banner, GuiPc.trailer]
  | @again rx hpc _ hcall =>
    obtain ⟨hself, hother⟩ := QState.call_pc hcall
    have hlog := QState.call_log hcall
    have hcall' : rx.q = s.rx.q := by
      obtain ⟨-, rfl⟩ := QState.call_eq_some.mp hcall
      rfl
    refine .inl ⟨hf.arrived, ?_, ?_, ?_, ?_, ?_, ?_⟩
    · rw [holding]
      dsimp only
      rw [hother .rpmsg (by decide)]
      exact hf.held
    · rw [hf.queued, buffered_of_created hc₀, buffered, if_neg hc₀, hcall']
    · rw [hf.hand, unprinted_of_ne (by simp [hpc]), inHand_idle hi.link (by simp [hpc]),
        unprinted_of_ne (by simp)]
      dsimp only
      rw [hself]
      rfl
    · dsimp only
      rw [hlog.2]
      exact hf.taken
    · dsimp only
      rw [hf.output, hpc]
      rfl
    · dsimp only
      rw [rejected, hlog.1]
      exact hf.dropped
  | pop hpc hno hr =>
    obtain ⟨rx, hrx, rfl⟩ := runRx_eq_some.mp hr
    exact hf.pop hq hpc (hi.link.guiPop hpc) hc₀ (QState.ran_of_run hrx) hno rfl rfl rfl rfl rfl
  | popped hpc hu hr =>
    obtain ⟨rx, hrx, rfl⟩ := runRx_eq_some.mp hr
    exact .inl (hf.unlock hq hpc hc₀ (QState.ran_of_run hrx) hu rfl rfl rfl rfl rfl)
  | @handle m hpc =>
    have hu₀ : s.unprinted = [m] := by rw [unprinted, hpc]
    have hhand : p.hand = some m := Option.toList_eq_singleton_iff.mp (hf.hand.trans hu₀)
    refine .inr ⟨.display, _, .display hhand, hf.arrived, hf.held, hf.queued, ?_, ?_, ?_,
      hf.dropped⟩
    · rw [unprinted_of_ne (by simp)]
      exact (inHand_idle hi.link (by simp [hpc])).symm
    · dsimp only
      rw [← hf.taken, Pipe.taken, Pipe.taken, hhand]
      simp
    · dsimp only
      rw [hf.output, hpc]
      simp [GuiPc.banner, GuiPc.trailer]

end Step

end AppState

open AppState in
/-- The threads, the queue and the device together are one bounded pipeline. -/
theorem app_sim : Sys.Sim appSys (pipeline queueMaxSize) AppState.Follows where
  init := by
    intro s h
    obtain ⟨q, hq⟩ := h.rx
    refine ⟨.empty, rfl, h.received.symm, ?_, ?_, ?_, ?_, ?_, ?_⟩
    · rw [holding, hq]; rfl
    · rw [buffered, if_pos h.rpmsg]; rfl
    · rw [unprinted, h.gui, hq]; rfl
    · rw [hq]; rfl
    · rw [h.output, h.gui]; rfl
    · rw [hq]; rfl
  step := by
    intro s a t p hs _ hf hn
    cases ran_of_step hn with
    | signal _ | wake _ => exact .inl (hf.same rfl rfl rfl rfl rfl hf.output)
    | main h => exact .inl (hf.main hs h)
    | rpmsg h => exact hf.rpmsg (app_inv hs) h
    | gui h => exact hf.gui hs h

/-- **The application refines a bounded lossy pipeline.** Every step of every thread is a
stutter or one move of the pipeline of 100 places, so every reachable state follows a
reachable state of the pipeline: the packets that are not with the RPMSG worker any more
are an interleaving of those popped, then queued, in the order of their arrival, and those
rejected; the output is the reports of the packets displayed, which are those popped but
the one in the GUI worker's hand. -/
theorem app_refines_pipeline : Sys.Sim appSys (pipeline queueMaxSize) AppState.Follows ∧
    ∀ s, appSys.Reach s → ∃ p, (pipeline queueMaxSize).Reach p ∧ s.Follows p ∧
      ∃ settled, s.received = settled ++ s.holding ∧
        Shuffle settled (dequeued s.rx.log ++ s.buffered) (rejected s.rx.log) := by
  refine ⟨app_sim, fun s h => ?_⟩
  obtain ⟨p, hp, hf⟩ := app_sim.reach h
  obtain ⟨settled, harr, hsh⟩ := (pipeline_inv hp).shuffle
  refine ⟨p, hp, hf, settled, ?_, ?_⟩
  · rw [← hf.arrived, harr, hf.held]
  · rw [← hf.taken, ← hf.queued, ← hf.dropped]
    exact hsh

/-- The heartbeat of the complete run is displayed. -/
theorem app_refines_pipeline_heartbeat :
    ∃ p : Pipe AppMsg, (pipeline queueMaxSize).Reach p ∧ p.taken.length = 1 ∧ p.queued = [] := by
  obtain ⟨p, hp, hf, -⟩ := app_refines_pipeline.2 heartbeatEnd heartbeatEnd_reach
  refine ⟨p, hp, ?_, ?_⟩
  · rw [hf.taken]
    decide +kernel
  · rw [hf.queued]
    decide +kernel

/-- No more than 100 packets are on their way from the device to the GUI worker. -/
def AppState.Keeping (s : AppState) : Prop :=
  s.received.length ≤ (dequeued s.rx.log).length + queueMaxSize

/-- **No loss for a GUI worker that keeps up.** In every state of a run in which never more
than 100 packets received are still to be popped, no packet has been rejected, and
the packets received are those popped, those queued and the one the RPMSG worker holds,
in this order. -/
theorem keeping_up_loses_nothing {s : AppState}
    (h : (appSys.restrict fun _ _ t => t.Keeping).Reach s) :
    rejected s.rx.log = [] ∧ s.received = dequeued s.rx.log ++ s.buffered ++ s.holding := by
  have hsim := app_sim.restrict (P := fun p => p.arrived.length ≤ p.taken.length + queueMaxSize)
    (Q := AppState.Keeping) fun t p hf hk => by rw [hf.arrived, hf.taken]; exact hk
  obtain ⟨p, hp, hf⟩ := hsim.reach h
  have hnone := pipeline_lossless hp
  obtain ⟨settled, harr, hsh⟩ := (pipeline_inv hp.of_restrict).shuffle
  rw [hnone] at hsh
  refine ⟨by rw [← hf.dropped, hnone], ?_⟩
  rw [← hf.arrived, harr, hsh.eq_of_nil, hf.taken, hf.queued, hf.held]

instance (s : AppState) : Decidable s.Keeping := inferInstanceAs (Decidable (_ ≤ _))

/-- The steps after which the GUI worker still keeps up. -/
def keepingStep (s : AppState) (a : Act) : Option AppState :=
  (s.step a).filter fun t => decide t.Keeping

theorem keepingRun_receives : ∃ t ∈ Sys.exec keepingStep processStart heartbeatRun,
    t.received.length = 1 := by
  decide +kernel

/-- The heartbeat of the complete run is popped. -/
theorem keeping_up_loses_nothing_heartbeat :
    ∃ s : AppState, s.received.length = 1 ∧
      s.received = dequeued s.rx.log ++ s.buffered ++ s.holding := by
  have hnext : ∀ a ∈ heartbeatRun, ∀ s t, keepingStep s a = some t →
      (appSys.restrict fun _ _ t => t.Keeping).Next s a t := by
    intro a _ s t hst
    obtain ⟨hstep, hk⟩ := Option.filter_eq_some_iff.mp hst
    exact ⟨hstep, by simpa using hk⟩
  have hstart : (appSys.restrict fun _ _ t => t.Keeping).Reach processStart :=
    .init processStart_init
  obtain ⟨s, hs, hone⟩ := hstart.exists_exec heartbeatRun hnext keepingRun_receives
  exact ⟨s, hone, (keeping_up_loses_nothing hs).2⟩

end LinuxApp.App
