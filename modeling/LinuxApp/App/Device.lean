import LinuxApp.App.SharedQueue
import LinuxApp.Drivers.Framing

/-!
# The RPMSG worker and its device

`DeviceInv`: from `rpmsg_open` on, the worker's context is one that `driverSys`
reaches, so everything proved of call sequences on a context holds of the worker;
when the worker has returned the context is closed; and the packets received are, in
order, the full reads among its system calls, byte for byte.
-/

namespace LinuxApp.App

open Lib LinuxApp.Core Drivers
open Prog (replay)

/-- The bytes of a read that filled a whole message. -/
def fullRead : Exchange Posix → Option (List UInt8)
  | ⟨.read _ _, .data bytes _⟩ => if bytes.length = sizeofAppMsg then some bytes else none
  | _ => none

def fullReads (es : Exchanges) : List (List UInt8) := es.filterMap fullRead

theorem fullReads_append (es fs : Exchanges) :
    fullReads (es ++ fs) = fullReads es ++ fullReads fs := List.filterMap_append ..

section Calls

variable {c c' : RpmsgCtx} {es : Exchanges} {ctx : Option RpmsgCtx} {ret : Int}

theorem close_fullReads (h : replay c.close es = some c') : fullReads es = [] := by
  cases ho : c.isOpen with
  | true => obtain ⟨a, rfl, -⟩ := (close_open ho).mp h; rfl
  | false => obtain ⟨rfl, -⟩ := (close_closed ho).mp h; rfl

theorem open_fullReads {path : Option CStr}
    (h : replay (rpmsgOpen (some c) path) es = some (ret, ctx)) : fullReads es = [] := by
  obtain ⟨es₁, c₁, a, h1, rfl, -, -⟩ := rpmsgOpen_iff.mp h
  rw [fullReads_append, close_fullReads h1]
  rfl

theorem poll_fullReads {t : Int} (h : replay (rpmsgPollReady (some c) t) es = some ret) :
    fullReads es = [] := by
  cases ho : c.isOpen with
  | true => obtain ⟨a, rfl, -⟩ := (rpmsgPollReady_open ho).mp h; rfl
  | false => obtain ⟨rfl, -⟩ := (rpmsgPollReady_closed ho).mp h; rfl

/-- A successful receive is one full read, whose bytes are the message; a call that
does not return 0 has no full read. -/
theorem recv_fullReads {old m : AppMsg} {t : Int}
    (h : replay (rpmsgRecvMsg (some c) (some old) t) es = some (ret, ctx, some m)) :
    fullReads es = if ret = 0 then [m.toList] else [] := by
  by_cases hok : c.isOpen = true
  · obtain ⟨out, hr, rfl, -, hm⟩ := (rpmsgRecvMsg_open hok).mp h
    obtain rfl := Option.some.inj hm
    cases hr with
    | stopped a ht ha => rw [if_neg (recvRet_stopped ha)]; rfl
    | through a hready =>
      have hpre : ∀ fs, Ready c t fs → fullReads fs = [] := by
        intro fs hfs
        cases hfs <;> rfl
      rw [fullReads_append, hpre _ hready, List.nil_append]
      have hw := readResult_whole c old.toList a
      cases a with
      | failed e => rw [if_neg (hw.not.mpr (by rintro ⟨_, _, ⟨⟩, -⟩))]; rfl
      | data bytes hfits =>
        by_cases hall : bytes.length = sizeofAppMsg
        · rw [if_pos (hw.mpr ⟨bytes, hfits, rfl, hall⟩)]
          have hbuf : (AppMsg.ofList (store old.toList bytes)).toList = bytes := by
            rw [store_whole (by rw [hall, old.length_toList]), AppMsg.toList_ofList hall]
          show fullReads _ = [(AppMsg.ofList (store old.toList bytes)).toList]
          rw [hbuf]
          simp [fullReads, fullRead, hall]
        · rw [if_neg (hw.not.mpr (by rintro ⟨_, _, ⟨⟩, h⟩; exact hall h))]
          simp [fullReads, fullRead, hall]
  · obtain ⟨rfl, rfl, -, -⟩ := (rpmsgRecvMsg_rejected fun hc => hok hc.1).mp h
    rfl

end Calls

/-- The worker has not opened its device yet. -/
def RpmsgPc.unopened : RpmsgPc → Bool
  | .notCreated | .start => true
  | _ => false

namespace AppState

structure DeviceInv (s : AppState) : Prop where
  before : s.rpmsg.unopened = true → s.drv.fds = ∅ ∧ s.drv.log = [] ∧ s.received = []
  after : s.rpmsg.unopened = false → driverSys.Reach s.drv
  closed : s.rpmsg = .returned → s.drv.ctx.isOpen = false
  reads : fullReads s.drv.trace = s.received.map AppMsg.toList

section Step

variable {s s' : AppState}

theorem trace_exec {d d' : DrvState} {call : DrvCall} {es : Exchanges} {ret : Int}
    (h : d.exec call es = some (ret, d')) : d'.trace = d.trace ++ es := by
  obtain ⟨c, fds, -, -, rfl⟩ := DrvState.exec_eq_some.mp h
  simp [DrvState.trace]

/-- A worker past `rpmsg_open` makes a call without a full read and does not return. -/
theorem DeviceInv.call (hi : s.DeviceInv) {call : DrvCall} {es : Exchanges} {ret : Int}
    {d : DrvState} (hpc : s.rpmsg.unopened = false) (h : s.drv.exec call es = some (ret, d))
    (hno : fullReads es = []) (hd : s'.drv = d) (hr : s'.received = s.received)
    (hpc' : s'.rpmsg.unopened = false) (hclosed : s'.rpmsg = .returned → d.ctx.isOpen = false) :
    s'.DeviceInv := by
  subst hd
  refine ⟨?_, fun _ => driver_reach_exec (hi.after hpc) h, hclosed, ?_⟩
  · simp [hpc']
  · rw [trace_exec h, fullReads_append, hno, List.append_nil, hr]
    exact hi.reads

theorem DeviceInv.start (hi : s.DeviceInv) {es : Exchanges} {ctx : RpmsgCtx} {ret : Int}
    {drv : DrvState} (hpc : s.rpmsg = .start) (hc : rpmsgCtxInit (some s.drv.ctx) = some ctx)
    (h : { s.drv with ctx }.exec (.openDev (some argDevPath)) es = some (ret, drv)) :
    DeviceInv { s with drv, rpmsg := if ret ≠ 0 then .returned else .loop } := by
  obtain ⟨hfds, hlog, hrecv⟩ := hi.before (by rw [hpc]; rfl)
  have hreach : driverSys.Reach { s.drv with ctx } := .init ⟨s.drv.ctx, hc, hfds, hlog⟩
  obtain ⟨c, fds, hrun, -, hdrv⟩ := DrvState.exec_eq_some.mp h
  obtain ⟨c', he, -, -, hfail⟩ := rpmsgOpen_disciplined (driver_inv hreach).ok hrun
  obtain rfl := Option.some.inj he
  refine ⟨?_, fun _ => driver_reach_exec hreach h, ?_, ?_⟩
  · intro hu
    dsimp only at hu
    split at hu <;> cases hu
  · intro hret
    dsimp only at hret
    split at hret
    · next hne =>
      rw [hdrv]
      simp [RpmsgCtx.isOpen, hfail hne]
    · cases hret
  · dsimp only
    rw [trace_exec h, fullReads_append, open_fullReads hrun, List.append_nil, hrecv]
    simp [DrvState.trace, hlog, fullReads]

theorem DeviceInv.rpmsg (hi : s.DeviceInv) (h : RpmsgRan s s') : s'.DeviceInv := by
  cases h with
  | start hpc hc hd => exact hi.start hpc hc hd
  | again hpc _ | leave hpc _ =>
    exact ⟨nofun, fun _ => hi.after (by rw [hpc]; rfl), nofun, hi.reads⟩
  | poll hpc hd =>
    obtain ⟨c, fds, hrun, -, -⟩ := DrvState.exec_eq_some.mp hd
    obtain ⟨r, hp, -⟩ := (Prog.replay_map (S := Posix)).mp hrun
    refine hi.call (by rw [hpc]; rfl) hd (poll_fullReads hp) rfl rfl ?_ ?_
    · dsimp only
      split <;> rfl
    · intro hret
      dsimp only at hret
      split at hret <;> cases hret
  | nothing hpc hne hd =>
    obtain ⟨c, fds, hrun, -, -⟩ := DrvState.recv_eq_some.mp hd
    have hno := recv_fullReads hrun
    rw [if_neg hne] at hno
    exact hi.call (by rw [hpc]; rfl) (DrvState.exec_of_recv hd) hno rfl rfl rfl nofun
  | received hpc hd _ =>
    obtain ⟨c, fds, hrun, -, -⟩ := DrvState.recv_eq_some.mp hd
    have hexec := DrvState.exec_of_recv hd
    refine ⟨nofun, fun _ => driver_reach_exec (hi.after (by rw [hpc]; rfl)) hexec, nofun, ?_⟩
    dsimp only
    rw [trace_exec hexec, fullReads_append, recv_fullReads hrun, hi.reads, if_pos rfl,
      List.map_append]
    rfl
  | push hpc _ hr =>
    obtain ⟨rx, -, rfl⟩ := runRx_eq_some.mp hr
    exact ⟨hi.before, hi.after, hi.closed, hi.reads⟩
  | pushed hpc _ hr =>
    obtain ⟨rx, -, rfl⟩ := runRx_eq_some.mp hr
    exact ⟨nofun, fun _ => hi.after (by rw [hpc]; rfl), nofun, hi.reads⟩
  | close hpc hd =>
    obtain ⟨c, fds, hrun, -, hdrv⟩ := DrvState.exec_eq_some.mp hd
    obtain ⟨c', hclose, -, hc⟩ := close_run.mp hrun
    obtain rfl := Option.some.inj hc
    refine hi.call (by rw [hpc]; rfl) hd (close_fullReads hclose) rfl rfl rfl fun _ => ?_
    rw [hdrv]
    exact (close_disciplined hclose).2.1

theorem DeviceInv.step (hi : s.DeviceInv) (ht : s.Threads) (h : Ran s s') : s'.DeviceInv := by
  cases h with
  | signal _ | wake _ => exact ⟨hi.before, hi.after, hi.closed, hi.reads⟩
  | rpmsg h => exact hi.rpmsg h
  | gui h =>
    obtain ⟨-, hr, -, hd, hrecv, -⟩ := guiRan_frame h
    exact ⟨by rw [hr, hd, hrecv]; exact hi.before, by rw [hr, hd]; exact hi.after,
      by rw [hr, hd]; exact hi.closed, by rw [hd, hrecv]; exact hi.reads⟩
  | main h =>
    obtain ⟨hd, hrecv, -, -, -, -, -, hr, -⟩ := mainRan_frame h
    rcases hr with hr | ⟨hm, hr⟩
    · exact ⟨by rw [hr, hd, hrecv]; exact hi.before, by rw [hr, hd]; exact hi.after,
        by rw [hr, hd]; exact hi.closed, by rw [hd, hrecv]; exact hi.reads⟩
    · have hnot := ht.notYet .rpmsg (by rw [hm]; rfl)
      simp only [created, decide_eq_false_iff_not, not_not] at hnot
      refine ⟨?_, ?_, ?_, by rw [hd, hrecv]; exact hi.reads⟩
      · intro _
        rw [hd, hrecv]
        exact hi.before (by rw [hnot]; rfl)
      · simp [hr, RpmsgPc.unopened]
      · simp [hr]

end Step

end AppState

theorem device_inv {s : AppState} (h : appSys.Reach s) : s.DeviceInv := by
  induction h with
  | init h =>
    refine ⟨fun _ => ⟨h.fds, h.log, h.received⟩, ?_, ?_, ?_⟩
    · simp [h.rpmsg, RpmsgPc.unopened]
    · simp [h.rpmsg]
    · rw [DrvState.trace, h.log, h.received]; rfl
  | next hr hn ih => exact ih.step (app_inv hr).threads (AppState.ran_of_step hn)

/-- **Descriptors of a driver context.** After any calls with any answers of the
kernel: the descriptors opened and not closed are `ctx->fd`, or none where it is -1;
every close, poll, read and write found its descriptor among those open at that
moment; `dev_path` holds a NUL; and a failed `rpmsg_open` leaves the context closed.
When `rpmsg_worker_func` has returned, no descriptor is left open. -/
theorem rpmsg_ctx_descriptors :
    (∀ d, driverSys.Reach d →
      d.fds = (if d.ctx.fd = -1 then ∅ else {d.ctx.fd}) ∧
      (d.ctx.fd = -1 ∨ 0 ≤ d.ctx.fd) ∧
      Lifetime.after ∅ (fdOps d.trace) = some d.fds ∧
      (∀ es fd o fs, fdOps d.trace = es ++ (fd, o) :: fs → o ≠ .acquire →
        ∃ L, Lifetime.after ∅ es = some L ∧ fd ∈ L) ∧
      0 ∈ d.ctx.devPath.toList) ∧
    (∀ d path es ret d', driverSys.Reach d → d.exec (.openDev path) es = some (ret, d') →
      ret ≠ 0 → d'.ctx.fd = -1) ∧
    ∀ s, appSys.Reach s → s.rpmsg = .returned →
      s.drv.fds = ∅ ∧ Lifetime.after ∅ (fdOps s.drv.trace) = some ∅ := by
  refine ⟨?_, ?_, ?_⟩
  · intro d hr
    have hi := driver_inv hr
    have hlife := hi.lifetimes
    refine ⟨?_, hi.ok.1, hi.table ▸ hlife, ?_, hi.ok.2⟩
    · rw [hi.table]
      rcases hi.ok.1 with hfd | hfd
      · rw [if_pos hfd, RpmsgCtx.held_closed (by simp [RpmsgCtx.isOpen, hfd])]
      · rw [if_neg (by omega), RpmsgCtx.held_open (by simp [RpmsgCtx.isOpen, hfd])]
    · intro es fd o fs hsplit ho
      rw [hsplit] at hlife
      exact Lifetime.live_before hlife ho
  · intro d path es ret d' hr he hne
    obtain ⟨c, fds, hrun, -, rfl⟩ := DrvState.exec_eq_some.mp he
    obtain ⟨c', hc, -, -, hfail⟩ := rpmsgOpen_disciplined (driver_inv hr).ok hrun
    cases hc
    exact hfail hne
  · intro s hr hret
    have hd := device_inv hr
    have hi := driver_inv (hd.after (by rw [hret]; rfl))
    have hnone := RpmsgCtx.held_closed (hd.closed hret)
    exact ⟨by rw [hi.table, hnone], by rw [hi.lifetimes, hnone]⟩

theorem rpmsg_ctx_descriptors_heartbeat :
    heartbeatEnd.rpmsg = .returned ∧ heartbeatEnd.drv.trace.length = 4 ∧
      heartbeatEnd.drv.fds = ∅ ∧
      Lifetime.after ∅ (fdOps heartbeatEnd.drv.trace) = some ∅ := by
  have hret : heartbeatEnd.rpmsg = .returned := by decide +kernel
  obtain ⟨-, -, hworker⟩ := rpmsg_ctx_descriptors
  exact ⟨hret, by decide +kernel, hworker _ heartbeatEnd_reach hret⟩

end LinuxApp.App
