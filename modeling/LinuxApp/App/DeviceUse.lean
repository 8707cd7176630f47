import LinuxApp.App.Device
import LinuxApp.Drivers.DevPath
import LinuxApp.Drivers.MessageStats

/-!
# What the device sees of the application

`deviceUse` is the protocol that the RPMSG worker keeps with `/dev/rpmsg0`: one open of
that path, then polls for input of 50 ms, each followed by one read of 264 bytes if it
reported data and no error, at the end one close, and never a write. `UsesDevice`: the
worker's system calls are a run of the protocol and the worker's position says where in
it they stand; the counters of its context hold what the calls came to.
-/

namespace LinuxApp.App

open Lib LinuxApp.Core Drivers
open Prog (replay)

inductive DevicePhase where
  | unopened
  | idle (fd : Int)
  /-- The last poll reported data. -/
  | readable (fd : Int)
  | closed
  deriving DecidableEq

/-- The poll found input and reported no error. -/
def reportsData : PollAnswer → Bool
  | .ready revents => decide (revents &&& pollIn ≠ 0 ∧ revents &&& pollErr = 0 ∧
      revents &&& pollHup = 0 ∧ revents &&& pollNval = 0)
  | .failed _ | .timeout => false

/-- The phase after one more system call; `none` on one that is out of place. -/
def deviceUse : DevicePhase → Exchange Posix → Option DevicePhase
  | .unopened, ⟨.openFile path flags, a⟩ =>
    if path = defaultDevPath.bytes ∧ flags = oRdwr ||| oNonblock then
      match a with
      | .failed _ => some .closed
      | .fd n => some (.idle n)
    else none
  | .idle fd, ⟨.poll fd' events timeout, a⟩ =>
    if fd' = fd ∧ events = pollIn ∧ timeout = 50 then
      some (if reportsData a then .readable fd else .idle fd)
    else none
  | .readable fd, ⟨.read fd' len, _⟩ =>
    if fd' = fd ∧ len = sizeofAppMsg then some (.idle fd) else none
  | .idle fd, ⟨.close fd', _⟩ => if fd' = fd then some .closed else none
  | _, _ => none

/-- The worker has its device open. -/
def RpmsgPc.inLoop : RpmsgPc → Bool
  | .notCreated | .start | .returned => false
  | _ => true

/-- No entry of a log of system calls clears a counter. -/
def never (_ : Exchange Posix) : Bool := false

/-- `rpmsg_poll_ready` tells data from no data and from an error. -/
theorem pollResult_pos (a : PollAnswer) : 0 < pollResult a ↔ reportsData a = true := by
  cases a with
  | failed e =>
    have hpos := e.pos
    simp only [pollResult, reportsData, Bool.false_eq_true, iff_false]
    omega
  | timeout => simp [pollResult, reportsData]
  | ready revents =>
    have hnone : revents &&& (pollErr ||| pollHup ||| pollNval) = 0 ↔
        revents &&& pollErr = 0 ∧ revents &&& pollHup = 0 ∧ revents &&& pollNval = 0 := by
      rw [BitVec.and_or_distrib_left, BitVec.and_or_distrib_left]
      exact BitVec.or_eq_zero_iff.trans ((and_congr_left' BitVec.or_eq_zero_iff).trans and_assoc)
    simp only [pollResult, reportsData, decide_eq_true_eq, ← hnone]
    split
    · next herr => exact iff_of_false (by decide) fun h => herr h.2
    · next hok =>
      rw [not_not] at hok
      split
      · next hin => exact iff_of_true (by decide) ⟨hin, hok⟩
      · next hin => exact iff_of_false (by decide) fun h => hin h.1

theorem tally_never (p : Exchange Posix → Bool) (es : Exchanges) :
    tally never p es = es.countP p := by
  induction es using List.reverseRecOn with
  | nil => rfl
  | append_singleton es e ih =>
    rw [tally_snoc, ih, List.countP_append, List.countP_singleton]
    cases p e <;> rfl

namespace AppState

/-- Where in the protocol the worker stands. -/
def phase (s : AppState) : DevicePhase :=
  match s.rpmsg with
  | .notCreated | .start => .unopened
  | .recv => .readable s.drv.ctx.fd
  | .returned => .closed
  | _ => .idle s.drv.ctx.fd

structure UsesDevice (s : AppState) : Prop where
  script : serve deviceUse .unopened s.drv.trace = some s.phase
  opened : s.rpmsg.inLoop = true → s.drv.ctx.isOpen = true
  counted : s.rpmsg.unopened = false →
    Counts never wrote s.drv.trace s.drv.ctx.txCount ∧
      Counts never got s.drv.trace s.drv.ctx.rxCount ∧
      Counts never recorded s.drv.trace s.drv.ctx.errCount

section Step

variable {s s' : AppState}

/-- The counters after one exchange. -/
theorem counted_snoc {c c' : RpmsgCtx} {es : Exchanges} {e : Exchange Posix}
    (h : Advances c [e] c') (hc : Counts never wrote es c.txCount ∧
      Counts never got es c.rxCount ∧ Counts never recorded es c.errCount) :
    Counts never wrote (es ++ [e]) c'.txCount ∧ Counts never got (es ++ [e]) c'.rxCount ∧
      Counts never recorded (es ++ [e]) c'.errCount := by
  obtain ⟨htx, hrx, herr⟩ := h
  simp only [List.any_cons, List.any_nil, Bool.or_false] at htx hrx herr
  refine ⟨?_, ?_, ?_⟩
  · rw [htx]; exact hc.1.snoc
  · rw [hrx]; exact hc.2.1.snoc
  · rw [herr]; exact hc.2.2.snoc

/-- A step of the worker past `rpmsg_open` with one system call. -/
theorem UsesDevice.exchange (hi : s.UsesDevice) {call : DrvCall} {e : Exchange Posix} {ret : Int}
    {d : DrvState} (hpc : s.rpmsg.unopened = false) (h : s.drv.exec call [e] = some (ret, d))
    (hn : call ≠ .resetStats) (hd : s'.drv = d) (hphase : deviceUse s.phase e = some s'.phase)
    (hopen : s'.rpmsg.inLoop = true → d.ctx.isOpen = true) : s'.UsesDevice := by
  subst hd
  have htrace := trace_exec h
  obtain ⟨c, fds, hrun, -, hs⟩ := DrvState.exec_eq_some.mp h
  refine ⟨?_, hopen, fun _ => ?_⟩
  · rw [htrace, serve_append, hi.script, Option.bind_some, serve_single]
    exact hphase
  · rw [htrace]
    have hctx : s'.drv.ctx = c := by rw [hs]
    rw [hctx]
    exact counted_snoc (call_advances hn hrun) (hi.counted hpc)

theorem UsesDevice.same (hi : s.UsesDevice) (hd : s'.drv = s.drv) (hphase : s'.phase = s.phase)
    (hopen : s'.rpmsg.inLoop = true → s.rpmsg.inLoop = true)
    (hun : s'.rpmsg.unopened = s.rpmsg.unopened) : s'.UsesDevice :=
  ⟨by rw [hd, hphase]; exact hi.script, by rw [hd]; exact fun h => hi.opened (hopen h),
    by rw [hd, hun]; exact hi.counted⟩

/-- The worker opens the path that `main` gave it, on a context that holds nothing. -/
theorem UsesDevice.start (hd : s.DeviceInv) {es : Exchanges} {ctx : RpmsgCtx} {ret : Int}
    {drv : DrvState} (hpc : s.rpmsg = .start) (hc : rpmsgCtxInit (some s.drv.ctx) = some ctx)
    (h : { s.drv with ctx }.exec (.openDev (some argDevPath)) es = some (ret, drv)) :
    UsesDevice { s with drv, rpmsg := if ret ≠ 0 then .returned else .loop } := by
  obtain ⟨-, hlog, -⟩ := hd.before (by rw [hpc]; rfl)
  have htrace : drv.trace = es := by
    rw [trace_exec h, DrvState.trace, hlog]
    rfl
  obtain ⟨c, fds, hrun, -, hdrv⟩ := DrvState.exec_eq_some.mp h
  have hclosed := (rpmsgCtxInit_ok hc).2
  obtain ⟨es₁, c₁, a, hcl, hes, hret, hctx⟩ := rpmsgOpen_iff.mp hrun
  obtain ⟨rfl, rfl⟩ := (close_closed hclosed).mp hcl
  have hset : choosePath ctx (some argDevPath) = ctx.setPath argDevPath := by
    unfold choosePath
    exact if_pos (by decide)
  have hpath : (ctx.setPath argDevPath).path = defaultDevPath.bytes := by
    rw [RpmsgCtx.setPath_path]; rfl
  rw [hset, hpath, List.nil_append] at hes
  rw [hset] at hret hctx
  have hdctx : drv.ctx = (openResult (ctx.setPath argDevPath) a).2 := by
    rw [hdrv]
    exact Option.some.inj hctx
  have hzero : (ctx.setPath argDevPath).txCount = 0 ∧ (ctx.setPath argDevPath).rxCount = 0 ∧
      (ctx.setPath argDevPath).errCount = 0 := by
    cases hc
    simp only [RpmsgCtx.setPath, and_self]
  have hadv : Advances (ctx.setPath argDevPath)
      [⟨.openFile defaultDevPath.bytes (oRdwr ||| oNonblock), a⟩]
      (openResult (ctx.setPath argDevPath) a).2 := openResult_advances a
  have hnil : Counts never wrote [] (ctx.setPath argDevPath).txCount ∧
      Counts never got [] (ctx.setPath argDevPath).rxCount ∧
      Counts never recorded [] (ctx.setPath argDevPath).errCount := by
    rw [hzero.1, hzero.2.1, hzero.2.2]
    exact ⟨.nil, .nil, .nil⟩
  have hcount := counted_snoc hadv hnil
  refine ⟨?_, ?_, fun _ => by dsimp only; rw [htrace, hes, hdctx]; exact hcount⟩
  · dsimp only [phase]
    rw [htrace, hes, serve_single, hret, hdctx]
    cases a with
    | failed e =>
      have hne : -e.val ≠ 0 := by have := e.pos; omega
      simp [deviceUse, openResult, hne]
    | fd n => simp [deviceUse, openResult]
  · dsimp only
    rw [hret, hdctx]
    cases a with
    | failed e =>
      have hne : -e.val ≠ 0 := by have := e.pos; omega
      simp [openResult, hne, RpmsgPc.inLoop]
    | fd n => simp [openResult, RpmsgCtx.isOpen]

theorem UsesDevice.rpmsg (hi : s.UsesDevice) (hd : s.DeviceInv) (h : RpmsgRan s s') :
    s'.UsesDevice := by
  cases h with
  | start hpc hc hx => exact .start hd hpc hc hx
  | again hpc _ | leave hpc _ =>
    exact hi.same rfl (by simp [phase, hpc]) (by simp [hpc, RpmsgPc.inLoop])
      (by simp [hpc, RpmsgPc.unopened])
  | poll hpc hx =>
    have ho := hi.opened (by rw [hpc]; rfl)
    obtain ⟨c, fds, hrun, -, hdrv⟩ := DrvState.exec_eq_some.mp hx
    obtain ⟨r, hp, hr⟩ := (Prog.replay_map (S := Posix)).mp hrun
    obtain ⟨rfl, hctx⟩ := Prod.mk.inj hr
    obtain rfl := Option.some.inj hctx
    obtain ⟨a, rfl, ha⟩ := (rpmsgPollReady_open ho).mp hp
    refine hi.exchange (by rw [hpc]; rfl) hx (by simp) rfl ?_ fun _ => by rw [hdrv]; exact ho
    rw [phase, hpc, phase]
    dsimp only
    rw [hdrv, ← ha]
    by_cases hready : reportsData a = true
    · simp [deviceUse, hready, (pollResult_pos a).mpr hready]
    · simp [deviceUse, hready, mt (pollResult_pos a).mp hready]
  | received hpc hx _ | nothing hpc _ hx =>
    have ho := hi.opened (by rw [hpc]; rfl)
    obtain ⟨c, fds, hrun, -, hdrv⟩ := DrvState.recv_eq_some.mp hx
    obtain ⟨out, hr, -, hctx, -⟩ := (rpmsgRecvMsg_open ho).mp hrun
    obtain rfl := Option.some.inj hctx
    have hkeep := reads_keeps ho hr
    have hopen : out.2.1.isOpen = true := by
      rw [RpmsgCtx.isOpen, hkeep.fd]
      exact ho
    have hexec := DrvState.exec_of_recv hx
    cases hr with
    | stopped a h0 _ => exact absurd rfl h0
    | through a hready =>
      cases hready with
      | polled b h0 _ => exact absurd rfl h0
      | now _ =>
        refine hi.exchange (by rw [hpc]; rfl) hexec (by simp) rfl ?_
          fun _ => by rw [hdrv]; exact hopen
        rw [phase, hpc, phase]
        dsimp only
        rw [hdrv, hkeep.fd]
        simp [deviceUse]
  | push hpc _ hr =>
    obtain ⟨rx, -, rfl⟩ := runRx_eq_some.mp hr
    exact hi.same rfl rfl id rfl
  | pushed hpc _ hr =>
    obtain ⟨rx, -, rfl⟩ := runRx_eq_some.mp hr
    exact hi.same rfl (by simp [phase, hpc, logSync]) (by simp [hpc, RpmsgPc.inLoop])
      (by simp [hpc, RpmsgPc.unopened])
  | close hpc hx =>
    have ho := hi.opened (by rw [hpc]; rfl)
    obtain ⟨c, fds, hrun, -, hdrv⟩ := DrvState.exec_eq_some.mp hx
    obtain ⟨c', hclose, -, -⟩ := close_run.mp hrun
    obtain ⟨a, rfl, -⟩ := (close_open ho).mp hclose
    refine hi.exchange (by rw [hpc]; rfl) hx (by simp) rfl ?_ (by simp [RpmsgPc.inLoop])
    rw [phase, hpc]
    simp [deviceUse, phase]

theorem UsesDevice.step (hi : s.UsesDevice) (hd : s.DeviceInv) (ht : s.Threads) (h : Ran s s') :
    s'.UsesDevice := by
  cases h with
  | signal _ | wake _ => exact hi.same rfl rfl id rfl
  | rpmsg h => exact hi.rpmsg hd h
  | gui h =>
    obtain ⟨-, hr, -, hdrv, -⟩ := guiRan_frame h
    exact hi.same hdrv (by rw [phase, phase, hr, hdrv]) (by rw [hr]; exact id) (by rw [hr])
  | main h =>
    obtain ⟨hdrv, -, -, -, -, -, -, hr, -⟩ := mainRan_frame h
    rcases hr with hr | ⟨hm, hr⟩
    · exact hi.same hdrv (by rw [phase, phase, hr, hdrv]) (by rw [hr]; exact id) (by rw [hr])
    · have hnot := ht.notYet .rpmsg (by rw [hm]; rfl)
      simp only [created, decide_eq_false_iff_not, not_not] at hnot
      exact hi.same hdrv (by simp [phase, hr, hnot]) (by simp [hr, RpmsgPc.inLoop])
        (by simp [hr, hnot, RpmsgPc.unopened])

end Step

end AppState

theorem uses_device {s : AppState} (h : appSys.Reach s) : s.UsesDevice := by
  induction h with
  | init h =>
    refine ⟨?_, ?_, ?_⟩
    · rw [DrvState.trace, h.log, AppState.phase, h.rpmsg]
      rfl
    · simp [h.rpmsg, RpmsgPc.inLoop]
    · simp [h.rpmsg, RpmsgPc.unopened]
  | next hr hn ih =>
    exact ih.step (device_inv hr) (app_inv hr).threads (AppState.ran_of_step hn)

/-! ## What the protocol says -/

theorem deviceUse_write {p p' : DevicePhase} {fd : Int} {bytes : List UInt8}
    (a : WriteAnswer bytes.length) : deviceUse p ⟨.write fd bytes, a⟩ ≠ some p' := by
  cases p <;> simp [deviceUse]

theorem deviceUse_read {p p' : DevicePhase} {fd : Int} {len : Nat} {a : ReadAnswer len}
    (h : deviceUse p ⟨.read fd len, a⟩ = some p') : p = .readable fd ∧ len = sizeofAppMsg := by
  cases p with
  | readable fd' =>
    simp only [deviceUse] at h
    split at h
    · next hc => exact ⟨by rw [hc.1], hc.2⟩
    · cases h
  | unopened | idle _ | closed => simp [deviceUse] at h

/-- Only a poll that reported data makes the device readable. -/
theorem deviceUse_readable {p : DevicePhase} {e : Exchange Posix} {fd : Int}
    (h : deviceUse p e = some (.readable fd)) :
    ∃ a, e = ⟨.poll fd pollIn 50, a⟩ ∧ reportsData a = true := by
  unfold deviceUse at h
  split at h
  case h_1 =>
    split at h
    · split at h <;> simp at h
    · cases h
  case h_2 fd₁ fd' events timeout a =>
    split at h
    · next hc =>
      obtain ⟨rfl, rfl, rfl⟩ := hc
      split at h
      · next ha =>
        obtain rfl := DevicePhase.readable.inj (Option.some.inj h)
        exact ⟨a, rfl, ha⟩
      · simp at h
    · cases h
  case h_3 => split at h <;> simp at h
  case h_4 => split at h <;> simp at h
  case h_5 => cases h

theorem readable_after_poll {es : Exchanges} {fd : Int}
    (h : serve deviceUse .unopened es = some (.readable fd)) :
    ∃ fs a, es = fs ++ [⟨.poll fd pollIn 50, a⟩] ∧ reportsData a = true := by
  cases es using List.reverseRecOn with
  | nil => simp at h
  | append_singleton fs e =>
    rw [serve_append] at h
    obtain ⟨p, -, he⟩ := Option.bind_eq_some_iff.mp h
    obtain ⟨a, rfl, ha⟩ := deviceUse_readable (by simpa using he)
    exact ⟨fs, a, rfl, ha⟩

/-- **The device protocol.** In every state of every run the system calls on the device
are a run of `deviceUse` that stands where the worker stands; none of them is a write;
and every read asks for 264 bytes right after a poll whose `revents` have `POLLIN` and
none of `POLLERR`, `POLLHUP` and `POLLNVAL`. -/
theorem rpmsg_worker_protocol {s : AppState} (h : appSys.Reach s) :
    serve deviceUse .unopened s.drv.trace = some s.phase ∧
    (∀ e ∈ s.drv.trace, ∀ fd bytes, e.req ≠ .write fd bytes) ∧
    ∀ es fd len a fs, s.drv.trace = es ++ ⟨.read fd len, a⟩ :: fs →
      len = sizeofAppMsg ∧ ∃ es' revents,
        es = es' ++ [⟨.poll fd pollIn 50, .ready revents⟩] ∧ revents &&& pollIn ≠ 0 ∧
          revents &&& pollErr = 0 ∧ revents &&& pollHup = 0 ∧ revents &&& pollNval = 0 := by
  have hscript := (uses_device h).script
  refine ⟨hscript, ?_, ?_⟩
  · rintro ⟨r, a⟩ he fd bytes rfl
    obtain ⟨p, p', hp⟩ := serve_mem hscript he
    exact deviceUse_write a hp
  · intro es fd len a fs hsplit
    rw [hsplit] at hscript
    obtain ⟨p, p', h1, h2, -⟩ := serve_split hscript
    obtain ⟨rfl, hlen⟩ := deviceUse_read h2
    obtain ⟨es', b, hes, hb⟩ := readable_after_poll h1
    cases b with
    | ready revents => exact ⟨hlen, es', revents, hes, of_decide_eq_true hb⟩
    | failed _ | timeout => cases hb

theorem rpmsg_worker_protocol_heartbeat :
    heartbeatEnd.drv.trace.length = 4 ∧
      serve deviceUse .unopened heartbeatEnd.drv.trace = some .closed :=
  ⟨by decide +kernel, (rpmsg_worker_protocol heartbeatEnd_reach).1.trans (by decide +kernel)⟩

/-! ## The worker's statistics -/

/-- A read of at most 264 bytes that brought some brought a packet or less than one. -/
theorem got_split {e : Exchange Posix}
    (h : ∀ fd len (a : ReadAnswer len), e = ⟨.read fd len, a⟩ → len = sizeofAppMsg) :
    (got e).toNat = (fullRead e).isSome.toNat + (shortRead e).toNat := by
  obtain ⟨r, a⟩ := e
  cases r with
  | openFile path flags => cases a <;> rfl
  | close fd => rfl
  | poll fd ev t => cases a <;> rfl
  | write fd bytes => cases a <;> rfl
  | read fd len =>
    obtain rfl := h fd len a rfl
    cases a with
    | failed e => rfl
    | data bytes hfits =>
      have hs : 0 < sizeofAppMsg := by decide
      by_cases hall : bytes.length = sizeofAppMsg
      · simp [got, fullRead, shortRead, hall]
      · have hlt : bytes.length < sizeofAppMsg := by omega
        simp [got, fullRead, shortRead, hall, hlt]

/-- **The worker's statistics.** From `rpmsg_open` on, in every state: nothing was sent;
`rx_count` is the packets received and the reads that brought less than a packet;
`err_count` is the failed open and reads, and no failed poll; modulo 2^32. -/
theorem rpmsg_worker_statistics {s : AppState} (h : appSys.Reach s)
    (hc : s.rpmsg.unopened = false) :
    s.drv.ctx.txCount = 0 ∧
    s.drv.ctx.rxCount.toNat = (s.received.length + s.drv.trace.countP shortRead) % 2 ^ 32 ∧
    s.drv.ctx.errCount.toNat = s.drv.trace.countP recorded % 2 ^ 32 := by
  have hi := uses_device h
  obtain ⟨htx, hrx, herr⟩ := hi.counted hc
  unfold Counts at htx hrx herr
  rw [tally_never] at htx hrx herr
  refine ⟨?_, ?_, herr⟩
  · have hnone : s.drv.trace.countP wrote = 0 := by
      rw [List.countP_eq_zero]
      rintro ⟨r, a⟩ he hw
      cases r with
      | write fd bytes =>
        obtain ⟨p, p', hp⟩ := serve_mem hi.script he
        exact deviceUse_write a hp
      | openFile _ _ | close _ | poll _ _ _ | read _ _ => cases hw
    rw [hnone] at htx
    exact UInt32.toNat_inj.mp htx
  · rw [hrx, countP_split (q := fun e => (fullRead e).isSome) (r := shortRead)]
    · have hlen : s.received.length = s.drv.trace.countP fun e => (fullRead e).isSome := by
        rw [← List.length_filterMap_eq_countP, ← fullReads, (device_inv h).reads, List.length_map]
      rw [hlen]
    · intro e he
      refine got_split ?_
      rintro fd len a rfl
      obtain ⟨p, p', hp⟩ := serve_mem hi.script he
      exact (deviceUse_read hp).2

theorem rpmsg_worker_statistics_heartbeat :
    heartbeatEnd.drv.ctx.rxCount.toNat = 1 ∧ heartbeatEnd.drv.ctx.errCount.toNat = 0 := by
  obtain ⟨-, hrx, herr⟩ := rpmsg_worker_statistics heartbeatEnd_reach (by decide +kernel)
  exact ⟨hrx.trans (by decide +kernel), herr.trans (by decide +kernel)⟩

end LinuxApp.App
