import LinuxApp.App.Device

/-!
# Telemetry from the device to the dashboard

`Telemetry`: every packet received is the one the worker holds before its push or
has been offered to the queue, once and in order; every packet popped is the one the
GUI worker has in hand or has been printed, in order. Together with `queue_conserve`
(what is offered below 100 is popped or still queued) and `device_inv` (what is
received is the full reads) this follows a packet from `read` to `printf`.
-/

namespace LinuxApp.App

open Lib LinuxApp.Core Drivers

/-- What the GUI worker prints before its first packet. -/
def GuiPc.banner : GuiPc → List String
  | .notCreated | .start => []
  | _ => [guiStarted]

/-- What it prints after its last. -/
def GuiPc.trailer : GuiPc → List String
  | .returned => [guiStopping]
  | _ => []

namespace AppState

/-- The packet the RPMSG worker holds before its push. -/
def holding (s : AppState) : List AppMsg := (s.rx.pc .rpmsg).unoffered

/-- The packet the GUI worker has popped and not printed yet. -/
def unprinted (s : AppState) : List AppMsg :=
  match s.gui with
  | .handle m => [m]
  | _ => (s.rx.pc .gui).inHand

structure Telemetry (s : AppState) : Prop where
  offered : s.received = (offers s.rx.log).map Prod.fst ++ s.holding
  early : s.gui.banner = [] → dequeued s.rx.log = []
  printed : ∃ handled, dequeued s.rx.log = handled ++ s.unprinted ∧
    s.output = s.gui.banner ++ handled.flatMap report ++ s.gui.trailer

section Step

variable {s s' : AppState}

theorem unprinted_of_ne (h : ∀ m, s.gui ≠ .handle m) : s.unprinted = (s.rx.pc .gui).inHand := by
  unfold unprinted
  split
  · next m hm => exact absurd hm (h m)
  · rfl

/-- A step that keeps the queue's log and positions, what was received and what the
GUI worker has done. -/
theorem Telemetry.same (hi : s.Telemetry) (hlog : s'.rx.log = s.rx.log)
    (hpc : s'.rx.pc = s.rx.pc) (hr : s'.received = s.received) (ho : s'.output = s.output)
    (hg : s'.gui = s.gui) : s'.Telemetry := by
  refine ⟨?_, ?_, ?_⟩
  · rw [hr, hlog, holding, hpc]
    exact hi.offered
  · rw [hg, hlog]
    exact hi.early
  · rw [hlog, ho, hg, unprinted, hg, hpc]
    exact hi.printed

theorem Telemetry.main (hi : s.Telemetry) (ht : s.Threads) (h : MainRan s s') :
    s'.Telemetry := by
  obtain ⟨-, hr, -, ho, hpc, -, hlog, -, hg, -⟩ := mainRan_frame h
  rcases hg with hg | ⟨hm, hg⟩
  · exact hi.same hlog hpc hr ho hg
  · have hnot := ht.notYet .gui (by rw [hm]; rfl)
    simp only [created, decide_eq_false_iff_not, not_not] at hnot
    refine ⟨?_, ?_, ?_⟩
    · rw [hr, hlog, holding, hpc]
      exact hi.offered
    · intro _
      rw [hlog]
      exact hi.early (by rw [hnot]; rfl)
    · obtain ⟨handled, hd, hout⟩ := hi.printed
      refine ⟨handled, ?_, ?_⟩
      · rw [hlog, hd, unprinted_of_ne (by simp [hnot]), unprinted_of_ne (by simp [hg]),
          hpc]
      · rw [ho, hout, hnot, hg]
        rfl

/-- A line of the RPMSG worker in the queue. -/
theorem Telemetry.push (hi : s.Telemetry) (hl : s.RxLink) (hs : s.rpmsg = .push)
    {woken : Finset Worker} {rx : QState Worker} (h : QState.Ran s.rx .rpmsg woken rx)
    (hrx : s'.rx = rx) (hr : s'.received = s.received) (ho : s'.output = s.output)
    (hg : s'.gui = s.gui) : s'.Telemetry := by
  have hpush := hl.rpmsgPush hs
  have hgui : rx.pc .gui = s.rx.pc .gui := QState.ran_other h (by decide)
  have hsame : dequeued rx.log = dequeued s.rx.log := QState.ran_push_dequeued h hpush
  refine ⟨?_, ?_, ?_⟩
  · rw [hr, hrx, holding, hrx, QState.ran_offers h]
    exact hi.offered
  · rw [hg, hrx, hsame]
    exact hi.early
  · rw [hrx, hsame, ho, hg, unprinted, hg, hrx, hgui]
    exact hi.printed

theorem Telemetry.rpmsg (hi : s.Telemetry) (hl : s.RxLink) (h : RpmsgRan s s') :
    s'.Telemetry := by
  obtain ⟨-, hg, -, ho, -, -⟩ := rpmsgRan_frame h
  cases h with
  | start _ _ _ | again _ _ | leave _ _ | poll _ _ | nothing _ _ _ | close _ _ =>
    exact hi.same rfl rfl rfl rfl rfl
  | @received es m drv rx hpc _ hcall =>
    have hidle := hl.rpmsgIdle (by simp [hpc])
    obtain ⟨hself, hother⟩ := QState.call_pc hcall
    have hlog := QState.call_log hcall
    refine ⟨?_, by rw [hlog.2]; exact hi.early, ?_⟩
    · have hheld : s.holding = [] := by rw [holding, hidle]; rfl
      have hoff := hi.offered
      rw [hheld, List.append_nil] at hoff
      show s.received ++ [m] = (offers rx.log).map Prod.fst ++ (rx.pc .rpmsg).unoffered
      rw [hself, hlog.1, hoff]
      rfl
    · rw [unprinted]
      dsimp only
      rw [hlog.2, hother .gui (by decide)]
      exact hi.printed
  | push hpc _ hr =>
    obtain ⟨rx, hrx, rfl⟩ := runRx_eq_some.mp hr
    exact hi.push hl hpc (QState.ran_of_run hrx) rfl rfl rfl rfl
  | pushed hpc _ hr =>
    obtain ⟨rx, hrx, rfl⟩ := runRx_eq_some.mp hr
    exact hi.push hl hpc (QState.ran_of_run hrx) rfl rfl rfl rfl

/-- A line of the GUI worker outside the queue: nothing is in hand there. -/
theorem inHand_idle (hl : s.RxLink) (hs : s.gui ≠ .pop) : (s.rx.pc .gui).inHand = [] := by
  rw [hl.guiIdle hs]
  rfl

/-- A line of the GUI worker in the queue offers nothing. -/
theorem Telemetry.offered_pop (hi : s.Telemetry) (hl : s.RxLink) (hs : s.gui = .pop)
    {woken : Finset Worker} {rx : QState Worker} (h : QState.Ran s.rx .gui woken rx) :
    s.received = (offers rx.log).map Prod.fst ++ (rx.pc .rpmsg).unoffered := by
  rw [QState.ran_pop_offers h (hl.guiPop hs), QState.ran_other h (by decide)]
  exact hi.offered

theorem Telemetry.gui (hi : s.Telemetry) (hl : s.RxLink) (h : GuiRan s s') :
    s'.Telemetry := by
  obtain ⟨handled, hd, hout⟩ := hi.printed
  cases h with
  | start hpc =>
    obtain ⟨rfl, -⟩ := List.append_eq_nil_iff.mp (hd.symm.trans (hi.early (by rw [hpc]; rfl)))
    refine ⟨hi.offered, nofun, [], ?_, ?_⟩
    · show dequeued s.rx.log = [] ++ (s.rx.pc .gui).inHand
      rw [hd, unprinted_of_ne (by simp [hpc])]
    · dsimp only
      rw [hout, hpc]
      rfl
  | leave hpc _ | stop hpc =>
    refine ⟨hi.offered, nofun, handled, ?_, ?_⟩
    · show dequeued s.rx.log = handled ++ (s.rx.pc .gui).inHand
      rw [hd, unprinted_of_ne (by simp [hpc])]
    · dsimp only
      rw [hout, hpc]
      simp [GuiPc.banner, GuiPc.trailer]
  | again hpc _ hcall =>
    obtain ⟨hself, hother⟩ := QState.call_pc hcall
    have hlog := QState.call_log hcall
    refine ⟨?_, nofun, handled, ?_, ?_⟩
    · rw [holding]
      dsimp only
      rw [hlog.1, hother .rpmsg (by decide)]
      exact hi.offered
    · rw [unprinted]
      dsimp only
      rw [hlog.2, hself, hd, unprinted_of_ne (by simp [hpc]),
        inHand_idle hl (by simp [hpc])]
      rfl
    · dsimp only
      rw [hout, hpc]
      rfl
  | pop hpc hno hr =>
    obtain ⟨rx, hrx, rfl⟩ := runRx_eq_some.mp hr
    have hran := QState.ran_of_run hrx
    have hpop := hl.guiPop hpc
    refine ⟨hi.offered_pop hl hpc hran, ?_, handled, ?_, ?_⟩
    · show s.gui.banner = [] → _
      simp [hpc, GuiPc.banner]
    · rw [unprinted_of_ne (by show ∀ m, s.gui ≠ _; simp [hpc])]
      show dequeued rx.log = handled ++ (rx.pc .gui).inHand
      rw [QState.ran_dequeued hran hno, hd, unprinted_of_ne (by simp [hpc]),
        Pc.inHand_of_popping hpop hno, List.append_nil]
    · exact hout
  | @popped woken _ m hpc hu hr =>
    obtain ⟨rx, hrx, rfl⟩ := runRx_eq_some.mp hr
    have hran := QState.ran_of_run hrx
    refine ⟨hi.offered_pop hl hpc hran, nofun, handled, ?_, ?_⟩
    · show dequeued rx.log = handled ++ [m]
      rw [QState.ran_unlock_dequeued hran hu, hd, unprinted_of_ne (by simp [hpc]), hu]
      rfl
    · show s.output = _
      rw [hout, hpc]
      rfl
  | @handle m hpc =>
    have hidle := inHand_idle hl (by simp [hpc])
    refine ⟨hi.offered, nofun, handled ++ [m], ?_, ?_⟩
    · show dequeued s.rx.log = handled ++ [m] ++ (s.rx.pc .gui).inHand
      rw [hd, hidle, unprinted, hpc, List.append_nil]
    · dsimp only
      rw [hout, hpc]
      simp [GuiPc.banner, GuiPc.trailer]

theorem Telemetry.step (hi : s.Telemetry) (hv : s.Inv) (h : Ran s s') : s'.Telemetry := by
  cases h with
  | signal _ | wake _ => exact hi.same rfl rfl rfl rfl rfl
  | main h => exact hi.main hv.threads h
  | rpmsg h => exact hi.rpmsg hv.link h
  | gui h => exact hi.gui hv.link h

end Step

end AppState

theorem telemetry_inv {s : AppState} (h : appSys.Reach s) : s.Telemetry := by
  induction h with
  | init h =>
    obtain ⟨q, hq⟩ := h.rx
    refine ⟨?_, ?_, [], ?_, ?_⟩
    · rw [h.received, AppState.holding, hq]
      rfl
    · rw [hq]
      exact fun _ => rfl
    · rw [AppState.unprinted, hq, h.gui]
      rfl
    · rw [h.output, h.gui]
      rfl
  | next hr hn ih => exact ih.step (app_inv hr) (AppState.ran_of_step hn)

/-- What is printed, told from the first four bytes. -/
theorem report_eq (m : AppMsg) :
    (m.toList.take 4 = [1, 0, 0, 0] → report m = dashboard m.sensor) ∧
    (m.toList.take 4 = [3, 0, 0, 0] → report m = ["[GUI THREAD] Heartbeat received from R5.\n"]) ∧
    (m.toList.take 4 ≠ [1, 0, 0, 0] → m.toList.take 4 ≠ [3, 0, 0, 0] → report m = []) := by
  unfold report
  refine ⟨fun hs => if_pos (AppMsg.type_sensor.mpr hs), ?_, ?_⟩
  · intro hb
    have hb := AppMsg.type_heartbeat.mpr hb
    rw [if_neg (by rw [hb]; decide), if_pos hb]
  · intro hs hb
    rw [if_neg (mt AppMsg.type_sensor.mp hs), if_neg (mt AppMsg.type_heartbeat.mp hb)]

/-- **Telemetry end to end.** Once the RPMSG worker exists, in every state: the packets
received are, in order, those offered to the queue and the one the worker still holds;
the packets popped and then those queued are exactly the packets offered while fewer
than 100 were held; each packet received is the bytes of one full read; and the GUI
worker has printed, in the order of its pops, the report of every packet it popped but
the one in its hand: the dashboard block with the five numbers that the bytes 8 to 31 of a
sensor packet hold, one line for a heartbeat, and nothing for any other type. -/
theorem telemetry_in_order {s : AppState} (h : appSys.Reach s) (hc : s.rpmsg ≠ .notCreated) :
    s.received = (offers s.rx.log).map Prod.fst ++ s.holding ∧
    dequeued s.rx.log ++ s.rx.q.contents =
      ((offers s.rx.log).filter fun o => o.2 ≠ (queueMaxSize : Int)).map Prod.fst ∧
    s.received.map AppMsg.toList = fullReads s.drv.trace ∧
    (∃ handled, dequeued s.rx.log = handled ++ s.unprinted ∧
      s.output = s.gui.banner ++ handled.flatMap report ++ s.gui.trailer) ∧
    ∀ m : AppMsg,
      (m.toList.take 4 = [1, 0, 0, 0] → report m =
        ["\n======================================================\n",
          "              REAL-TIME DASHBOARD LOG                 \n",
          "======================================================\n",
          "  CPU Usage   : " ++ toString (m.number 20 4) ++ "%\n",
          "  Stack Usage : " ++ toString (m.number 16 4) ++ " bytes\n",
          "  Packet Count: " ++ toString (m.number 24 4) ++ "\n",
          "  Error Count : " ++ toString (m.number 28 4) ++ "\n",
          "  Timestamp   : " ++ toString (m.number 8 8) ++ " ms\n",
          "======================================================\n"]) ∧
      (m.toList.take 4 = [3, 0, 0, 0] →
        report m = ["[GUI THREAD] Heartbeat received from R5.\n"]) ∧
      (m.toList.take 4 ≠ [1, 0, 0, 0] → m.toList.take 4 ≠ [3, 0, 0, 0] → report m = []) := by
  have ht := telemetry_inv h
  refine ⟨ht.offered, queue_conserve ((app_inv h).link.reach_of_created hc),
    (device_inv h).reads.symm, ht.printed, fun m => ?_⟩
  obtain ⟨hsensor, hbeat, hother⟩ := report_eq m
  refine ⟨fun hs => ?_, hbeat, hother⟩
  rw [hsensor hs, m.sensor_eq_numbers]
  rfl

/-- A packet that the queue has room for. -/
def receiveAndPush (m : AppMsg) : List Act := receive m ++ List.replicate 5 (.rpmsg [] ∅)

/-- The GUI worker's loop test, pop and report, with a packet queued. -/
def popAndReport : List Act := List.replicate 6 (.gui ∅)

/-- A sensor packet: timestamp 258, stack 1024, CPU 42, 7 packets, 2 errors. -/
def sensorPacket : AppMsg :=
  .ofList ([1, 0, 0, 0, 0, 0, 0, 0, 2, 1, 0, 0, 0, 0, 0, 0, 0, 4, 0, 0, 42, 0, 0, 0, 7, 0, 0, 0,
    2, 0, 0, 0] ++ List.replicate 232 0)

/-- A sensor packet, a heartbeat and a packet of no known type, then `SIGINT`. -/
def threeKinds : List Act :=
  bringUp ++ [openDevice, .gui ∅] ++
    (receiveAndPush sensorPacket ++ popAndReport) ++
    (receiveAndPush heartbeat ++ popAndReport) ++
    (receiveAndPush default ++ popAndReport) ++
    [.signal .sigint, .gui ∅, .gui ∅, .rpmsg [] ∅, closeDevice] ++ tearDown

theorem threeKinds_runs : (Sys.exec AppState.step processStart threeKinds).isSome := by
  decide +kernel

def threeKindsEnd : AppState :=
  (Sys.exec AppState.step processStart threeKinds).get threeKinds_runs

/-- Three packets came and three are on the screen, the third without a line. -/
theorem telemetry_in_order_threeKinds :
    threeKindsEnd.received.length = 3 ∧
    threeKindsEnd.received.map AppMsg.toList = fullReads threeKindsEnd.drv.trace ∧
    threeKindsEnd.output =
      ["[GUI THREAD] Dashboard & Operator Interface Worker started.\n",
        "\n======================================================\n",
        "              REAL-TIME DASHBOARD LOG                 \n",
        "======================================================\n",
        "  CPU Usage   : 42%\n",
        "  Stack Usage : 1024 bytes\n",
        "  Packet Count: 7\n",
        "  Error Count : 2\n",
        "  Timestamp   : 258 ms\n",
        "======================================================\n",
        "[GUI THREAD] Heartbeat received from R5.\n",
        "[GUI THREAD] Stopping GUI worker...\n"] := by
  have hr : appSys.Reach threeKindsEnd := Sys.reach_exec processStart_init threeKinds_runs
  obtain ⟨hlen, hc, hgui, hnone⟩ : threeKindsEnd.received.length = 3 ∧
      threeKindsEnd.rpmsg ≠ .notCreated ∧ threeKindsEnd.gui = .returned ∧
      threeKindsEnd.unprinted = [] := by decide +kernel
  have hpopped : (dequeued threeKindsEnd.rx.log).map (fun m => (m.toList.take 4, m.number 20 4,
      m.number 16 4, m.number 24 4, m.number 28 4, m.number 8 8)) =
      [([1, 0, 0, 0], 42, 1024, 7, 2, 258), ([3, 0, 0, 0], 0, 0, 0, 0, 0),
        ([0, 0, 0, 0], 0, 0, 0, 0, 0)] := by decide +kernel
  obtain ⟨-, -, hreads, ⟨handled, hhandled, hout⟩, hreport⟩ := telemetry_in_order hr hc
  rw [hnone, List.append_nil] at hhandled
  rw [hhandled] at hpopped
  obtain ⟨m₁, rest, rfl, h₁, hpopped⟩ := List.map_eq_cons_iff.mp hpopped
  obtain ⟨m₂, rest, rfl, h₂, hpopped⟩ := List.map_eq_cons_iff.mp hpopped
  obtain ⟨m₃, rest, rfl, h₃, hpopped⟩ := List.map_eq_cons_iff.mp hpopped
  obtain rfl := List.map_eq_nil_iff.mp hpopped
  simp only [Prod.mk.injEq] at h₁ h₂ h₃
  obtain ⟨htype, hcpu, hstack, hpkt, herr, htime⟩ := h₁
  refine ⟨hlen, hreads, ?_⟩
  rw [hout, hgui, List.flatMap_cons, List.flatMap_cons, List.flatMap_cons,
    (hreport m₁).1 htype, (hreport m₂).2.1 h₂.1,
    (hreport m₃).2.2 (by rw [h₃.1]; decide) (by rw [h₃.1]; decide), hcpu, hstack, hpkt, herr,
    htime]
  rfl

/-! ## What becomes of a packet -/

/-- The packets whose push found 100 messages. -/
def rejected {T : Type} (log : List (Event T)) : List AppMsg :=
  ((offers log).filter fun o => o.2 = (queueMaxSize : Int)).map Prod.fst

/-- Nothing touches the driver's context while the RPMSG worker is in its push. -/
theorem AppState.drv_of_push {s s' : AppState} (hs : s.rpmsg = .push) (h : Ran s s') :
    s'.drv = s.drv := by
  cases h with
  | signal _ | wake _ => rfl
  | main h => exact (mainRan_frame h).1
  | gui h => exact (guiRan_frame h).2.2.2.1
  | rpmsg h =>
    cases h with
    | push _ _ hr | pushed _ _ hr =>
      obtain ⟨rx, -, rfl⟩ := runRx_eq_some.mp hr
      rfl
    | start hpc _ _ | again hpc _ | leave hpc _ | poll hpc _ | received hpc _ _
    | nothing hpc _ _ | close hpc _ => cases hs.symm.trans hpc

/-- When `main` returns `EXIT_SUCCESS` the workers have nothing in hand. -/
theorem AppState.Inv.exited {s : AppState} (hi : s.Inv) (hm : s.main = .exited .success) :
    s.running = false ∧ s.holding = [] ∧ s.unprinted = [] := by
  have hgui := hi.flags.success (by rw [hm]; rfl)
  have hdead := hi.threads.not_alive (t := .rpmsg) (by rw [hm]; rfl)
  refine ⟨hi.flags.gui (.inr hgui), ?_, ?_⟩
  · have hidle : s.rpmsg ≠ .push := by
      intro hs
      rw [AppState.alive, hs] at hdead
      cases hdead
    rw [AppState.holding, hi.link.rpmsgIdle hidle]
    rfl
  · rw [AppState.unprinted_of_ne (by simp [hgui]),
      AppState.inHand_idle hi.link (by simp [hgui])]

/-- Then the report of every packet popped has been printed. -/
theorem AppState.Telemetry.exited {s : AppState} (ht : s.Telemetry) (hi : s.Inv)
    (hm : s.main = .exited .success) :
    s.output = guiStarted :: (dequeued s.rx.log).flatMap report ++ [guiStopping] := by
  obtain ⟨handled, hdeq, hout⟩ := ht.printed
  obtain ⟨-, -, hun⟩ := hi.exited hm
  rw [hun, List.append_nil] at hdeq
  rw [hout, hi.flags.success (by rw [hm]; rfl), hdeq]
  rfl

/-- **What becomes of a packet.** The packets received are those popped, those queued,
those rejected and the one the worker holds; each is offered once, in order, accepted
below 100 messages and rejected with `-ENOSPC` at 100, and a push leaves the driver's
context, `err_count` included, as it is. When `main` returns `EXIT_SUCCESS` a stop was
requested, neither worker has a packet in hand, and between its two banners the GUI worker
has printed the report of every packet popped. -/
theorem received_accounted {s : AppState} (h : appSys.Reach s) (hc : s.rpmsg ≠ .notCreated) :
    s.received.Perm
      (dequeued s.rx.log ++ s.rx.q.contents ++ rejected s.rx.log ++ s.holding) ∧
    s.received = (offers s.rx.log).map Prod.fst ++ s.holding ∧
    (∀ t m (ret held : Int), .effect t (.push m ret) held ∈ s.rx.log →
      ret = 0 ∧ held < queueMaxSize ∨ ret = -enospc ∧ held = queueMaxSize) ∧
    (∀ a s', appSys.Next s a s' → s.rpmsg = .push → s'.drv = s.drv) ∧
    (s.main = .exited .success → s.running = false ∧ s.holding = [] ∧ s.unprinted = [] ∧
      s.output = guiStarted :: (dequeued s.rx.log).flatMap report ++ [guiStopping]) := by
  have hi := app_inv h
  have hreach := hi.link.reach_of_created hc
  have ht := telemetry_inv h
  have hoff := ht.offered
  refine ⟨?_, hoff, ?_, ?_, fun hm => ?_⟩
  · rw [hoff, queue_conserve hreach, rejected, ← List.map_append]
    refine (List.Perm.map _ ?_).append_right _
    simpa using (List.filter_append_perm
      (fun o : AppMsg × Int => decide (o.2 ≠ (queueMaxSize : Int))) (offers s.rx.log)).symm
  · intro t m ret held he
    exact queue_decided hreach _ he
  · intro a s' hn hs
    exact AppState.drv_of_push hs (AppState.ran_of_step hn)
  · obtain ⟨hrun, hhold, hun⟩ := hi.exited hm
    exact ⟨hrun, hhold, hun, ht.exited hi hm⟩

theorem received_accounted_heartbeat :
    heartbeatEnd.received.length = 1 ∧
      (dequeued heartbeatEnd.rx.log ++ heartbeatEnd.rx.q.contents ++
        rejected heartbeatEnd.rx.log ++ heartbeatEnd.holding).length = 1 ∧
      heartbeatEnd.output =
        guiStarted :: (dequeued heartbeatEnd.rx.log).flatMap report ++ [guiStopping] := by
  have hc : heartbeatEnd.rpmsg ≠ .notCreated := by decide +kernel
  have hm : heartbeatEnd.main = .exited .success := by decide +kernel
  obtain ⟨hperm, -, -, -, hexit⟩ := received_accounted heartbeatEnd_reach hc
  obtain ⟨-, -, -, hout⟩ := hexit hm
  have hone : heartbeatEnd.received.length = 1 := by decide +kernel
  exact ⟨hone, hperm.length_eq.symm.trans hone, hout⟩

/-- The GUI worker is slow to start: 100 packets fill the queue and one more finds no
room; then `SIGINT` stops both workers. -/
def overloadRun : List Act :=
  bringUp ++ [openDevice] ++ (List.replicate 100 (receiveAndPush heartbeat)).flatten ++
    receive heartbeat ++ List.replicate 3 (.rpmsg [] ∅) ++ [.signal .sigint] ++
    List.replicate 3 (.gui ∅) ++ [.rpmsg [] ∅, closeDevice] ++ tearDown

/-- 101 packets are offered once each, the last to 100 held messages and never again; no
counter records that; and the 100 accepted are never popped. -/
theorem overload_loses_packets :
    ∃ s, appSys.Reach s ∧ s.main = .exited .success ∧ s.received.length = 101 ∧
      (offers s.rx.log).map Prod.snd = (List.range 101).map Int.ofNat ∧
      s.drv.ctx.errCount = 0 ∧ dequeued s.rx.log = [] ∧ s.rx.q.contents.length = 100 :=
  Sys.Reach.exists_exec overloadRun (.init processStart_init) (fun _ _ _ _ hn => hn)
    (by decide +kernel)

end LinuxApp.App
