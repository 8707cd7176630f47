import LinuxApp.App.SharedQueue

/-!
# The lifetime of the queues' pthread objects

`MainPc.live` is the set of mutexes and condition variables that are initialised at
each line of `main`. `SyncInv`: the log of initialisations, uses and destructions
keeps the discipline of lifetimes and leaves exactly these live, and no object is
initialised twice. A worker's uses fall between the initialisation and the
destruction because a worker is alive only between its creation and its join.
-/

namespace LinuxApp.App

open Lib LinuxApp.Core Drivers

instance : Fintype QueueId := ⟨{.rx, .tx}, fun q => by cases q <;> decide⟩

instance : Fintype QueuePart := ⟨{.lock, .cond}, fun p => by cases p <;> decide⟩

/-- The two pthread objects of a queue. -/
def objs (q : QueueId) : Finset SyncObj := {(q, .lock), (q, .cond)}

/-- The objects initialised and not destroyed at this line of `main`. -/
def MainPc.live : MainPc → Finset SyncObj
  | .signalInt | .signalTerm | .initRx | .exited _ => ∅
  | .initTx | .destroyOnlyRx => objs .rx
  | .destroyTx _ => objs .tx
  | _ => objs .rx ∪ objs .tx

/-- `main` has not come to the initialisation of the queue. -/
def MainPc.before : MainPc → QueueId → Bool
  | .signalInt, _ | .signalTerm, _ | .initRx, _ => true
  | .initTx, .tx => true
  | _, _ => false

theorem live_of_mayRun {p : MainPc} {t : Worker} (h : p.mayRun t = true) :
    p.live = objs .rx ∪ objs .tx := by
  cases p <;> first | rfl | cases h

namespace AppState

structure SyncInv (s : AppState) : Prop where
  live : Lifetime.after ∅ s.sync = some s.main.live
  once : ∀ q p, Lifetime.acquired s.sync (q, p) ≤ if s.main.before q then 0 else 1

end AppState

/-- A step of `main` from `p` to `p'` may log `ops`: they lead from the objects live at
`p` to those live at `p'`, and initialise a queue only where `main` passes its
initialisation. -/
def Logs (p : MainPc) (ops : List (SyncObj × Lifetime.Op)) (p' : MainPc) : Prop :=
  Lifetime.after p.live ops = some p'.live ∧
  (∀ q x, Lifetime.acquired ops (q, x) ≤ if p.before q ∧ p'.before q = false then 1 else 0) ∧
  ∀ q, p'.before q = true → p.before q = true

instance (p : MainPc) (ops : List (SyncObj × Lifetime.Op)) (p' : MainPc) :
    Decidable (Logs p ops p') := inferInstanceAs (Decidable (_ ∧ _ ∧ _))

namespace AppState

section Step

variable {s s' : AppState}

/-- A step that adds `ops` to the log. -/
theorem SyncInv.extend (hi : s.SyncInv) {ops : List (SyncObj × Lifetime.Op)}
    (hsync : s'.sync = s.sync ++ ops) (hlogs : Logs s.main ops s'.main) : s'.SyncInv := by
  obtain ⟨hlive, honce, hmono⟩ := hlogs
  refine ⟨?_, ?_⟩
  · rw [hsync, Lifetime.after_append, hi.live]
    exact hlive
  · intro q p
    have h0 := hi.once q p
    have h1 := honce q p
    rw [hsync, Lifetime.acquired_append]
    cases hb : s'.main.before q with
    | true =>
      rw [hmono q hb] at h0
      simp only [hb, Bool.true_eq_false, and_false, if_false] at h1
      simp only [if_true] at h0 ⊢
      omega
    | false =>
      cases hs : s.main.before q with
      | true =>
        simp only [hs, hb, and_self, if_true] at h0 h1
        simp only [Bool.false_eq_true, if_false]
        omega
      | false =>
        simp only [hs, Bool.false_eq_true, if_false, false_and] at h0 h1
        simp only [Bool.false_eq_true, if_false]
        omega

/-- Uses by a worker that is alive. -/
theorem SyncInv.uses (hi : s.SyncInv) (ht : s.Threads) {t : Worker} (hal : s.alive t = true)
    (ps : List QueuePart) (hm : s'.main = s.main)
    (hsync : s'.sync = s.sync ++ tagged .rx (ps.map fun p => (p, .use))) : s'.SyncInv := by
  have hlive := live_of_mayRun (ht.mayRun t hal)
  refine hi.extend hsync ⟨?_, ?_, by rw [hm]; exact fun _ => id⟩
  · rw [hm, hlive]
    refine Lifetime.after_uses ?_
    simp only [tagged, List.map_map, List.mem_map, Function.comp]
    rintro _ ⟨p, -, rfl⟩
    cases p <;> exact ⟨by decide, rfl⟩
  · intro q p
    rw [Lifetime.acquired_eq_zero (by simp [tagged])]
    exact Nat.zero_le _

theorem SyncInv.main (hi : s.SyncInv) (h : MainRan s s') : s'.SyncInv := by
  cases h with
  | signalInt hm | signalTerm hm | createRpmsg hm | noRpmsg hm | rpmsgFailed hm | createGui hm
  | noGui hm | guiFailed hm | joinAfterFail hm _ | joinRpmsg hm _ | joinGui hm _ =>
    exact hi.extend (List.append_nil _).symm (by rw [hm]; dsimp only; decide)
  | notRegistered hm =>
    refine hi.extend (List.append_nil _).symm ?_
    rcases hm with hm | hm
    · rw [hm]; dsimp only; decide
    · rw [hm]; dsimp only; decide
  | initRx hm hinit | initTx hm hinit =>
    refine hi.extend rfl ?_
    rw [hm, logSync_main]
    dsimp only
    rcases msgQueueInit_ops hinit with ⟨rfl, rfl⟩ | ⟨hret, rfl | rfl⟩
    · decide
    · rw [if_pos hret]; decide
    · rw [if_pos hret]; decide
  | destroyOnlyRx hm =>
    refine hi.extend rfl ?_
    rw [hm, logSync_main]
    show Logs _ (tagged .rx [(.lock, .release), (.cond, .release)]) (.exited .failure)
    decide
  | @destroyRx e hm =>
    refine hi.extend rfl ?_
    rw [hm, logSync_main]
    show Logs _ (tagged .rx [(.lock, .release), (.cond, .release)]) (.destroyTx e)
    cases e <;> decide
  | @destroyTx e hm =>
    refine hi.extend rfl ?_
    rw [hm, logSync_main]
    show Logs _ (tagged .tx [(.lock, .release), (.cond, .release)]) (.exited e)
    cases e <;> decide

theorem SyncInv.same (hi : s.SyncInv) (hm : s'.main = s.main) (hsync : s'.sync = s.sync) :
    s'.SyncInv := ⟨by rw [hsync, hm]; exact hi.live, by rw [hsync, hm]; exact hi.once⟩

theorem SyncInv.step (hi : s.SyncInv) (ht : s.Threads) (h : Ran s s') : s'.SyncInv := by
  cases h with
  | signal _ | wake _ => exact hi.same rfl rfl
  | main h => exact hi.main h
  | rpmsg h =>
    obtain ⟨hm, -, -, -, hal, -⟩ := rpmsgRan_frame h
    cases h with
    | push _ _ hr | pushed _ _ hr =>
      obtain ⟨rx, -, rfl⟩ := runRx_eq_some.mp hr
      exact hi.uses ht (t := .rpmsg) hal _ hm rfl
    | _ => exact hi.same hm rfl
  | gui h =>
    obtain ⟨hm, -, -, -, -, -, hal, -⟩ := guiRan_frame h
    cases h with
    | pop _ _ hr | popped _ _ hr =>
      obtain ⟨rx, -, rfl⟩ := runRx_eq_some.mp hr
      exact hi.uses ht (t := .gui) hal _ hm rfl
    | _ => exact hi.same hm rfl

end Step

/-- No worker can touch the queue any more. -/
structure Quiet (s : AppState) : Prop where
  dead : ∀ t, s.alive t = false
  idle : ∀ t, s.rx.pc t = .idle
  unlocked : s.rx.mon.owner = none
  nobodyAsleep : s.rx.mon.waiting = ∅

/-- Where no worker may run, none holds or waits for anything. -/
theorem Inv.quiet {s : AppState} (hi : s.Inv) (hm : ∀ t, s.main.mayRun t = false)
    (hf : s.main.fresh = false) (he : s.main ≠ .exited .failure) : s.Quiet := by
  have hdead : ∀ t, s.alive t = false := fun t => hi.threads.not_alive (hm t)
  have hidle : ∀ t, s.rx.pc t = .idle := by
    intro t
    cases t with
    | rpmsg =>
      refine hi.link.rpmsgIdle fun hs => ?_
      have hal := hdead .rpmsg
      rw [alive, hs] at hal
      cases hal
    | gui =>
      refine hi.link.guiIdle fun hs => ?_
      have hal := hdead .gui
      rw [alive, hs] at hal
      cases hal
  have hc := (queue_inv (hi.link.reach_at hf he)).coherent
  have hout : ∀ t, s.rx.place t = .outside := fun t => QState.place_of_pc (hidle t)
  refine ⟨hdead, hidle, ?_, ?_⟩
  · rcases ho : s.rx.mon.owner with _ | t
    · rfl
    · have hin := (hc.owner t).mp ho
      rw [hout t] at hin
      cases hin
  · refine Finset.eq_empty_of_forall_notMem fun t ht => ?_
    have hb := hc.asleep t ht
    rw [hout t] at hb
    cases hb

/-- `main` is about to destroy a queue. -/
def Destroying (s : AppState) : Prop :=
  s.main = .destroyOnlyRx ∨ ∃ e, s.main = .destroyRx e ∨ s.main = .destroyTx e

end AppState

theorem sync_inv {s : AppState} (h : appSys.Reach s) : s.SyncInv := by
  induction h with
  | init h =>
    refine ⟨?_, ?_⟩
    · rw [h.sync, h.main]; rfl
    · intro q p
      rw [h.sync]
      exact Nat.zero_le _
  | next hr hn ih => exact ih.step (app_inv hr).threads (AppState.ran_of_step hn)

/-- **Queue lifecycle.** For every outcome of every fallible call and every schedule:
each use and each destruction of a mutex or condition variable finds it initialised
and not destroyed; a queue is destroyed only when no worker is left that could touch
it; and when `main` has returned, every object initialised has been destroyed exactly
once and every thread created has finished. -/
theorem queue_lifecycle {s : AppState} (h : appSys.Reach s) :
    (∀ es k o fs, s.sync = es ++ (k, o) :: fs → o ≠ .acquire →
      ∃ L, Lifetime.after ∅ es = some L ∧ k ∈ L) ∧
    (s.Destroying → s.Quiet) ∧
    (∀ e, s.main = .exited e →
      (∀ k, Lifetime.released s.sync k = Lifetime.acquired s.sync k ∧
        Lifetime.acquired s.sync k ≤ 1) ∧
      ∀ t, s.alive t = false) := by
  have hi := app_inv h
  have hs := sync_inv h
  refine ⟨?_, ?_, ?_⟩
  · intro es k o fs he ho
    have hlive := hs.live
    rw [he] at hlive
    exact Lifetime.live_before hlive ho
  · rintro (hm | ⟨e, hm | hm⟩)
    · exact hi.quiet (fun t => by rw [hm]; rfl) (by rw [hm]; rfl) (by simp [hm])
    · exact hi.quiet (fun t => by rw [hm]; rfl) (by rw [hm]; rfl) (by simp [hm])
    · exact hi.quiet (fun t => by rw [hm]; rfl) (by rw [hm]; rfl) (by simp [hm])
  · intro e hm
    refine ⟨?_, fun t => hi.threads.not_alive (by rw [hm]; rfl)⟩
    rintro ⟨q, p⟩
    have hlive := hs.live
    have honce := hs.once q p
    rw [hm] at hlive honce
    have hbal := Lifetime.count_balance hlive (q, p)
    have hempty : (q, p) ∉ (MainPc.exited e).live := by simp [MainPc.live]
    rw [if_neg hempty, if_neg (by simp)] at hbal
    exact ⟨by omega, honce⟩

theorem queue_lifecycle_heartbeat :
    heartbeatEnd.main = .exited .success ∧ heartbeatEnd.sync.length = 17 ∧
      (∀ k, Lifetime.released heartbeatEnd.sync k = Lifetime.acquired heartbeatEnd.sync k) ∧
      ∀ t, heartbeatEnd.alive t = false := by
  have hexit : heartbeatEnd.main = .exited .success := by decide +kernel
  obtain ⟨-, -, hend⟩ := queue_lifecycle heartbeatEnd_reach
  obtain ⟨hcount, hdead⟩ := hend .success hexit
  exact ⟨hexit, by decide +kernel, fun k => (hcount k).1, hdead⟩

end LinuxApp.App
