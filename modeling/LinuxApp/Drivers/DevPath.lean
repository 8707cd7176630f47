import LinuxApp.Drivers.Descriptors
import Mathlib.Data.List.GetD

/-!
# The path that `rpmsg_open` opens

`dev_path` holds the first 63 bytes of the last non-empty string that `rpmsg_open` was
given since the initialisation, whatever came of that call, and the default before the
first one: `driver_path`. It is never empty, so NULL always means the path of the last
call and the default is never chosen again.
-/

namespace LinuxApp.Drivers

open Lib LinuxApp.Core
open Prog (replay)

/-! ## The string in `dev_path` -/

namespace RpmsgCtx

theorem setPath_devPath (c : RpmsgCtx) (p : CStr) : (c.setPath p).devPath.toList =
    p.bytes.take (sizeofDevPath - 1) ++
      List.replicate (sizeofDevPath - (p.bytes.take (sizeofDevPath - 1)).length) 0 := by
  apply List.ext_getElem
  · simp only [Vector.length_toList, List.length_append, List.length_replicate, List.length_take]
    omega
  · intro i h1 h2
    rw [Vector.length_toList] at h1
    simp only [setPath, strncpy, Vector.getElem_toList, Vector.getElem_set, Vector.getElem_ofFn,
      List.getElem_append, List.getElem_replicate, List.getElem_take, List.length_take]
    split
    · next hi => rw [dif_neg (by omega)]
    · next hi =>
      rw [if_pos (by omega)]
      split
      · next hlt => rw [List.getD_eq_getElem _ _ (by omega)]
      · next hge => rw [List.getD_eq_default _ _ (by omega)]

/-- The string stored is cut to 63 bytes. -/
theorem setPath_path (c : RpmsgCtx) (p : CStr) :
    (c.setPath p).path = p.bytes.take (sizeofDevPath - 1) := by
  have hno : ∀ b ∈ p.bytes.take (sizeofDevPath - 1), decide (b ≠ 0) = true := by
    intro b hb
    rw [decide_eq_true_eq]
    intro h0
    exact p.noNul (h0 ▸ List.mem_of_mem_take hb)
  rw [path, setPath_devPath, List.takeWhile_append_of_pos hno, List.takeWhile_replicate]
  simp

end RpmsgCtx

/-! ## The last path given -/

/-- The non-empty string that a call gives to `rpmsg_open`. -/
def Done.path (d : Done) : Option CStr :=
  match d.call with
  | .openDev (some p) => if p.bytes.length > 0 then some p else none
  | _ => none

/-- The last non-empty string given to `rpmsg_open`. -/
def lastPath (log : List Done) : Option CStr := (log.filterMap Done.path).getLast?

/-- What `dev_path` holds after the calls of a log. -/
def storedPath (log : List Done) : List UInt8 :=
  ((lastPath log).getD defaultDevPath).bytes.take (sizeofDevPath - 1)

theorem lastPath_snoc (log : List Done) (d : Done) :
    lastPath (log ++ [d]) = d.path.or (lastPath log) := by
  unfold lastPath
  rw [List.filterMap_append, List.getLast?_append]
  cases h : d.path with
  | none => simp [h]
  | some p => simp [h]

theorem storedPath_snoc (log : List Done) (d : Done) : storedPath (log ++ [d]) =
    (d.path.map fun p => p.bytes.take (sizeofDevPath - 1)).getD (storedPath log) := by
  unfold storedPath
  rw [lastPath_snoc]
  cases d.path with
  | none => rfl
  | some p => rfl

theorem lastPath_nonempty {log : List Done} {p : CStr} (h : lastPath log = some p) :
    0 < p.bytes.length := by
  have hmem : p ∈ log.filterMap Done.path := List.mem_of_getLast? h
  obtain ⟨d, -, hd⟩ := List.mem_filterMap.mp hmem
  unfold Done.path at hd
  split at hd
  · split at hd
    · next hpos => exact Option.some.inj hd ▸ hpos
    · cases hd
  · cases hd

theorem storedPath_ne_nil (log : List Done) : storedPath log ≠ [] := by
  have hpos : 0 < ((lastPath log).getD defaultDevPath).bytes.length := by
    cases h : lastPath log with
    | none => decide
    | some p => exact lastPath_nonempty h
  rw [storedPath, Ne, List.take_eq_nil_iff, not_or]
  exact ⟨by decide, List.ne_nil_of_length_pos hpos⟩

/-- With a path stored, `rpmsg_open` takes the string it is given or the path stored. -/
theorem choosePath_path {c : RpmsgCtx} (h : c.path ≠ []) (path : Option CStr) (ret : Int)
    (es : Exchanges) : (choosePath c path).path = ((Done.path ⟨.openDev path, ret, es⟩).map
      fun p => p.bytes.take (sizeofDevPath - 1)).getD c.path := by
  have hlen : ¬ c.path.length = 0 := by rwa [List.length_eq_zero_iff]
  unfold choosePath Done.path
  cases path with
  | none => simp only [if_neg hlen, Option.map_none, Option.getD_none]
  | some p =>
    by_cases hp : p.bytes.length > 0
    · simp only [if_pos hp, RpmsgCtx.setPath_path, Option.map_some, Option.getD_some]
    · simp only [if_neg hp, if_neg hlen, Option.map_none, Option.getD_none]

theorem path_congr {c c' : RpmsgCtx} (h : c'.devPath = c.devPath) : c'.path = c.path := by
  rw [RpmsgCtx.path, h, RpmsgCtx.path]

theorem openResult_devPath (c : RpmsgCtx) (a : OpenAnswer) :
    (openResult c a).2.devPath = c.devPath := by
  cases a <;> rfl

section Calls

variable {c c' : RpmsgCtx} {es : Exchanges} {ret : Int}

/-- The system calls of a close hand over no path. -/
theorem close_no_open (h : replay c.close es = some c') {p : List UInt8} {flags : Nat}
    (a : OpenAnswer) : (⟨.openFile p flags, a⟩ : Exchange Posix) ∉ es := by
  cases ho : c.isOpen with
  | true =>
    obtain ⟨answer, rfl, -⟩ := (close_open ho).mp h
    intro hmem
    cases congrArg Exchange.req (List.mem_singleton.mp hmem)
  | false =>
    obtain ⟨rfl, -⟩ := (close_closed ho).mp h
    simp

/-- One call stores the path it is given, if it is given one. -/
theorem call_path {call : DrvCall} (hc : c.path ≠ [])
    (h : replay (call.run (some c)) es = some (ret, some c')) : c'.path =
      ((Done.path ⟨call, ret, es⟩).map fun p => p.bytes.take (sizeofDevPath - 1)).getD c.path := by
  rcases call.groups with ht | ⟨path, rfl⟩ | rfl
  · obtain ⟨_, hsome, hk⟩ := transfer_keeps ht h
    obtain rfl := Option.some.inj hsome
    rw [path_congr hk.devPath]
    cases call with
    | openDev _ | close => exact ht.elim
    | pollReady _ | readRaw _ _ _ | writeRaw _ _ | sendMsg _ | recvMsg _ _ | resetStats => rfl
  · obtain ⟨es₁, c₁, a, h1, rfl, rfl, hsome⟩ := rpmsgOpen_iff.mp h
    obtain rfl := Option.some.inj hsome
    obtain ⟨-, -, hdev, -⟩ := close_disciplined h1
    have hpath := path_congr hdev
    rw [path_congr (openResult_devPath _ a), ← hpath]
    exact choosePath_path (hpath ▸ hc) path _ _
  · obtain ⟨_, hclose, -, hsome⟩ := close_run.mp h
    obtain rfl := Option.some.inj hsome
    obtain ⟨-, -, hdev, -⟩ := close_disciplined hclose
    exact path_congr hdev

end Calls

/-- In every run `dev_path` holds the path given last. -/
theorem driver_path {s : DrvState} (h : driverSys.Reach s) : s.ctx.path = storedPath s.log := by
  induction h with
  | @init s h =>
    obtain ⟨c, hc, -, hlog⟩ := h
    have hdev : s.ctx.devPath = (c.setPath defaultDevPath).devPath := by
      rw [← Option.some.inj hc]
    rw [hlog, path_congr hdev, RpmsgCtx.setPath_path]
    rfl
  | @next s t a _ hn ih =>
    obtain ⟨ret, c', fds, hp, -, rfl⟩ := DrvState.step_eq_some.mp hn
    have hne : s.ctx.path ≠ [] := ih ▸ storedPath_ne_nil s.log
    rw [storedPath_snoc, ← ih]
    exact call_path hne hp

/-! ## The device asked for -/

/-- `p` is the path that the argument `path` asks for. An empty string asks for none. -/
def Asks (path : Option CStr) (p : List UInt8) : Prop :=
  match path with
  | none => p = defaultDevPath.bytes
  | some q => q.bytes ≠ [] → p = q.bytes

/-- `rpmsg_open` opens the device it was asked for, or none. -/
structure OpensAsked (path : Option CStr) (ret : Int) (es : Exchanges) : Prop where
  opened : ∀ p flags a, (⟨.openFile p flags, a⟩ : Exchange Posix) ∈ es → Asks path p
  /-- A path too long for `dev_path` makes the call fail. -/
  stored : ∀ q, path = some q → sizeofDevPath ≤ q.bytes.length → ret < 0

/-- The argument fits `dev_path`, and if it is NULL, no other path than the default
was the last one given before. -/
def Fits (log : List Done) (path : Option CStr) : Prop :=
  match path with
  | none => ∀ p, lastPath log = some p → p = defaultDevPath
  | some q => q.bytes.length < sizeofDevPath

/-- `rpmsg_open` hands over what `dev_path` then holds. -/
theorem rpmsgOpen_opens {c c' : RpmsgCtx} {es : Exchanges} {ret : Int} {path : Option CStr}
    (h : replay (rpmsgOpen (some c) path) es = some (ret, some c')) {p : List UInt8} :
    (∃ flags a, (⟨.openFile p flags, a⟩ : Exchange Posix) ∈ es) ↔ p = c'.path := by
  obtain ⟨es₁, c₁, a, h1, rfl, rfl, hsome⟩ := rpmsgOpen_iff.mp h
  obtain rfl := Option.some.inj hsome
  rw [path_congr (openResult_devPath _ a)]
  refine ⟨fun hx => ?_, fun hx => ?_⟩
  · obtain ⟨flags, b, hmem⟩ := hx
    rcases List.mem_append.mp hmem with hmem | hmem
    · exact absurd hmem (close_no_open h1 b)
    · have hreq := congrArg Exchange.req (List.mem_singleton.mp hmem)
      exact (Syscall.openFile.inj hreq).1
  · subst hx
    exact ⟨_, a, List.mem_append_right _ (List.mem_singleton_self _)⟩

/-- NULL stands for the path stored, which is the default unless another was given. -/
theorem storedPath_default {log : List Done} : storedPath log = defaultDevPath.bytes ↔
    ∀ p, lastPath log = some p → p = defaultDevPath := by
  unfold storedPath
  cases h : lastPath log with
  | none =>
    refine ⟨fun _ p hp => ?_, fun _ => rfl⟩
    cases hp
  | some p =>
    simp only [Option.getD_some, Option.some.injEq, forall_eq']
    refine ⟨fun hp => ?_, fun hp => ?_⟩
    · have hlen := congrArg List.length hp
      have hdef : defaultDevPath.bytes.length = 11 := rfl
      have hsize : sizeofDevPath = 64 := rfl
      rw [List.length_take, hdef] at hlen
      rw [List.take_of_length_le (by omega)] at hp
      cases p
      simpa [defaultDevPath] using hp
    · subst hp; rfl

/-- A string is stored whole just if it leaves room for the NUL. -/
theorem take_eq_self {q : CStr} :
    q.bytes.take (sizeofDevPath - 1) = q.bytes ↔ q.bytes.length < sizeofDevPath := by
  have hsize : sizeofDevPath = 64 := rfl
  rw [List.take_eq_self_iff]
  omega

theorem asks_stored (log : List Done) (path : Option CStr) (ret : Int) (es : Exchanges) :
    Asks path (storedPath (log ++ [⟨.openDev path, ret, es⟩])) ↔ Fits log path := by
  rw [storedPath_snoc]
  cases path with
  | none => exact storedPath_default
  | some q =>
    unfold Done.path Asks Fits
    by_cases hq : q.bytes.length > 0
    · have hne := List.ne_nil_of_length_pos hq
      simp only [if_pos hq, Option.map_some, Option.getD_some, take_eq_self]
      exact ⟨fun h => h hne, fun h _ => h⟩
    · have hnil := List.eq_nil_of_length_eq_zero (Nat.eq_zero_of_not_pos hq)
      simp [hnil]

/-- **What `rpmsg_open` opens.** After any history, a call opens the device it was asked
for, and fails on a path it cannot store, if and only if its argument fits. -/
theorem rpmsgOpen_asked_iff {s s' : DrvState} {path : Option CStr} {es : Exchanges} {ret : Int}
    (hr : driverSys.Reach s) (h : s.exec (.openDev path) es = some (ret, s')) :
    OpensAsked path ret es ↔ Fits s.log path := by
  have hpath := driver_path (driver_reach_exec hr h)
  obtain ⟨c', fds, hp, -, rfl⟩ := DrvState.exec_eq_some.mp h
  rw [← asks_stored s.log path ret es, ← hpath]
  refine ⟨fun ho => ?_, fun ha => ⟨fun p flags a hmem => ?_, fun q hq hlong => ?_⟩⟩
  · obtain ⟨flags, a, hmem⟩ := (rpmsgOpen_opens hp).mpr rfl
    exact ho.opened _ _ _ hmem
  · rw [(rpmsgOpen_opens hp).mp ⟨flags, a, hmem⟩]
    exact ha
  · rw [hpath, asks_stored, hq] at ha
    exact absurd ha (Nat.not_lt.mpr hlong)

/-- "/dev/rpmsg1" -/
def otherDevPath : CStr := ⟨[47, 100, 101, 118, 47, 114, 112, 109, 115, 103, 49], by decide⟩

/-- `open` on `p` answers with descriptor 3. -/
def opensAs3 (p : List UInt8) : Exchanges := [⟨.openFile p (oRdwr ||| oNonblock), .fd 3⟩]

theorem openOther_runs :
    (driverStart.exec (.openDev (some otherDevPath)) (opensAs3 otherDevPath.bytes)).isSome := by
  decide +kernel

theorem rpmsgOpen_asked_iff_other : ∃ ret,
    OpensAsked (some otherDevPath) ret (opensAs3 otherDevPath.bytes) :=
  ⟨_, (rpmsgOpen_asked_iff (.init driverStart_fresh) (Option.some_get openOther_runs).symm).mpr
    (show otherDevPath.bytes.length < sizeofDevPath by decide)⟩

/-- A path of 64 bytes. -/
def longPath : CStr := ⟨List.replicate 64 97, by decide⟩

/-- A path of 64 bytes is cut and opened, and NULL reopens the path of the last call. -/
theorem rpmsgOpen_opens_another :
    (∃ s s' es, driverSys.Reach s ∧ s.exec (.openDev (some longPath)) es = some (0, s') ∧
      ¬ OpensAsked (some longPath) 0 es) ∧
    ∃ s s' es, driverSys.Reach s ∧ s.exec (.openDev none) es = some (0, s') ∧
      ¬ OpensAsked none 0 es := by
  refine ⟨?_, ?_⟩
  · have hx : (driverStart.exec (.openDev (some longPath))
        (opensAs3 (longPath.bytes.take 63))).map Prod.fst = some 0 := by
      decide +kernel
    obtain ⟨⟨ret, s'⟩, hx, rfl⟩ := Option.map_eq_some_iff.mp hx
    refine ⟨_, s', _, .init driverStart_fresh, hx, fun h => ?_⟩
    have hcut : longPath.bytes.take 63 = longPath.bytes :=
      h.opened _ _ _ (List.mem_singleton_self _) (by decide)
    exact absurd hcut (by decide)
  · have hr := driver_reach_exec (.init driverStart_fresh) (Option.some_get openOther_runs).symm
    have hx : (DrvState.exec (Option.get _ openOther_runs).2 (.openDev none)
        (⟨.close 3, .closed⟩ :: opensAs3 otherDevPath.bytes)).map Prod.fst = some 0 := by
      decide +kernel
    obtain ⟨⟨ret, s'⟩, hx, rfl⟩ := Option.map_eq_some_iff.mp hx
    refine ⟨_, s', _, hr, hx, fun h => ?_⟩
    have hold : otherDevPath.bytes = defaultDevPath.bytes :=
      h.opened _ _ _ (List.mem_cons_of_mem _ (List.mem_singleton_self _))
    exact absurd hold (by decide)

end LinuxApp.Drivers
